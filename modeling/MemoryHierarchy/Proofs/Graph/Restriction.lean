import MemoryHierarchy.Proofs.Graph.Reachable

/-!
# Maps without some names

Taking names out of a map commutes with changing one value and with union. In a map of records it
takes nothing away from a walk that meets none of the names: the walk finds the same links, and the
bound on its length, which shrinks with the map, is still not what ends it. So where the roots reach
none of the names, everything that is read off walks from the roots stays the same.
-/

namespace MemoryHierarchy

namespace NameMap

variable {α : Type} {m m' : NameMap α} {dropped : String → Bool} {name : String}

/-- A map without some names. -/
def without (m : NameMap α) (dropped : String → Bool) : NameMap α :=
  m.filter fun name _ => !dropped name

theorem getElem?_without (m : NameMap α) (dropped : String → Bool) (name : String) :
    (m.without dropped)[name]? = if dropped name then none else m[name]? := by
  rw [without, getElem?_filter_name]
  cases dropped name <;> rfl

theorem mem_without_iff : name ∈ m.without dropped ↔ dropped name = false ∧ name ∈ m := by
  rw [without, mem_filter_name_iff, Bool.not_eq_true']

/-- Names that the map does not have can be taken out of it. -/
theorem mem_without_of_absent (habsent : dropped name = true → name ∉ m) :
    name ∈ m.without dropped ↔ name ∈ m := by
  rw [mem_without_iff, and_iff_right_iff_imp]
  intro hmem
  rw [← Bool.not_eq_true]
  exact fun hname => habsent hname hmem

theorem size_without_le (m : NameMap α) (dropped : String → Bool) :
    (m.without dropped).size ≤ m.size := by
  have hkeys : ∀ name ∈ (m.without dropped).keys, name ∈ m := fun name hname =>
    (mem_without_iff.mp (Std.ExtTreeMap.mem_keys.mp hname)).2
  have hlength := length_le_size Std.ExtTreeMap.nodup_keys hkeys
  rwa [Std.ExtTreeMap.length_keys] at hlength

theorem modify_without (m : NameMap α) (dropped : String → Bool) (key : String) (f : α → α) :
    (m.without dropped).modify key f = without (m.modify key f) dropped := by
  refine Std.ExtTreeMap.ext_getElem? fun name => ?_
  rw [getElem?_modify, getElem?_without, getElem?_without, getElem?_without, getElem?_modify]
  by_cases hkey : key = name
  · subst hkey
    cases dropped key <;> simp
  · simp only [hkey, if_false]

/-- A name that has been taken out has no value to change. -/
theorem modify_of_dropped (m : NameMap α) {key : String} (hkey : dropped key = true)
    (f : α → α) :
    (m.without dropped).modify key f = m.without dropped := by
  refine Std.ExtTreeMap.ext_getElem? fun name => ?_
  rw [getElem?_modify]
  split
  · next hname =>
    subst hname
    rw [getElem?_without, hkey]
    rfl
  · rfl

theorem union_without (m m' : NameMap α) (dropped : String → Bool) :
    m.without dropped ∪ m'.without dropped = without (m ∪ m') dropped := by
  refine Std.ExtTreeMap.ext_getElem? fun name => ?_
  rw [Std.ExtTreeMap.getElem?_union, getElem?_without, getElem?_without, getElem?_without,
    Std.ExtTreeMap.getElem?_union]
  cases dropped name <;> simp

/-- What is kept only under other names is kept all the same. -/
theorem filter_without {kept : String → Bool}
    (h : ∀ name, kept name = true → dropped name = false) :
    ((m.without dropped).filter fun name _ => kept name) = m.filter fun name _ => kept name := by
  refine Std.ExtTreeMap.ext_getElem? fun name => ?_
  rw [getElem?_filter_name, getElem?_filter_name, getElem?_without]
  cases hkept : kept name with
  | false => rfl
  | true => simp [h name hkept]

end NameMap

namespace RecordMap

open NameMap (getElem?_without)

variable {records : RecordMap} {link : String} {dropped : String → Bool} {roots : List String}
  {name start : String}

theorem target?_without (hname : dropped name = false) :
    target? (records.without dropped) link name = records.target? link name := by
  rw [target?, target?, getElem?_without, hname]
  rfl

/-! ## Walks

Names that no walk meets can be taken out of a map. A walk ends where it ended before, as the record
it would have gone on to was not there. -/

theorem walkFrom_without {fuel : Nat} {visited : List String}
    (hkept : ∀ last, Reaches records link name last → dropped last = false) :
    walkFrom (records.without dropped) link fuel visited name =
      records.walkFrom link fuel visited name := by
  induction fuel generalizing visited name with
  | zero => rfl
  | succ fuel ih =>
    by_cases hvisited : name ∈ visited
    · rw [walkFrom_of_visited hvisited, walkFrom_of_visited hvisited]
    by_cases hknown : name ∈ records
    · obtain ⟨record, hget⟩ := NameMap.mem_iff_exists.mp hknown
      -- the name is reached from itself, so it is kept, and its link leads where it led
      have hname : dropped name = false := hkept name (.refl hknown)
      have hget' : (records.without dropped)[name]? = some record := by
        rw [getElem?_without, hname]
        exact hget
      rw [walkFrom_succ hvisited hget, walkFrom_succ hvisited hget', target?_without hname]
      cases hop : records.target? link name with
      | none => rfl
      | some next => exact congrArg _ (ih fun last honward => hkept last (.head hop honward))
    · have hunknown : name ∉ records.without dropped := fun hname =>
        hknown (NameMap.mem_without_iff.mp hname).2
      rw [walkFrom_of_not_mem hknown, walkFrom_of_not_mem hunknown]

/-- **A walk that meets none of the names is the same without them.** Only records that are met are
looked up, so the rest of the map has no influence. -/
theorem walk_without (hkept : ∀ last, Reaches records link start last → dropped last = false) :
    walk (records.without dropped) link start = records.walk link start := by
  have hsize : records.size =
      (records.without dropped).size + (records.size - (records.without dropped).size) := by
    have := NameMap.size_without_le records dropped
    omega
  calc walk (records.without dropped) link start
      = walkFrom (records.without dropped) link records.size [] start := by
        rw [hsize, walkFrom_add (Trail.start start) (by simp)]
        rfl
    _ = records.walk link start := walkFrom_without hkept

/-! ## What roots reach

The same holds of what is computed from walks: the records that are kept, and their levels. -/

section

variable (hkept : ∀ last, ReachedFrom records link roots last → dropped last = false)

include hkept

theorem namesMet_without :
    namesMet (records.without dropped) link roots = records.namesMet link roots := by
  unfold namesMet
  congr 1
  refine List.flatMap_congr fun root hroot => ?_
  rw [walk_without fun last hreach => hkept last ⟨root, hroot, hreach⟩]

theorem accessible_without (hnamed : records.Named) :
    accessible (records.without dropped) link roots = records.accessible link roots := by
  unfold accessible
  rw [namesMet_without hkept]
  refine NameMap.filter_without fun name hmet => ?_
  rw [Std.ExtTreeSet.contains_iff_mem, mem_namesMet_iff hnamed] at hmet
  exact hkept name hmet

theorem fillLevels_without :
    fillLevels (records.without dropped) link roots = records.fillLevels link roots := by
  unfold fillLevels
  refine List.foldl_ext _ _ _ fun levels root hroot => ?_
  rw [walk_without fun last hreach => hkept last ⟨root, hroot, hreach⟩]

end

end RecordMap

end MemoryHierarchy
