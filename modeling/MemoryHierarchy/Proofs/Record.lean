import Mathlib.Data.List.Nodup
import Mathlib.Data.List.Perm.Subperm
import MemoryHierarchy.Record

/-!
# Facts about maps of names

The lists that a `NameMap` is read as, `toList` and `values`, hold each entry once, so what is
counted over them can be counted over any list with the same members. `NameMap.Pointwise` relates
two maps that have the same names and whose values are related name by name: every pass over a
hierarchy is described by such a relation, and so is the typing of its records.
-/

namespace MemoryHierarchy

namespace NameMap

variable {α : Type}

/-! ## Entries as lists

A map is worked with through the list of its entries, which has each name once, in order. -/

/-- The values of a map are the second parts of its entries. -/
theorem values_eq (m : NameMap α) : m.values = m.toList.map Prod.snd := by
  obtain ⟨inner⟩ := m
  induction inner using Std.ExtDTreeMap.inductionOn with
  | mk tree =>
    show tree.inner.values = (Std.DTreeMap.Internal.Impl.Const.toList tree.inner).map Prod.snd
    rw [Std.DTreeMap.Internal.Impl.values_eq_map_snd,
      Std.DTreeMap.Internal.Impl.Const.toList_eq_toListModel_map, List.map_map]
    rfl

theorem mem_values_iff {m : NameMap α} {value : α} :
    value ∈ m.values ↔ ∃ name : String, m[name]? = some value := by
  rw [values_eq, List.mem_map]
  constructor
  · rintro ⟨⟨name, _⟩, hmem, rfl⟩
    exact ⟨name, Std.ExtTreeMap.mem_toList_iff_getElem?_eq_some.mp hmem⟩
  · rintro ⟨name, hget⟩
    exact ⟨(name, value), Std.ExtTreeMap.mem_toList_iff_getElem?_eq_some.mpr hget, rfl⟩

theorem nodup_toList (m : NameMap α) : m.toList.Nodup := by
  have hkeys : (m.toList.map Prod.fst).Nodup := by
    rw [Std.ExtTreeMap.map_fst_toList_eq_keys]
    exact Std.ExtTreeMap.nodup_keys
  exact List.Nodup.of_map _ hkeys

theorem getElem?_modify (m : NameMap α) (key name : String) (f : α → α) :
    (m.modify key f)[name]? = if key = name then m[key]?.map f else m[name]? := by
  rw [Std.ExtTreeMap.getElem?_modify]
  simp only [Std.compare_eq_iff_eq]

theorem getElem?_filter_name (m : NameMap α) (p : String → Bool) (name : String) :
    (m.filter fun name _ => p name)[name]? = if p name then m[name]? else none := by
  rw [Std.ExtTreeMap.getElem?_filter']
  cases p name <;> cases m[name]? <;> simp [Option.filter]

theorem mem_iff_exists {m : NameMap α} {name : String} :
    name ∈ m ↔ ∃ value, m[name]? = some value := by
  rw [Std.ExtTreeMap.mem_iff_isSome_getElem?, Option.isSome_iff_exists]

theorem mem_filter_name_iff {m : NameMap α} {p : String → Bool} {name : String} :
    (name ∈ m.filter fun name _ => p name) ↔ p name = true ∧ name ∈ m := by
  rw [mem_iff_exists, mem_iff_exists, getElem?_filter_name]
  cases p name <;> simp

/-- Distinct names of a map are no more than its entries. -/
theorem length_le_size {m : NameMap α} {names : List String} (hnodup : names.Nodup)
    (hknown : ∀ name ∈ names, name ∈ m) : names.length ≤ m.size := by
  have hsub : names ⊆ m.keys := fun name hname =>
    Std.ExtTreeMap.mem_keys.mpr (hknown name hname)
  rw [← Std.ExtTreeMap.length_keys]
  exact (hnodup.subperm hsub).length_le

/-- As many distinct names of a map as it has entries are all its names. -/
theorem mem_of_size_le {m : NameMap α} {names : List String} (hnodup : names.Nodup)
    (hknown : ∀ name ∈ names, name ∈ m) (hfull : m.size ≤ names.length) {name : String}
    (hname : name ∈ m) : name ∈ names := by
  -- with one more name there would be more names than entries
  by_contra habsent
  have hlonger := length_le_size (m := m) (List.nodup_cons.mpr ⟨habsent, hnodup⟩) (by
    intro other hother
    rcases List.mem_cons.mp hother with rfl | hother
    · exact hname
    · exact hknown other hother)
  rw [List.length_cons] at hlonger
  omega

/-- Where no name is in both maps, the entries of the union are those of both. -/
theorem toList_union_perm {m m' : NameMap α} (hdisjoint : ∀ name ∈ m', name ∉ m) :
    (m ∪ m').toList.Perm (m'.toList ++ m.toList) := by
  -- entries with a name in one map only occur once, so it is enough to compare members
  have hunion : (m'.toList ++ m.toList).Nodup := by
    refine List.nodup_append.mpr ⟨nodup_toList m', nodup_toList m, ?_⟩
    rintro ⟨name, value⟩ hleft ⟨other, value'⟩ hright heq
    rw [Prod.mk.injEq] at heq
    rw [Std.ExtTreeMap.mem_toList_iff_getElem?_eq_some] at hleft hright
    rw [← heq.1] at hright
    exact hdisjoint name (Std.ExtTreeMap.mem_iff_isSome_getElem?.mpr (by rw [hleft]; rfl))
      (Std.ExtTreeMap.mem_iff_isSome_getElem?.mpr (by rw [hright]; rfl))
  refine (List.perm_ext_iff_of_nodup (nodup_toList _) hunion).mpr ?_
  rintro ⟨name, value⟩
  rw [List.mem_append]
  simp only [Std.ExtTreeMap.mem_toList_iff_getElem?_eq_some, Std.ExtTreeMap.getElem?_union,
    Option.or_eq_some_iff]
  constructor
  · rintro (hright | ⟨_, hleft⟩)
    · exact Or.inl hright
    · exact Or.inr hleft
  · rintro (hright | hleft)
    · exact Or.inl hright
    · refine Or.inr ⟨?_, hleft⟩
      by_contra hpresent
      rw [← ne_eq, Option.ne_none_iff_isSome] at hpresent
      exact hdisjoint name (Std.ExtTreeMap.mem_iff_isSome_getElem?.mpr hpresent)
        (Std.ExtTreeMap.mem_iff_isSome_getElem?.mpr (by rw [hleft]; rfl))

/-! ## Groups by name

Records above a target, and declarations of a name, are collected by folds of one kind. -/

variable {β : Type}

/-- A fold that adds each item in front of the group of its name lists under a name the items that
have it, in their order. -/
theorem getElem?_foldr_of_group {add : α → NameMap (List β) → NameMap (List β)}
    {name? : α → Option String} {value : α → β}
    (hadd : ∀ item groups, add item groups = (name? item).elim groups fun name =>
      groups.insert name (value item :: groups.getD name []))
    (items : List α) (name : String) :
    (items.foldr add ∅)[name]? =
      if items.filter (name? · = some name) = [] then none
      else some ((items.filter (name? · = some name)).map value) := by
  induction items with
  | nil => simp
  | cons item items ih =>
    rw [List.foldr_cons, hadd, List.filter_cons]
    cases hname : name? item with
    | none => simpa using ih
    -- the item goes in front of its group, which may have been empty
    | some key =>
      rw [Option.elim_some, Std.ExtTreeMap.getElem?_insert, Std.ExtTreeMap.getD_eq_getD_getElem?]
      by_cases hkey : key = name
      · subst hkey
        rw [ih]
        by_cases hempty : items.filter (name? · = some key) = []
        · simp [hempty]
        · simp [hempty]
      · simpa [hkey] using ih

/-! ## Counting entries

Counting the entries of a map with a property is the same for maps with the same names and answers.
-/

/-- The names whose values have a property. -/
def namesWith (p : α → Bool) (m : NameMap α) : List String :=
  (m.toList.filter fun entry => p entry.2).map Prod.fst

theorem mem_namesWith_iff {p : α → Bool} {m : NameMap α} {name : String} :
    name ∈ namesWith p m ↔ ∃ value, m[name]? = some value ∧ p value = true := by
  simp [namesWith, Std.ExtTreeMap.mem_toList_iff_getElem?_eq_some]

theorem nodup_namesWith (p : α → Bool) (m : NameMap α) : (namesWith p m).Nodup := by
  refine (List.filter_sublist.map Prod.fst).nodup ?_
  rw [Std.ExtTreeMap.map_fst_toList_eq_keys]
  exact Std.ExtTreeMap.nodup_keys

theorem countP_values (p : α → Bool) (m : NameMap α) :
    m.values.countP p = (namesWith p m).length := by
  rw [values_eq, List.countP_map, List.countP_eq_length_filter, namesWith, List.length_map]
  rfl

/-- Where the names are the same, the counts are. -/
theorem countP_values_eq {m : NameMap α} {m' : NameMap β} {p : α → Bool} {p' : β → Bool}
    (h : ∀ name : String, (∃ value, m[name]? = some value ∧ p value = true) ↔
      ∃ value, m'[name]? = some value ∧ p' value = true) :
    m.values.countP p = m'.values.countP p' := by
  rw [countP_values, countP_values]
  refine List.Perm.length_eq ?_
  refine (List.perm_ext_iff_of_nodup (nodup_namesWith p m) (nodup_namesWith p' m')).mpr ?_
  intro name
  rw [mem_namesWith_iff, mem_namesWith_iff, h]

/-! ## Maps that are related name by name

Passes change records and keep names. A relation between records is lifted to maps, and with it
reflexivity, transitivity and what is known of unions. -/

/-- Two maps have the same names, and the two values of each name are related. Relations between
records lift to maps in this way, and compose as they do. -/
def Pointwise (R : String → α → β → Prop) (before : NameMap α) (after : NameMap β) : Prop :=
  ∀ name : String, Option.Rel (R name) before[name]? after[name]?

variable {γ : Type} {R S : String → α → β → Prop} {before : NameMap α} {after : NameMap β}

theorem Pointwise.refl {R : String → α → α → Prop} {m : NameMap α}
    (hrefl : ∀ name value, m[name]? = some value → R name value value) : Pointwise R m m := by
  intro name
  cases hget : m[name]? with
  | none => exact .none
  | some value => exact .some (hrefl name value hget)

theorem Pointwise.trans {R' : String → β → γ → Prop} {T : String → α → γ → Prop}
    {last : NameMap γ} (hfirst : Pointwise R before after) (hsecond : Pointwise R' after last)
    (hstep : ∀ name a b c, R name a b → R' name b c → T name a c) : Pointwise T before last := by
  intro name
  have h := hfirst name
  have h' := hsecond name
  cases hb : before[name]? <;> cases hm : after[name]? <;> cases ha : last[name]? <;>
    rw [hb, hm] at h <;> rw [hm, ha] at h' <;> cases h <;> cases h'
  · exact .none
  · exact .some (hstep name _ _ _ ‹_› ‹_›)

theorem Pointwise.mono (h : Pointwise R before after)
    (himp : ∀ name a b, R name a b → S name a b) : Pointwise S before after := by
  intro name
  have hname := h name
  cases hb : before[name]? <;> cases ha : after[name]? <;> rw [hb, ha] at hname <;> cases hname
  · exact .none
  · exact .some (himp name _ _ ‹_›)

theorem Pointwise.exists_after (h : Pointwise R before after) {name : String} {a : α}
    (hget : before[name]? = some a) : ∃ b, after[name]? = some b ∧ R name a b := by
  have hname := h name
  rw [hget] at hname
  cases ha : after[name]? with
  | none => rw [ha] at hname; cases hname
  | some b => rw [ha] at hname; cases hname; exact ⟨b, rfl, ‹_›⟩

theorem Pointwise.exists_before (h : Pointwise R before after) {name : String} {b : β}
    (hget : after[name]? = some b) : ∃ a, before[name]? = some a ∧ R name a b := by
  have hname := h name
  rw [hget] at hname
  cases hb : before[name]? with
  | none => rw [hb] at hname; cases hname
  | some a => rw [hb] at hname; cases hname; exact ⟨a, rfl, ‹_›⟩

theorem Pointwise.mem_iff (h : Pointwise R before after) (name : String) :
    name ∈ before ↔ name ∈ after := by
  rw [mem_iff_exists, mem_iff_exists]
  constructor
  · rintro ⟨a, hget⟩
    obtain ⟨b, hget', _⟩ := h.exists_after hget
    exact ⟨b, hget'⟩
  · rintro ⟨b, hget'⟩
    obtain ⟨a, hget, _⟩ := h.exists_before hget'
    exact ⟨a, hget⟩

theorem Pointwise.union {before' : NameMap α} {after' : NameMap β} (h : Pointwise R before after)
    (h' : Pointwise R before' after') : Pointwise R (before ∪ before') (after ∪ after') := by
  intro name
  have hname := h name
  have hname' := h' name
  rw [Std.ExtTreeMap.getElem?_union, Std.ExtTreeMap.getElem?_union]
  cases hb : before'[name]? <;> cases ha : after'[name]? <;> rw [hb, ha] at hname' <;>
    cases hname'
  · exact hname
  · exact .some ‹_›

theorem pointwise_map_of_mem {f : String → α → β} {m : NameMap α}
    (hf : ∀ name value, m[name]? = some value → R name value (f name value)) :
    Pointwise R m (m.map f) := by
  intro name
  rw [Std.ExtTreeMap.getElem?_map]
  cases hget : m[name]? with
  | none => exact .none
  | some value => exact .some (hf name value hget)

theorem pointwise_map {f : String → α → β} (hf : ∀ name value, R name value (f name value))
    (m : NameMap α) : Pointwise R m (m.map f) :=
  pointwise_map_of_mem fun name value _ => hf name value

/-- Changing one value relates the maps where the change relates that value, and every value is
related to itself. -/
theorem pointwise_modify {R : String → α → α → Prop} {key : String} {f : α → α} {m : NameMap α}
    (hchanged : ∀ value, m[key]? = some value → R key value (f value))
    (hkept : ∀ name value, m[name]? = some value → R name value value) :
    Pointwise R m (m.modify key f) := by
  intro name
  rw [getElem?_modify]
  split
  · next heq =>
    subst heq
    cases hget : m[key]? with
    | none => exact .none
    | some value => exact .some (hchanged value hget)
  · cases hget : m[name]? with
    | none => exact .none
    | some value => exact .some (hkept name value hget)

end NameMap

namespace RecordMap

/-! ## Records that go by the name they are found under

Names come from two sides, the keys of a map and the records in it, and they agree. -/

/-- Each record carries the name that it is found under. -/
def Named (records : RecordMap) : Prop :=
  ∀ (name : String) (record : Document), records[name]? = some record → record.name? = some name

theorem named_iff_toList {records : RecordMap} :
    records.Named ↔ ∀ entry ∈ records.toList, entry.2.name? = some entry.1 := by
  unfold Named
  simp only [Prod.forall, Std.ExtTreeMap.mem_toList_iff_getElem?_eq_some]

instance (records : RecordMap) : Decidable records.Named :=
  decidable_of_iff _ named_iff_toList.symm

theorem Named.union {m m' : RecordMap} (h : m.Named) (h' : m'.Named) : Named (m ∪ m') := by
  intro name record hget
  rw [Std.ExtTreeMap.getElem?_union, Option.or_eq_some_iff] at hget
  rcases hget with hright | ⟨_, hleft⟩
  · exact h' name record hright
  · exact h name record hleft

theorem Named.of_pointwise {before after : RecordMap} (hnamed : before.Named)
    (h : NameMap.Pointwise (fun _ before after => after.name? = before.name?) before after) :
    after.Named := by
  intro name record hget
  obtain ⟨record', hget', hsame⟩ := h.exists_before hget
  rw [hsame]
  exact hnamed name record' hget'

end RecordMap

end MemoryHierarchy
