import MemoryHierarchy.Proofs.Graph.Walk

/-!
# What roots reach

`accessible` keeps the records whose names are met on walks from the roots. Where records go by the
names they are found under, these are exactly the records that a root reaches, and dropping the
others takes no link away from those that stay (`reachedFrom_accessible`): doing it again changes
nothing (`accessible_accessible`).

Reaching looks at links between records only: `SameLinks` says that two maps agree on these, and
everything about reaching is then the same for both.
-/

namespace MemoryHierarchy

namespace RecordMap

variable {records before after : RecordMap} {link : String} {roots : List String} {name : String}

/-- One of the roots reaches a record. -/
def ReachedFrom (records : RecordMap) (link : String) (roots : List String) (name : String) :
    Prop :=
  ∃ root ∈ roots, Reaches records link root name

theorem ReachedFrom.tail {next : String} (h : ReachedFrom records link roots name)
    (hop : records.target? link name = some next) (known : next ∈ records) :
    ReachedFrom records link roots next := by
  obtain ⟨root, hroot, hreach⟩ := h
  exact ⟨root, hroot, hreach.tail hop known⟩

theorem ReachedFrom.mem (h : ReachedFrom records link roots name) : name ∈ records := by
  obtain ⟨_, _, hreach⟩ := h
  exact hreach.last_mem

/-- What is reached is a root, or another record that is reached links to it. -/
theorem ReachedFrom.exists_upper (h : ReachedFrom records link roots name) (hroot : name ∉ roots) :
    ∃ upper, ReachedFrom records link roots upper ∧ records.target? link upper = some name := by
  obtain ⟨root, hmem, n, hreach⟩ := h
  cases n with
  | zero =>
    cases hreach
    exact absurd hmem hroot
  | succ n =>
    obtain ⟨upper, hupper, hop⟩ := hreach.exists_last_hop
    exact ⟨upper, ⟨root, hmem, n, hupper⟩, hop⟩

/-! ## The records that are kept

Walks from all roots are joined, and what they meet is kept. Whether the way ends or runs into a
cycle makes no difference, because a walk goes on until a name comes again. -/

theorem mem_namesMet_iff (hnamed : records.Named) :
    name ∈ records.namesMet link roots ↔ ReachedFrom records link roots name := by
  rw [namesMet, Std.ExtTreeSet.mem_ofList, List.contains_iff_mem, List.mem_flatMap]
  refine exists_congr fun root => and_congr_right fun _ => ?_
  rw [List.mem_filterMap, ← mem_pathNames_walk_iff, pathNames, List.mem_map]
  constructor
  · rintro ⟨⟨key, record⟩, hmet, hname⟩
    have hkey := hnamed key record (mem_walk_iff.mp hmet).2
    exact ⟨(key, record), hmet, Option.some.inj (hkey.symm.trans hname)⟩
  · rintro ⟨⟨key, record⟩, hmet, rfl⟩
    exact ⟨(key, record), hmet, hnamed key record (mem_walk_iff.mp hmet).2⟩

theorem mem_accessible_iff (hnamed : records.Named) :
    name ∈ records.accessible link roots ↔ ReachedFrom records link roots name := by
  rw [← mem_namesMet_iff hnamed, accessible, Std.ExtTreeMap.mem_filter]
  simp only [Std.ExtTreeMap.getKey_eq, Std.ExtTreeSet.contains_iff_mem]
  constructor
  · rintro ⟨_, hmet⟩
    exact hmet
  · intro hmet
    exact ⟨((mem_namesMet_iff hnamed).mp hmet).mem, hmet⟩

/-- What is kept is kept as it is. -/
theorem getElem?_accessible (hkept : name ∈ records.accessible link roots) :
    (records.accessible link roots)[name]? = records[name]? := by
  rw [accessible, Std.ExtTreeMap.mem_filter] at hkept
  obtain ⟨_, hmet⟩ := hkept
  rw [Std.ExtTreeMap.getKey_eq] at hmet
  unfold accessible
  rw [NameMap.getElem?_filter_name, if_pos hmet]

theorem target?_accessible (hkept : name ∈ records.accessible link roots) (key : String) :
    (records.accessible link roots).target? key name = records.target? key name := by
  rw [target?, target?, getElem?_accessible hkept]

theorem Named.accessible (hnamed : records.Named) (link : String) (roots : List String) :
    Named (records.accessible link roots) := by
  intro name record hget
  rw [getElem?_accessible (NameMap.mem_iff_exists.mpr ⟨record, hget⟩)] at hget
  exact hnamed name record hget

/-- **The records that are kept are still reached.** All records on the way are kept as well, with
their links. -/
theorem reachedFrom_accessible (hnamed : records.Named)
    (hkept : name ∈ records.accessible link roots) :
    ReachedFrom (records.accessible link roots) link roots name := by
  -- every record on the way is reached as well, so no link on it is lost
  have hway : ∀ {n : Nat} {start last : String}, ReachedFrom records link roots start →
      ReachesIn records link n start last →
      ReachesIn (records.accessible link roots) link n start last := by
    intro n start last hstart hreach
    induction hreach with
    | refl _ => exact .refl ((mem_accessible_iff hnamed).mpr hstart)
    | step hop onward ih =>
      have hnext := hstart.tail hop onward.start_mem
      refine .step ?_ (ih hnext)
      rw [target?_accessible ((mem_accessible_iff hnamed).mpr hstart)]
      exact hop
  obtain ⟨root, hroot, n, hreach⟩ := (mem_accessible_iff hnamed).mp hkept
  exact ⟨root, hroot, n, hway ⟨root, hroot, .refl hreach.start_mem⟩ hreach⟩

/-- What has been kept is kept again. -/
theorem accessible_accessible (hnamed : records.Named) :
    accessible (records.accessible link roots) link roots = records.accessible link roots := by
  refine Std.ExtTreeMap.ext_getElem? fun name => ?_
  by_cases hkept : name ∈ records.accessible link roots
  · exact getElem?_accessible ((mem_accessible_iff (hnamed.accessible link roots)).mpr
      (reachedFrom_accessible hnamed hkept))
  · have hagain : name ∉ accessible (records.accessible link roots) link roots :=
      fun hmem => hkept (Std.ExtTreeMap.mem_of_mem_filter hmem)
    rw [Std.ExtTreeMap.getElem?_eq_none hagain, Std.ExtTreeMap.getElem?_eq_none hkept]

/-- **Exactly the records that a root reaches are kept, as they are**, also where the way runs into
a cycle; a root without a record reaches nothing. To keep them once more changes nothing. -/
theorem accessible_exact (hnamed : records.Named) (link : String) (roots : List String) :
    (∀ name record, (records.accessible link roots)[name]? = some record ↔
      (∃ root ∈ roots, root ∈ records ∧ Reaches records link root name) ∧
        records[name]? = some record) ∧
      accessible (records.accessible link roots) link roots = records.accessible link roots := by
  refine ⟨fun name record => ?_, accessible_accessible hnamed⟩
  constructor
  · intro hget
    have hkept : name ∈ records.accessible link roots := NameMap.mem_iff_exists.mpr ⟨record, hget⟩
    obtain ⟨root, hroot, hreach⟩ := (mem_accessible_iff hnamed).mp hkept
    rw [getElem?_accessible hkept] at hget
    exact ⟨⟨root, hroot, hreach.start_mem, hreach⟩, hget⟩
  -- a root without a record is no exception, as nothing is reached from it
  · rintro ⟨⟨root, hroot, _, hreach⟩, hget⟩
    rw [getElem?_accessible ((mem_accessible_iff hnamed).mpr ⟨root, hroot, hreach⟩)]
    exact hget

/-- A way into a cycle of two records, and a record above it. -/
def wayIntoCycle : RecordMap :=
  Std.ExtTreeMap.ofList
    [("above", Document.named "above" ++ [("lower_level", .string "way")]),
      ("way", Document.named "way" ++ [("lower_level", .string "one")]),
      ("one", Document.named "one" ++ [("lower_level", .string "other")]),
      ("other", Document.named "other" ++ [("lower_level", .string "one")])]

/-- The whole cycle is reached from the way into it, and nothing above. -/
theorem accessible_exact_wayIntoCycle :
    wayIntoCycle.Named ∧
      (∃ root ∈ ["none", "way"],
        root ∈ wayIntoCycle ∧ Reaches wayIntoCycle "lower_level" root "other") ∧
      (¬∃ root ∈ ["none", "way"],
        root ∈ wayIntoCycle ∧ Reaches wayIntoCycle "lower_level" root "above") ∧
      accessible (wayIntoCycle.accessible "lower_level" ["none", "way"]) "lower_level"
        ["none", "way"] = wayIntoCycle.accessible "lower_level" ["none", "way"] := by
  have hnamed : wayIntoCycle.Named := by decide +kernel
  obtain ⟨hkept, hagain⟩ := accessible_exact hnamed "lower_level" ["none", "way"]
  refine ⟨hnamed, ?_, ?_, hagain⟩
  · exact ((hkept "other" (Document.named "other" ++ [("lower_level", .string "one")])).mp
      (by decide +kernel)).1
  · intro hreached
    have habove := (hkept "above" (Document.named "above" ++ [("lower_level", .string "way")])).mpr
      ⟨hreached, by decide +kernel⟩
    revert habove
    decide +kernel

/-! ## Maps with the same links

What is reached depends on links only. Passes that change records but not their links leave
everything here as it is, and they need not be looked at again. -/

/-- Two maps have the same names and the same links between their records; links to what is no
record do not count. -/
structure SameLinks (link : String) (before after : RecordMap) : Prop where
  mem_iff : ∀ name, name ∈ before ↔ name ∈ after
  target?_iff : ∀ name, ∀ next ∈ before,
    before.target? link name = some next ↔ after.target? link name = some next

namespace SameLinks

theorem symm (h : SameLinks link before after) : SameLinks link after before where
  mem_iff := fun name => (h.mem_iff name).symm
  target?_iff := fun name next hnext => (h.target?_iff name next ((h.mem_iff next).mpr hnext)).symm

theorem trans {middle : RecordMap} (h : SameLinks link before middle)
    (h' : SameLinks link middle after) : SameLinks link before after where
  mem_iff := fun name => (h.mem_iff name).trans (h'.mem_iff name)
  target?_iff := fun name next hnext => (h.target?_iff name next hnext).trans
    (h'.target?_iff name next ((h.mem_iff next).mp hnext))

theorem reachesIn (h : SameLinks link before after) {n : Nat} {last : String}
    (hreach : ReachesIn before link n name last) : ReachesIn after link n name last :=
  hreach.mono (fun name => (h.mem_iff name).mp)
    fun name next hnext => (h.target?_iff name next hnext).mp

theorem acyclic (h : SameLinks link before after) (hacyclic : before.Acyclic link) :
    after.Acyclic link :=
  fun n name hround => hacyclic n name (h.symm.reachesIn hround)

theorem reachedFrom_iff (h : SameLinks link before after) :
    ReachedFrom before link roots name ↔ ReachedFrom after link roots name := by
  constructor
  · rintro ⟨root, hroot, n, hreach⟩
    exact ⟨root, hroot, n, h.reachesIn hreach⟩
  · rintro ⟨root, hroot, n, hreach⟩
    exact ⟨root, hroot, n, h.symm.reachesIn hreach⟩

theorem accessible (h : SameLinks link before after) (hbefore : before.Named)
    (hafter : after.Named) (roots : List String) :
    SameLinks link (before.accessible link roots) (after.accessible link roots) where
  mem_iff := fun name => by
    rw [mem_accessible_iff hbefore, mem_accessible_iff hafter, h.reachedFrom_iff]
  target?_iff := by
    intro name next hnext
    have hmem : name ∈ before.accessible link roots ↔ name ∈ after.accessible link roots := by
      rw [mem_accessible_iff hbefore, mem_accessible_iff hafter, h.reachedFrom_iff]
    -- a record that is dropped has no link in either map
    by_cases hname : name ∈ before.accessible link roots
    · rw [target?_accessible hname, target?_accessible (hmem.mp hname)]
      exact h.target?_iff name next (Std.ExtTreeMap.mem_of_mem_filter hnext)
    · constructor
      · intro hop
        exact absurd (mem_of_target? hop) hname
      · intro hop
        exact absurd (hmem.mpr (mem_of_target? hop)) hname

end SameLinks

/-- Where the two records of each name have the same link to a record, if any, the maps have the
same links. -/
theorem sameLinks_of_pointwise
    (h : NameMap.Pointwise (fun _ a b => ∀ next ∈ before,
      a.string? link = some next ↔ b.string? link = some next) before after) :
    SameLinks link before after where
  mem_iff := h.mem_iff
  target?_iff := by
    intro name next hnext
    rw [target?_eq_some_iff, target?_eq_some_iff]
    constructor
    · rintro ⟨record, hget, hlink⟩
      obtain ⟨record', hget', hiff⟩ := h.exists_after hget
      exact ⟨record', hget', (hiff next hnext).mp hlink⟩
    · rintro ⟨record', hget', hlink⟩
      obtain ⟨record, hget, hiff⟩ := h.exists_before hget'
      exact ⟨record, hget, (hiff next hnext).mpr hlink⟩

end RecordMap

end MemoryHierarchy
