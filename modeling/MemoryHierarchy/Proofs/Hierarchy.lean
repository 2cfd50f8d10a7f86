import Mathlib.Data.List.Sort
import MemoryHierarchy.Hierarchy
import MemoryHierarchy.Proofs.Document.Merge
import MemoryHierarchy.Proofs.Graph.Level

/-!
# Hierarchies

Where no name is that of a cache and of a walker, the system of a hierarchy has the records of both
maps, and what is counted over the two maps is counted over the system (`Disjoint.linkers_eq`). The
number of sharers of a record is the number of records that link to it among those that are reached
(`getElem?_sharers`), so it does not change where links do not.

`AgreesOff` lifts "differs in some keys only" from records to hierarchies. Passes that leave the
slots and the links alone change neither the roots nor what they reach.
-/

namespace MemoryHierarchy

/-! ## Sorting

Levels are visited by number. The order of records within a level is that of their names, as sorting
is stable. -/

/-- An item is inserted in front of those that it is sorted before. -/
theorem orderedInsert_append {α : Type} {le : α → α → Bool} {a : α} {front back : List α}
    (hfront : ∀ b ∈ front, le a b = false) (hback : ∀ b ∈ back, le a b = true) :
    List.orderedInsert (fun a b => le a b = true) a (front ++ back) = front ++ a :: back := by
  induction front with
  | nil =>
    cases back with
    | nil => rfl
    | cons b back => exact List.orderedInsert_cons_of_le _ back (hback b List.mem_cons_self)
  | cons b front ih =>
    have hb : ¬le a b = true := by
      rw [hfront b List.mem_cons_self]
      exact Bool.false_ne_true
    rw [List.cons_append, List.orderedInsert, if_neg hb,
      ih fun c hc => hfront c (List.mem_cons_of_mem _ hc), List.cons_append]

/-- Merging and inserting sort to the same list, also where the order does not decide between two
items: both of them keep the one that stands first in front. -/
theorem mergeSort_eq_insertionSort {α : Type} {le : α → α → Bool}
    (htrans : ∀ a b c, le a b = true → le b c = true → le a c = true)
    (htotal : ∀ a b, (le a b || le b a) = true) (items : List α) :
    items.mergeSort le = items.insertionSort fun a b => le a b = true := by
  induction items with
  | nil => rw [List.mergeSort_nil, List.insertionSort_nil]
  | cons item items ih =>
    -- merging puts the item behind all that have to come before it, and so does insertion
    obtain ⟨front, back, hcons, hrest, hfront⟩ := List.mergeSort_cons htrans htotal item items
    have hsorted := List.pairwise_mergeSort htrans htotal (item :: items)
    rw [hcons, List.pairwise_append, List.pairwise_cons] at hsorted
    rw [List.insertionSort_cons, ← ih, hrest, hcons]
    refine (orderedInsert_append ?_ hsorted.2.1.1).symm
    intro other hother
    rw [← Bool.not_eq_true']
    exact hfront other hother

namespace NameMap

variable {m : NameMap Nat}

theorem mem_byNumber_iff {entry : String × Nat} :
    entry ∈ m.byNumber ↔ m[entry.1]? = some entry.2 := by
  rw [byNumber, List.mem_mergeSort, ← Std.ExtTreeMap.mem_toList_iff_getElem?_eq_some]

theorem pairwise_byNumber (m : NameMap Nat) : m.byNumber.Pairwise fun a b => a.2 ≤ b.2 := by
  have hsorted : m.byNumber.Pairwise fun a b => decide (a.2 ≤ b.2) = true := by
    refine List.pairwise_mergeSort ?_ ?_ m.toList
    · simp only [decide_eq_true_eq]
      omega
    · simp only [Bool.or_eq_true, decide_eq_true_eq]
      omega
  exact hsorted.imp of_decide_eq_true

/-- Insertion is the way of sorting that can be computed in proofs. -/
theorem byNumber_eq (m : NameMap Nat) :
    m.byNumber = m.toList.insertionSort fun a b => decide (a.2 ≤ b.2) = true := by
  refine mergeSort_eq_insertionSort ?_ ?_ m.toList
  · simp only [decide_eq_true_eq]
    omega
  · simp only [Bool.or_eq_true, decide_eq_true_eq]
    omega

end NameMap

namespace Hierarchy

variable {h before middle after : Hierarchy} {name : String} {record : Document}

/-! ## The system

Caches and walkers make one map. A cache hides a walker of the same name, so most statements about
the system ask that no name is in both. -/

theorem mem_system_iff : name ∈ h.system ↔ name ∈ h.walkers ∨ name ∈ h.caches := by
  rw [system, Std.ExtTreeMap.mem_union_iff]

theorem system_named (hcaches : h.caches.Named) (hwalkers : h.walkers.Named) : h.system.Named :=
  hwalkers.union hcaches

/-- No name is that of a cache and of a walker. The two kinds are kept in maps of their own, but
links are followed in their union, where one record would hide the other. -/
def Disjoint (h : Hierarchy) : Prop := ∀ name ∈ h.caches, name ∉ h.walkers

instance (h : Hierarchy) : Decidable h.Disjoint :=
  decidable_of_iff (∀ name ∈ h.caches.keys, name ∉ h.walkers) (by simp [Disjoint])

theorem getElem?_or_of_system (hget : h.system[name]? = some record) :
    h.caches[name]? = some record ∨ h.walkers[name]? = some record := by
  rw [system, Std.ExtTreeMap.getElem?_union, Option.or_eq_some_iff] at hget
  exact hget.imp_right And.right

theorem getElem?_system_of_cache (hget : h.caches[name]? = some record) :
    h.system[name]? = some record := by
  rw [system, Std.ExtTreeMap.getElem?_union, hget]
  rfl

theorem Disjoint.getElem?_system_of_walker (hdisjoint : h.Disjoint)
    (hget : h.walkers[name]? = some record) : h.system[name]? = some record := by
  have hwalker : name ∈ h.walkers := NameMap.mem_iff_exists.mpr ⟨record, hget⟩
  have hcache : name ∉ h.caches := fun hcache => hdisjoint name hcache hwalker
  rw [system, Std.ExtTreeMap.getElem?_union, hget, Std.ExtTreeMap.getElem?_eq_none hcache]
  rfl

theorem mem_roots_iff :
    name ∈ h.roots ↔ ∃ core ∈ h.cores, ∃ slot ∈ Slot.firstLevel, core.slot? slot = some name := by
  simp only [roots, coreRoots, List.mem_flatMap, List.mem_filterMap]

/-! ## Pruning

What is left of caches and of walkers is what the first level of the cores leads to in the system.
-/

theorem mem_reachable_iff (hnamed : h.system.Named) :
    name ∈ h.reachable ↔ h.system.ReachedFrom lowerLevel h.roots name :=
  RecordMap.mem_accessible_iff hnamed

theorem mem_levels_iff (hnamed : h.system.Named) : name ∈ h.levels ↔ name ∈ h.reachable := by
  rw [mem_reachable_iff hnamed]
  exact RecordMap.mem_fillLevels_iff hnamed

theorem getElem?_prune_caches :
    h.prune.caches[name]? = if name ∈ h.reachable then h.caches[name]? else none := by
  unfold prune
  rw [NameMap.getElem?_filter_name]
  simp only [Std.ExtTreeMap.contains_iff_mem]

theorem getElem?_prune_walkers :
    h.prune.walkers[name]? = if name ∈ h.reachable then h.walkers[name]? else none := by
  unfold prune
  rw [NameMap.getElem?_filter_name]
  simp only [Std.ExtTreeMap.contains_iff_mem]

theorem mem_caches_prune_iff : name ∈ h.prune.caches ↔ name ∈ h.reachable ∧ name ∈ h.caches := by
  unfold prune
  rw [NameMap.mem_filter_name_iff, Std.ExtTreeMap.contains_iff_mem]

theorem mem_walkers_prune_iff :
    name ∈ h.prune.walkers ↔ name ∈ h.reachable ∧ name ∈ h.walkers := by
  unfold prune
  rw [NameMap.mem_filter_name_iff, Std.ExtTreeMap.contains_iff_mem]

/-- A record is reached when a core names it on the first level or a record that is reached links to
it. -/
theorem mem_reachable_iff_linked (hnamed : h.system.Named) (hmem : name ∈ h.system) :
    name ∈ h.reachable ↔
      name ∈ h.roots ∨ ∃ upper, h.reachable.target? lowerLevel upper = some name := by
  constructor
  · intro hreached
    by_cases hroot : name ∈ h.roots
    · exact Or.inl hroot
    · obtain ⟨upper, hupper, hop⟩ := ((mem_reachable_iff hnamed).mp hreached).exists_upper hroot
      have hkept : upper ∈ h.reachable := (mem_reachable_iff hnamed).mpr hupper
      exact Or.inr ⟨upper, (RecordMap.target?_accessible hkept lowerLevel).trans hop⟩
  · rintro (hroot | ⟨upper, hop⟩)
    · exact (mem_reachable_iff hnamed).mpr ⟨name, hroot, .refl hmem⟩
    -- a link between records that are reached is a link of the system
    · have hkept : upper ∈ h.reachable := RecordMap.mem_of_target? hop
      have hupper := (mem_reachable_iff hnamed).mp hkept
      have hlink : h.system.target? lowerLevel upper = some name :=
        (RecordMap.target?_accessible hkept lowerLevel).symm.trans hop
      exact (mem_reachable_iff hnamed).mpr (hupper.tail hlink hmem)

/-- Pruning leaves what can be reached. -/
theorem system_prune (h : Hierarchy) : h.prune.system = h.reachable := by
  refine Std.ExtTreeMap.ext_getElem? fun name => ?_
  rw [system, Std.ExtTreeMap.getElem?_union, getElem?_prune_caches, getElem?_prune_walkers]
  by_cases hmem : name ∈ h.reachable
  · rw [if_pos hmem, if_pos hmem, reachable, RecordMap.getElem?_accessible hmem, system,
      Std.ExtTreeMap.getElem?_union]
  · rw [if_neg hmem, if_neg hmem, Std.ExtTreeMap.getElem?_eq_none hmem]
    rfl

theorem Disjoint.prune (hdisjoint : h.Disjoint) : h.prune.Disjoint := by
  intro name hcache hwalker
  exact hdisjoint name (Std.ExtTreeMap.mem_of_mem_filter hcache)
    (Std.ExtTreeMap.mem_of_mem_filter hwalker)

/-! ## Sharers

The sharers of a record are the records that link to it and are reached. They are counted once in a
fold and once by a predicate on links; the predicate is what statements use. -/

/-- Is a record linked to a name? -/
def linksTo (name : String) (record : Document) : Bool := record.string? lowerLevel = some name

/-- How many caches and walkers link to a name. A name that is in both maps is counted twice, unlike
in the union of the maps. -/
def linkers (h : Hierarchy) (name : String) : Nat :=
  h.caches.values.countP (linksTo name) + h.walkers.values.countP (linksTo name)

theorem Disjoint.linkers_eq (hdisjoint : h.Disjoint) (name : String) :
    h.linkers name = h.system.values.countP (linksTo name) := by
  -- no name is in both maps, so no record hides another and none is counted twice
  have hperm : (h.walkers ∪ h.caches).toList.Perm (h.caches.toList ++ h.walkers.toList) :=
    NameMap.toList_union_perm hdisjoint
  rw [linkers, system, NameMap.values_eq, NameMap.values_eq, NameMap.values_eq,
    (hperm.map Prod.snd).countP_eq, List.map_append, List.countP_append]

/-- The records above each target are those that link to it. -/
theorem getElem?_uppers (isTarget : String → Bool) (records : List Document) (name : String) :
    (Record.uppers isTarget lowerLevel records)[name]? =
      if isTarget name = true ∧ records.countP (linksTo name) ≠ 0 then
        some (records.filter (linksTo name))
      else none := by
  have hadd : ∀ record groups, Record.addUpper isTarget lowerLevel record groups =
      ((record.string? lowerLevel).filter isTarget).elim groups fun target =>
        groups.insert target (id record :: groups.getD target []) := by
    intro record groups
    unfold Record.addUpper
    cases record.string? lowerLevel with
    | none => rfl
    | some target => cases htarget : isTarget target <;> simp [Option.filter, htarget]
  -- only links to targets are counted, and the name may be no target
  have hfilter : records.filter
      (fun record => (record.string? lowerLevel).filter isTarget = some name) =
        if isTarget name then records.filter (linksTo name) else [] := by
    split
    · next htarget =>
      refine List.filter_congr fun record _ => ?_
      simp [linksTo, Option.filter_eq_some_iff, htarget]
    · next htarget =>
      rw [List.filter_eq_nil_iff]
      intro record _
      simp [Option.filter_eq_some_iff, htarget]
  rw [Record.uppers, NameMap.getElem?_foldr_of_group hadd, hfilter, List.countP_eq_length_filter,
    List.map_id]
  by_cases htarget : isTarget name = true
  · simp only [htarget, if_true, true_and, List.length_eq_zero_iff, ite_not, ne_eq]
  · simp only [htarget, if_false, false_and, if_true, Bool.false_eq_true]

/-- **The number of sharers of a record that has any.** It is the number of reachable records that
link to it, each counted once. -/
theorem getElem?_sharers (h : Hierarchy) (name : String) :
    h.sharers[name]? =
      if name ∈ h.reachable ∧ h.reachable.values.countP (linksTo name) ≠ 0 then
        some (h.reachable.values.countP (linksTo name))
      else none := by
  rw [sharers, Std.ExtTreeMap.getElem?_map, getElem?_uppers]
  simp only [Std.ExtTreeMap.contains_iff_mem]
  split
  · rw [Option.map_some, List.countP_eq_length_filter]
  · rfl

/-- What is reached, and not from a core at once, is linked to. -/
theorem countP_linksTo_ne_zero (hnamed : h.system.Named) (hmem : name ∈ h.reachable)
    (hroot : name ∉ h.roots) : h.reachable.values.countP (linksTo name) ≠ 0 := by
  obtain ⟨upper, hupper, hop⟩ := ((mem_reachable_iff hnamed).mp hmem).exists_upper hroot
  have hkept : upper ∈ h.reachable := (mem_reachable_iff hnamed).mpr hupper
  rw [← RecordMap.target?_accessible hkept] at hop
  obtain ⟨record, hget, hlink⟩ := RecordMap.target?_eq_some_iff.mp hop
  rw [Nat.ne_zero_iff_zero_lt, List.countP_pos_iff]
  exact ⟨record, NameMap.mem_values_iff.mpr ⟨upper, hget⟩, by simpa [linksTo] using hlink⟩

/-- Systems with the same links have as many links to each of their records. -/
theorem countP_linksTo_eq_of_sameLinks {before after : RecordMap}
    (hlinks : RecordMap.SameLinks lowerLevel before after) (hmem : name ∈ before) :
    after.values.countP (linksTo name) = before.values.countP (linksTo name) := by
  -- records are counted by name, and a name counts iff it links to the one asked about
  have hcount : ∀ (system : RecordMap) (upper : String),
      (∃ record, system[upper]? = some record ∧ linksTo name record = true) ↔
        system.target? lowerLevel upper = some name := by
    intro system upper
    simp only [RecordMap.target?_eq_some_iff, linksTo, decide_eq_true_eq]
  refine NameMap.countP_values_eq fun upper => ?_
  rw [hcount, hcount]
  exact (hlinks.target?_iff upper name hmem).symm

theorem linkers_eq_of_sameLinks (hbefore : before.Disjoint) (hafter : after.Disjoint)
    (hlinks : RecordMap.SameLinks lowerLevel before.system after.system)
    (hmem : name ∈ before.system) : after.linkers name = before.linkers name := by
  rw [hbefore.linkers_eq, hafter.linkers_eq, countP_linksTo_eq_of_sameLinks hlinks hmem]

/-- Hierarchies in which the records that are reached have the same links have the same sharers. -/
theorem sharers_eq_of_sameLinks
    (hlinks : RecordMap.SameLinks lowerLevel before.reachable after.reachable) :
    after.sharers = before.sharers := by
  refine Std.ExtTreeMap.ext_getElem? fun name => ?_
  rw [getElem?_sharers, getElem?_sharers]
  by_cases hmem : name ∈ before.reachable
  · rw [countP_linksTo_eq_of_sameLinks hlinks hmem]
    simp only [hmem, (hlinks.mem_iff name).mp hmem, true_and]
  · have hmem' : name ∉ after.reachable := fun h => hmem ((hlinks.mem_iff name).mpr h)
    simp only [hmem, hmem', false_and, if_false]

/-! ## Names

A map is keyed by the names in its records. This is kept by everything that is done to a hierarchy.
-/

/-- The records of both maps carry the names they are found under. -/
structure Named (h : Hierarchy) : Prop where
  caches : h.caches.Named
  walkers : h.walkers.Named

theorem Named.system (hnamed : h.Named) : h.system.Named :=
  system_named hnamed.caches hnamed.walkers

theorem Named.prune (hnamed : h.Named) : h.prune.Named where
  caches := by
    intro name record hget
    rw [getElem?_prune_caches] at hget
    exact hnamed.caches name record (Option.ite_none_right_eq_some.mp hget).2
  walkers := by
    intro name record hget
    rw [getElem?_prune_walkers] at hget
    exact hnamed.walkers name record (Option.ite_none_right_eq_some.mp hget).2

/-! ## Repeated keys

So is that no record has a key twice. -/

/-- No record of a hierarchy has a key twice. -/
structure Distinct (h : Hierarchy) : Prop where
  cores : ∀ core ∈ h.cores, core.Distinct
  caches : ∀ (name : String) (record : Document),
    h.caches[name]? = some record → record.Distinct
  walkers : ∀ (name : String) (record : Document),
    h.walkers[name]? = some record → record.Distinct

namespace Distinct

variable {f : String → Document → Document}

theorem mapCores {f : Document → Document} (h : Hierarchy.Distinct before)
    (hf : ∀ core, core.Distinct → (f core).Distinct) : (before.mapCores f).Distinct :=
  { h with
    cores := by
      intro _ hmapped
      obtain ⟨core, hcore, rfl⟩ := List.mem_map.mp hmapped
      exact hf core (h.cores core hcore) }

theorem mapCaches (h : Hierarchy.Distinct before)
    (hf : ∀ name record, record.Distinct → (f name record).Distinct) :
    (before.mapCaches f).Distinct :=
  { h with
    caches := by
      intro name _ hmapped
      rw [Hierarchy.mapCaches, Std.ExtTreeMap.getElem?_map] at hmapped
      obtain ⟨record, hget, rfl⟩ := Option.map_eq_some_iff.mp hmapped
      exact hf name record (h.caches name record hget) }

theorem mapRecords (h : Hierarchy.Distinct before)
    (hf : ∀ name record, record.Distinct → (f name record).Distinct) :
    (before.mapRecords f).Distinct :=
  { h.mapCaches hf with
    walkers := by
      intro name _ hmapped
      rw [Hierarchy.mapRecords, Std.ExtTreeMap.getElem?_map] at hmapped
      obtain ⟨record, hget, rfl⟩ := Option.map_eq_some_iff.mp hmapped
      exact hf name record (h.walkers name record hget) }

end Distinct

/-! ## Closed hierarchies

In a closed hierarchy every slot names a record. Normalization gives one, and completion starts from
it. -/

/-- A hierarchy in which every slot of a core names a record, and every record carries the name it
is found under and has no key twice. -/
structure Closed (h : Hierarchy) : Prop where
  caches_named : h.caches.Named
  walkers_named : h.walkers.Named
  caches_distinct : ∀ (name : String) (record : Document),
    h.caches[name]? = some record → record.Distinct
  walkers_distinct : ∀ (name : String) (record : Document),
    h.walkers[name]? = some record → record.Distinct
  slots : ∀ core ∈ h.cores, ∀ slot : Slot, ∃ name, core.slot? slot = some name ∧
    if slot.isWalker then name ∈ h.walkers else name ∈ h.caches

theorem Closed.named (hclosed : h.Closed) : h.Named :=
  ⟨hclosed.caches_named, hclosed.walkers_named⟩

theorem Closed.system_named (hclosed : h.Closed) : h.system.Named := hclosed.named.system

/-- First-level slots name caches. -/
theorem Closed.mem_caches_of_root (hclosed : h.Closed) (hroot : name ∈ h.roots) :
    name ∈ h.caches := by
  obtain ⟨core, hcore, slot, hslot, hname⟩ := mem_roots_iff.mp hroot
  obtain ⟨other, hother, hmem⟩ := hclosed.slots core hcore slot
  have hkind : ∀ slot ∈ Slot.firstLevel, slot.isWalker = false := by decide
  rw [hname, Option.some.injEq] at hother
  rw [hkind slot hslot, ← hother] at hmem
  exact hmem

/-! ## Layers below records

Completion puts layers below records and does nothing else. What this relation keeps holds of the
completed hierarchy, whichever passes have been made. -/

/-- Layers that go below the record of a name go below the cache of this name, if there is one. -/
theorem getElem?_layer_caches (h : Hierarchy) (target : String) (layers : List Document)
    (name : String) : (h.layer target layers).caches[name]? =
      if target = name then h.caches[name]?.map fun record => Document.mergeAll (record :: layers)
      else h.caches[name]? := by
  unfold layer
  by_cases hname : target = name
  · subst hname
    rw [if_pos rfl]
    -- a walker is completed only where there is no cache of the name
    split
    · exact (NameMap.getElem?_modify _ _ _ _).trans (if_pos rfl)
    · next hcache =>
      rw [Std.ExtTreeMap.getElem?_eq_none hcache]
      rfl
  · rw [if_neg hname]
    split
    · exact (NameMap.getElem?_modify _ _ _ _).trans (if_neg hname)
    · rfl

/-- Two hierarchies have the same cores and the same names, and the records of the second one are
those of the first one with layers below them. -/
structure LayeredOver (before after : Hierarchy) : Prop where
  cores : after.cores = before.cores
  caches : before.caches.Pointwise (fun _ => Document.Layered fun _ => True) after.caches
  walkers : before.walkers.Pointwise (fun _ => Document.Layered fun _ => True) after.walkers

namespace LayeredOver

theorem refl (hclosed : h.Closed) : LayeredOver h h where
  cores := rfl
  caches := .refl fun name record hget => .refl (hclosed.caches_distinct name record hget)
  walkers := .refl fun name record hget => .refl (hclosed.walkers_distinct name record hget)

theorem trans (h : LayeredOver before middle) (h' : LayeredOver middle after) :
    LayeredOver before after where
  cores := h'.cores.trans h.cores
  caches := h.caches.trans h'.caches fun _ _ _ _ => .trans
  walkers := h.walkers.trans h'.walkers fun _ _ _ _ => .trans

/-- Layers go below the record of one name, whichever map it is in. -/
theorem layer (hclosed : h.Closed) (name : String) (layers : List Document) :
    LayeredOver h (h.layer name layers) := by
  have hchanged : ∀ record,
      Document.Layered (fun _ => True) record (Document.mergeAll (record :: layers)) :=
    fun _ => ⟨layers, fun _ _ => trivial, rfl⟩
  have hkept := refl hclosed
  unfold Hierarchy.layer
  split
  · exact { hkept with
      caches := NameMap.pointwise_modify (fun record _ => hchanged record) fun name record hget =>
        .refl (hclosed.caches_distinct name record hget) }
  · exact { hkept with
      walkers := NameMap.pointwise_modify (fun record _ => hchanged record) fun name record hget =>
        .refl (hclosed.walkers_distinct name record hget) }

/-- Layers below the records of a closed hierarchy leave it closed. -/
theorem closed (h : LayeredOver before after) (hclosed : before.Closed) : after.Closed where
  caches_named := by
    -- the name is the first value under its key, and layers only go below
    intro name record hget
    obtain ⟨record', hget', hlayered⟩ := h.caches.exists_before hget
    exact hlayered.string?_of_eq_some (hclosed.caches_named name record' hget')
  walkers_named := by
    intro name record hget
    obtain ⟨record', hget', hlayered⟩ := h.walkers.exists_before hget
    exact hlayered.string?_of_eq_some (hclosed.walkers_named name record' hget')
  caches_distinct := by
    intro name record hget
    obtain ⟨_, _, hlayered⟩ := h.caches.exists_before hget
    exact hlayered.distinct
  walkers_distinct := by
    intro name record hget
    obtain ⟨_, _, hlayered⟩ := h.walkers.exists_before hget
    exact hlayered.distinct
  slots := by
    intro core hcore slot
    rw [h.cores] at hcore
    obtain ⟨name, hname, hmem⟩ := hclosed.slots core hcore slot
    rw [h.caches.mem_iff, h.walkers.mem_iff] at hmem
    exact ⟨name, hname, hmem⟩

theorem mem_system_iff (h : LayeredOver before after) :
    name ∈ before.system ↔ name ∈ after.system := by
  rw [Hierarchy.mem_system_iff, Hierarchy.mem_system_iff, h.caches.mem_iff, h.walkers.mem_iff]

theorem roots_eq (h : LayeredOver before after) : after.roots = before.roots := by
  unfold roots
  rw [h.cores]

/-- A link of a record is kept. -/
theorem target?_of_eq_some (h : LayeredOver before after) {link next : String}
    (hop : before.system.target? link name = some next) :
    after.system.target? link name = some next := by
  obtain ⟨record, hget, hlink⟩ := RecordMap.target?_eq_some_iff.mp hop
  obtain ⟨record', hget', hlayered⟩ := (h.walkers.union h.caches).exists_after hget
  rw [RecordMap.target?_eq_some_iff]
  exact ⟨record', hget', hlayered.string?_of_eq_some hlink⟩

/-- What a core reaches is still reached. -/
theorem mem_reachable (h : LayeredOver before after) (hclosed : before.Closed)
    (hmem : name ∈ before.reachable) : name ∈ after.reachable := by
  obtain ⟨root, hroot, n, hreach⟩ := (mem_reachable_iff hclosed.system_named).mp hmem
  rw [mem_reachable_iff (h.closed hclosed).system_named, h.roots_eq]
  exact ⟨root, hroot, n, hreach.mono (fun _ => h.mem_system_iff.mp)
    fun _ _ _ => h.target?_of_eq_some⟩

end LayeredOver

/-! ## Hierarchies that differ in some keys only

The passes behind completion write keys. Where these are no links, all that is said about links and
walks carries over. -/

/-- Two hierarchies have the same cores and the same names, and their records differ in some keys
only. Passes that write a few keys are described by it, and compose. -/
structure AgreesOff (keys : List String) (before after : Hierarchy) : Prop where
  cores : List.Forall₂ (Document.AgreesOff keys) before.cores after.cores
  caches : NameMap.Pointwise (fun _ => Document.AgreesOff keys) before.caches after.caches
  walkers : NameMap.Pointwise (fun _ => Document.AgreesOff keys) before.walkers after.walkers

namespace AgreesOff

variable {keys : List String}

theorem trans (h : AgreesOff keys before middle) (h' : AgreesOff keys middle after) :
    AgreesOff keys before after where
  cores := by
    obtain ⟨hlength, hfirst⟩ := List.forall₂_iff_get.mp h.cores
    obtain ⟨hlength', hsecond⟩ := List.forall₂_iff_get.mp h'.cores
    refine List.forall₂_iff_get.mpr ⟨hlength.trans hlength', fun i hi hi' => ?_⟩
    have hmiddle : i < middle.cores.length := by omega
    exact (hfirst i hi hmiddle).trans (hsecond i hmiddle hi')
  caches := h.caches.trans h'.caches fun _ _ _ _ => .trans
  walkers := h.walkers.trans h'.walkers fun _ _ _ _ => .trans

theorem disjoint (h : AgreesOff keys before after) (hdisjoint : before.Disjoint) :
    after.Disjoint := by
  intro name hcache hwalker
  exact hdisjoint name ((h.caches.mem_iff name).mpr hcache) ((h.walkers.mem_iff name).mpr hwalker)

theorem named (h : AgreesOff keys before after) (hname : "name" ∉ keys) (hnamed : before.Named) :
    after.Named where
  caches := hnamed.caches.of_pointwise
    (h.caches.mono fun _ _ _ hrecord => hrecord.string? hname)
  walkers := hnamed.walkers.of_pointwise
    (h.walkers.mono fun _ _ _ hrecord => hrecord.string? hname)

theorem target?_eq (h : AgreesOff keys before after) {link : String} (hlink : link ∉ keys)
    (name : String) : after.system.target? link name = before.system.target? link name := by
  have hsystem := h.walkers.union h.caches
  by_cases hname : name ∈ before.system
  · obtain ⟨record, hget⟩ := NameMap.mem_iff_exists.mp hname
    obtain ⟨record', hget', hagrees⟩ := hsystem.exists_after hget
    have hget' : after.system[name]? = some record' := hget'
    rw [RecordMap.target?_of_getElem? hget, RecordMap.target?_of_getElem? hget',
      hagrees.string? hlink]
  · have hname' : name ∉ after.system := fun hmem => hname ((hsystem.mem_iff name).mpr hmem)
    rw [RecordMap.target?, RecordMap.target?, Std.ExtTreeMap.getElem?_eq_none hname,
      Std.ExtTreeMap.getElem?_eq_none hname']

theorem sameLinks (h : AgreesOff keys before after) {link : String} (hlink : link ∉ keys) :
    RecordMap.SameLinks link before.system after.system := by
  refine RecordMap.sameLinks_of_pointwise
    ((h.walkers.union h.caches).mono fun name a b hrecord next _ => ?_)
  rw [hrecord.string? hlink]

theorem roots (h : AgreesOff keys before after)
    (hslots : ∀ slot ∈ Slot.firstLevel, slot.key ∉ keys) : after.roots = before.roots := by
  have hcores := h.cores
  unfold Hierarchy.roots
  generalize before.cores = cores at hcores
  generalize after.cores = cores' at hcores
  induction hcores with
  | nil => rfl
  | cons hcore _ ih =>
    rw [List.flatMap_cons, List.flatMap_cons, ih]
    congr 1
    exact List.filterMap_congr fun slot hslot => hcore.string? (hslots slot hslot)

end AgreesOff

end Hierarchy

end MemoryHierarchy
