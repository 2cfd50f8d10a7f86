import MemoryHierarchy.Configuration.Resolved
import MemoryHierarchy.Proofs.Except
import MemoryHierarchy.Proofs.Hierarchy

/-!
# Normalized configurations are closed

However a hierarchy was written, its normal shape has a name in every slot of every core and a
record under each of these names, which carries the name: a slot that names a record leaves a stub
of it behind. `NormalizedConfiguration.Closed` is what the stages after normalization rely on.
-/

namespace MemoryHierarchy

namespace Record

theorem name?_of_mem_declarations {name : String} {records : List Document} {record : Document}
    (hmem : record ∈ declarations name records) : record.name? = some name := by
  simpa using (List.mem_filter.mp hmem).2

/-- The record of a name carries it. -/
theorem combineNamed_named (records : List Document) : (combineNamed records).Named := by
  intro name record hget
  rw [getElem?_combineNamed] at hget
  split at hget
  · exact absurd hget (by simp)
  next hsome =>
  rw [Option.some.injEq] at hget
  obtain ⟨first, rest, hcons⟩ := List.exists_cons_of_ne_nil hsome
  have hname : ∀ d ∈ declarations name records, d.string? "name" = some name :=
    fun d hd => name?_of_mem_declarations hd
  have hfirst : first.contains "name" = true :=
    Document.contains_of_string? (hname first (by rw [hcons]; exact List.mem_cons_self))
  rw [← hget, Document.name?, Document.string?_mergeAll, hcons]
  simp only [List.find?_cons, hfirst, Option.bind_some]
  exact hname first (by rw [hcons]; exact List.mem_cons_self)

theorem combineNamed_distinct {records : List Document} {name : String} {record : Document}
    (hget : (combineNamed records)[name]? = some record) : record.Distinct := by
  rw [getElem?_combineNamed] at hget
  split at hget
  · exact absurd hget (by simp)
  · rw [Option.some.injEq] at hget
    rw [← hget]
    exact Document.distinct_mergeAllWith _ _

theorem mem_combineNamed_iff {records : List Document} {name : String} :
    name ∈ combineNamed records ↔ ∃ record ∈ records, record.name? = some name := by
  rw [NameMap.mem_iff_exists, getElem?_combineNamed]
  constructor
  · rintro ⟨record, hget⟩
    split at hget
    · exact absurd hget (by simp)
    next hsome =>
    obtain ⟨first, hfirst⟩ := List.exists_mem_of_ne_nil _ hsome
    exact ⟨first, (List.mem_filter.mp hfirst).1, name?_of_mem_declarations hfirst⟩
  · rintro ⟨record, hmem, hname⟩
    have hdecl : record ∈ declarations name records :=
      List.mem_filter.mpr ⟨hmem, by simpa using hname⟩
    rw [if_neg (List.ne_nil_of_mem hdecl)]
    exact ⟨_, rfl⟩

end Record

namespace NormalizedConfiguration

/-- A configuration whose records are a closed hierarchy with a last-level cache. Every
configuration that is read from documents is one. -/
structure Closed (n : NormalizedConfiguration) : Prop
    extends Hierarchy.Closed ⟨n.cores, n.caches, n.walkers⟩ where
  lastLevel : lastLevelName ∈ n.caches
  cores_distinct : ∀ core ∈ n.cores, core.Distinct

/-! ## Cores

The slots of a core are read first and then written back as names. Their keys are distinct, so no
slot overwrites another. -/

theorem slot_of_readSlot {core : Document} {name : String} {slot : Slot} {named : NamedSlot}
    (hread : readSlot core name slot = .ok named) : named.slot = slot := by
  unfold readSlot at hread
  dsimp only at hread
  split at hread
  · cases hread; rfl
  · cases hread; rfl
  · split at hread
    · cases hread; rfl
    · cases hread; rfl
    · cases hread
  · cases hread

theorem mem_slots (slot : Slot) : slot ∈ Slot.all := by
  cases slot <;> decide

theorem slot_key_injective {slot slot' : Slot} (hkey : slot.key = slot'.key) : slot = slot' := by
  -- no two slots have the same key
  have hall : ∀ a ∈ Slot.all, ∀ b ∈ Slot.all, a.key = b.key → a = b := by decide
  exact hall slot (mem_slots slot) slot' (mem_slots slot') hkey

/-- Writing names into slots leaves everything else as it is. -/
theorem get?_foldl_set_slots {slots : List NamedSlot} {key : String}
    (hkey : ∀ s ∈ slots, s.slot.key ≠ key) (core : Document) :
    Document.get? (slots.foldl (fun core s => core.set s.slot.key (.string s.record)) core) key =
      core.get? key := by
  induction slots generalizing core with
  | nil => rfl
  | cons first slots ih =>
    rw [List.foldl_cons, ih fun s hs => hkey s (List.mem_cons_of_mem _ hs), Document.get?_set,
      if_neg (hkey first List.mem_cons_self)]

/-- Writing names into distinct slots leaves each name in its slot. -/
theorem slot?_foldl_set {slots : List NamedSlot} (hnodup : (slots.map (·.slot)).Nodup)
    {named : NamedSlot} (hmem : named ∈ slots) (core : Document) :
    (slots.foldl (fun core s => core.set s.slot.key (.string s.record)) core).slot? named.slot =
      some named.record := by
  induction slots generalizing core with
  | nil => exact absurd hmem (by simp)
  | cons first slots ih =>
    -- the slot is the one that is written first, or it is written later on
    rw [List.map_cons, List.nodup_cons] at hnodup
    rw [List.foldl_cons]
    rcases List.mem_cons.mp hmem with rfl | hmem
    · -- writing to other slots does not change a slot
      have hother : ∀ s ∈ slots, s.slot.key ≠ named.slot.key := fun s hs hkey =>
        hnodup.1 (slot_key_injective hkey ▸ List.mem_map_of_mem hs)
      rw [Document.slot?, Document.string?, get?_foldl_set_slots hother, Document.get?_set,
        if_pos rfl]
      rfl
    · exact ih hnodup.2 hmem _

/-- A core that has been named holds in each slot the name of a slot that was read. -/
theorem slot?_of_normalizeCore {core : Document} {index : Nat} {named : NamedCore}
    (hread : normalizeCore core index = .ok named) (slot : Slot) :
    ∃ s ∈ named.slots, s.slot = slot ∧ named.core.slot? slot = some s.record := by
  rw [normalizeCore, bind_eq_ok_iff] at hread
  obtain ⟨name, _, hread⟩ := hread
  rw [bind_eq_ok_iff] at hread
  obtain ⟨slots, hslots, hread⟩ := hread
  rw [pure_eq_ok_iff] at hread
  rw [mapM_eq_ok_iff] at hslots
  -- the slots that were read are all slots, in their order
  have hall : List.Forall₂ Eq Slot.all (slots.map (·.slot)) :=
    List.forall₂_map_right_iff.mpr (hslots.imp fun _ _ hslot => (slot_of_readSlot hslot).symm)
  rw [List.forall₂_eq_eq_eq] at hall
  have hslot : slot ∈ slots.map (·.slot) := by
    rw [← hall]
    exact mem_slots slot
  obtain ⟨s, hs, rfl⟩ := List.mem_map.mp hslot
  rw [← hread]
  exact ⟨s, hs, rfl, slot?_foldl_set (by rw [← hall]; decide) hs _⟩

/-- Naming a core and its slots repeats no key. -/
theorem distinct_of_normalizeCore {core : Document} (hdistinct : core.Distinct) {index : Nat}
    {named : NamedCore} (hread : normalizeCore core index = .ok named) : named.core.Distinct := by
  rw [normalizeCore, bind_eq_ok_iff] at hread
  obtain ⟨name, _, hread⟩ := hread
  rw [bind_eq_ok_iff] at hread
  obtain ⟨slots, hslots, hread⟩ := hread
  rw [pure_eq_ok_iff] at hread
  rw [← hread]
  clear hread hslots
  suffices ∀ core : Document, core.Distinct →
      Document.Distinct
        (slots.foldl (fun core s => core.set s.slot.key (.string s.record)) core) from
    this _ (Document.distinct_set (Document.distinct_set hdistinct _ _) _ _)
  induction slots with
  | nil => exact fun core hcore => hcore
  | cons s slots ih => exact fun core hcore => ih _ (Document.distinct_set hcore _ _)

/-! ## Documents

Every name in a slot has a stub, so it is declared; and stubs are the last layer, so they change
nothing in a record that is declared elsewhere. -/

/-- What a document is normalized to. -/
theorem exists_of_ofDocument {doc : Document} {n : NormalizedConfiguration}
    (hread : ofDocument doc = .ok n) :
    ∃ (count : Nat) (templates : List Document) (cores : List NamedCore)
      (rootCaches rootWalkers : List Document),
      coreCount doc = .ok count ∧ coreTemplates doc = .ok templates ∧
      normalizeCores doc templates count = .ok cores ∧
      n.cores = cores.map (·.core) ∧
      n.caches = Record.combineNamed (rootCaches ++ declarationsOf false cores
        ++ stubsOf false cores ++ [Document.named lastLevelName]) ∧
      n.walkers = Record.combineNamed (rootWalkers ++ declarationsOf true cores
        ++ stubsOf true cores) := by
  simp only [ofDocument, bind_eq_ok_iff, pure_eq_ok_iff] at hread
  obtain ⟨count, hcount, templates, htemplates, cores, hcores, rootCaches, _, rootWalkers, _,
    root, _, memory, _, virtual, _, rfl⟩ := hread
  exact ⟨count, templates, cores, rootCaches, rootWalkers, hcount, htemplates, hcores, rfl, rfl,
    rfl⟩

/-- The cores of a document are its repeated templates over what it says for all of them, named in
their order. -/
theorem normalizeCores_eq_ok_iff {doc : Document} {templates : List Document} {count : Nat}
    {cores : List NamedCore} :
    normalizeCores doc templates count = .ok cores ↔
      List.Forall₂ (fun entry named => normalizeCore
        (Document.mergeAll [entry.1, sharedAttributes doc]) entry.2 = .ok named)
        (repeatToLength templates count).zipIdx cores := by
  rw [normalizeCores, mapM_eq_ok_iff]

theorem mem_stubsOf_iff {walkers : Bool} {cores : List NamedCore} {record : Document} :
    record ∈ stubsOf walkers cores ↔
      ∃ core ∈ cores, ∃ s ∈ core.slots, s.slot.isWalker = walkers ∧
        Document.named s.record = record := by
  simp [stubsOf, and_assoc]

/-- **What a document is normalized to is closed.** Every slot of a core is given a name, and
whatever is named in a slot is declared there. -/
theorem closed_of_ofDocument {doc : Document} {n : NormalizedConfiguration}
    (hread : ofDocument doc = .ok n) : n.Closed := by
  obtain ⟨count, templates, cores, rootCaches, rootWalkers, _, _, hnormalize, hn, hcaches,
    hwalkers⟩ := exists_of_ofDocument hread
  have hcores : ∀ named ∈ cores, ∃ core index, core.Distinct ∧
      normalizeCore core index = .ok named := by
    intro named hnamed
    obtain ⟨_, _, hnormal⟩ :=
      exists_of_mem_right (normalizeCores_eq_ok_iff.mp hnormalize) hnamed
    exact ⟨_, _, Document.distinct_mergeAllWith _ _, hnormal⟩
  refine ⟨⟨?_, ?_, ?_, ?_, ?_⟩, ?_, ?_⟩
  · rw [hcaches]
    exact Record.combineNamed_named _
  · rw [hwalkers]
    exact Record.combineNamed_named _
  · intro name record hget
    dsimp only at hget
    rw [hcaches] at hget
    exact Record.combineNamed_distinct hget
  · intro name record hget
    rw [hwalkers] at hget
    exact Record.combineNamed_distinct hget
  · intro core hcore slot
    rw [hn] at hcore
    obtain ⟨named, hnamed, rfl⟩ := List.mem_map.mp hcore
    obtain ⟨core, index, _, hnormal⟩ := hcores named hnamed
    obtain ⟨s, hs, rfl, hslot⟩ := slot?_of_normalizeCore hnormal slot
    refine ⟨s.record, hslot, ?_⟩
    -- a stub of the record is among the declarations of its kind
    have hstub : Document.named s.record ∈ stubsOf s.slot.isWalker cores :=
      mem_stubsOf_iff.mpr ⟨named, hnamed, s, hs, rfl, rfl⟩
    split
    · next hkind =>
      rw [hkind] at hstub
      rw [hwalkers, Record.mem_combineNamed_iff]
      exact ⟨_, List.mem_append_right _ hstub, rfl⟩
    · next hkind =>
      rw [Bool.not_eq_true] at hkind
      rw [hkind] at hstub
      rw [hcaches, Record.mem_combineNamed_iff]
      exact ⟨_, List.mem_append_left _ (List.mem_append_right _ hstub), rfl⟩
  · rw [hcaches, Record.mem_combineNamed_iff]
    exact ⟨_, List.mem_append_right _ List.mem_cons_self, rfl⟩
  · intro core hcore
    rw [hn] at hcore
    obtain ⟨named, hnamed, rfl⟩ := List.mem_map.mp hcore
    obtain ⟨core, index, hdistinct, hnormal⟩ := hcores named hnamed
    exact distinct_of_normalizeCore hdistinct hnormal

theorem closed_of_ofDocuments {docs : List Document} {n : NormalizedConfiguration}
    (hread : ofDocuments docs = .ok n) : n.Closed := by
  rw [ofDocuments, bind_eq_ok_iff] at hread
  obtain ⟨listed, _, hread⟩ := hread
  exact closed_of_ofDocument hread

/-! ## The hierarchy of a configuration

Templates of cores are merged below them before records are completed. They have no slots, so the
hierarchy that is completed is as closed as the configuration. -/

variable {n : NormalizedConfiguration}

/-- The template of a core leaves its slots alone. -/
theorem Closed.slot?_mergeAll (hclosed : n.Closed) {core : Document} (hcore : core ∈ n.cores)
    (slot : Slot) (template : Document) :
    (Document.mergeAll [core, template]).slot? slot = core.slot? slot := by
  obtain ⟨name, hname, _⟩ := hclosed.slots core hcore slot
  rw [hname]
  exact Document.string?_mergeAll_of_eq_some hname [template]

theorem Closed.hierarchy (hclosed : n.Closed) : n.hierarchy.Closed where
  caches_named := hclosed.caches_named
  walkers_named := hclosed.walkers_named
  caches_distinct := hclosed.caches_distinct
  walkers_distinct := hclosed.walkers_distinct
  slots := by
    intro core hcore slot
    obtain ⟨before, hbefore, rfl⟩ := List.mem_map.mp hcore
    rw [hclosed.slot?_mergeAll hbefore]
    exact hclosed.slots before hbefore slot

theorem Closed.mem_roots_iff (hclosed : n.Closed) {name : String} :
    name ∈ n.hierarchy.roots ↔
      ∃ core ∈ n.cores, ∃ slot ∈ Slot.firstLevel, core.slot? slot = some name := by
  rw [Hierarchy.mem_roots_iff]
  constructor
  · rintro ⟨core, hcore, slot, hslot, hname⟩
    obtain ⟨before, hbefore, rfl⟩ := List.mem_map.mp hcore
    rw [hclosed.slot?_mergeAll hbefore] at hname
    exact ⟨before, hbefore, slot, hslot, hname⟩
  · rintro ⟨core, hcore, slot, hslot, hname⟩
    rw [← hclosed.slot?_mergeAll hcore slot Template.core] at hname
    exact ⟨_, List.mem_map_of_mem hcore, slot, hslot, hname⟩

end NormalizedConfiguration

end MemoryHierarchy
