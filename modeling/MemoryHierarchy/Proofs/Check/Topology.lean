import MemoryHierarchy.Check.Topology
import MemoryHierarchy.Proofs.Graph.Cycle
import MemoryHierarchy.Proofs.Hierarchy

/-!
# What an empty report says

The checks of a topology follow walks, stop early at cycles and pass over what is missing.
`Hierarchy.WellLinked` says the same of the graph of links itself: slots and links name records,
there is no cycle, and the maximal paths from the slots of the cores end where they should.

Each check has a lemma that says when it finds nothing; `checkTopology_eq_nil_iff` puts them
together. Paths are checked only where there is no cycle, and there a walk is a maximal path.
-/

namespace MemoryHierarchy

namespace Hierarchy

/-! ## The graph that the checks are about

Slots and links make a graph on names. What a simulator needs of it is said in terms of the graph,
by maximal paths, and without the walks that the checks are made of. -/

/-- The maximal path from a record ends at one that links to the physical memory, and no record
stands in for the memory. -/
def EndsAtMemory (system : RecordMap) (start : String) : Prop :=
  ∃ path last, system.MaximalPath lowerLevel start path ∧ path.getLast? = some last ∧
    system.target? lowerLevel last = some memorySentinel ∧ memorySentinel ∉ system

/-- The maximal path from a record meets the name of a walker. The path is maximal so that a walker
further down is not missed. -/
def MeetsWalker (system walkers : RecordMap) (start : String) : Prop :=
  ∃ path, system.MaximalPath lowerLevel start path ∧ ∃ name ∈ path, name ∈ walkers

/-- A hierarchy whose slots and links are as a simulator needs them. Each field is one of the
clauses that a check of the topology looks at. -/
structure WellLinked (h : Hierarchy) : Prop where
  /-- First-level slots name caches. -/
  slots : ∀ core ∈ h.cores, ∀ slot ∈ Slot.firstLevel, ∀ target,
    core.slot? slot = some target → target ∈ h.caches
  /-- The next level of a record is a record or the physical memory. -/
  lowerLevels : ∀ (name : String) (record : Document),
    h.caches[name]? = some record ∨ h.walkers[name]? = some record →
      ∀ target, record.string? lowerLevel = some target →
        target ∈ h.system ∨ target = memorySentinel
  /-- What translates for a record is a record. -/
  translators : ∀ (name : String) (record : Document),
    h.caches[name]? = some record ∨ h.walkers[name]? = some record →
      ∀ target, record.string? lowerTranslate = some target → target ∈ h.system
  /-- No record is below itself. -/
  acyclic : h.system.Acyclic lowerLevel
  /-- Data paths end at the physical memory. -/
  dataPaths : ∀ core ∈ h.cores, ∀ slot ∈ [Slot.l1i, Slot.l1d], ∀ start,
    core.slot? slot = some start → EndsAtMemory h.system start
  /-- Translation paths meet a walker. -/
  translationPaths : ∀ core ∈ h.cores, ∀ slot ∈ Slot.translation, ∀ start,
    core.slot? slot = some start → MeetsWalker h.system h.walkers start

/-! ## Slots and links

These two checks are local: each name in a slot or link is looked up. -/

theorem checkSlot_eq_nil_iff {h : Hierarchy} {core : Document} {slot : Slot} :
    h.checkSlot core slot = [] ↔ ∀ target, core.slot? slot = some target → target ∈ h.caches := by
  unfold checkSlot
  cases core.slot? slot with
  | none => simp
  | some target =>
    by_cases hmem : target ∈ h.caches
    · simp [hmem]
    · simp [hmem]

theorem checkLink_eq_nil_iff {system : RecordMap} {kind : RecordKind} {name link : String}
    {record : Document} :
    checkLink system kind name record link = [] ↔
      ∀ target, record.string? link = some target →
        target ∈ system ∨ (link = lowerLevel ∧ target = memorySentinel) := by
  unfold checkLink
  cases record.string? link with
  | none => simp
  | some target => simp [or_iff_not_imp_left]

theorem checkLinks_eq_nil_iff {system records : RecordMap} {kind : RecordKind} :
    checkLinks system kind records = [] ↔
      ∀ (name : String) (record : Document), records[name]? = some record →
        (∀ target, record.string? lowerLevel = some target →
          target ∈ system ∨ target = memorySentinel) ∧
        (∀ target, record.string? lowerTranslate = some target → target ∈ system) := by
  have hlinks : lowerTranslate ≠ lowerLevel := by decide
  unfold checkLinks
  simp only [List.flatMap_eq_nil_iff, Prod.forall, Std.ExtTreeMap.mem_toList_iff_getElem?_eq_some,
    List.forall_mem_cons, List.not_mem_nil, false_implies, implies_true, and_true,
    checkLink_eq_nil_iff, hlinks, false_and, or_false, true_and]

theorem checkReferences_eq_nil_iff {h : Hierarchy} :
    h.checkReferences = [] ↔
      (∀ core ∈ h.cores, ∀ slot ∈ Slot.firstLevel, ∀ target,
        core.slot? slot = some target → target ∈ h.caches) ∧
      ∀ (name : String) (record : Document),
        h.caches[name]? = some record ∨ h.walkers[name]? = some record →
          (∀ target, record.string? lowerLevel = some target →
            target ∈ h.system ∨ target = memorySentinel) ∧
          (∀ target, record.string? lowerTranslate = some target → target ∈ h.system) := by
  unfold checkReferences
  simp only [List.append_eq_nil_iff, List.flatMap_eq_nil_iff, checkSlot_eq_nil_iff,
    checkLinks_eq_nil_iff, and_assoc]
  -- the clause on slots is there as it stands; those on caches and on walkers are joined into one
  refine and_congr_right fun _ => ?_
  constructor
  · rintro ⟨hcaches, hwalkers⟩ name record (hget | hget)
    · exact hcaches name record hget
    · exact hwalkers name record hget
  · exact fun hall => ⟨fun name record hget => hall name record (Or.inl hget),
      fun name record hget => hall name record (Or.inr hget)⟩

/-! ## Cycles

Loops are collected over all names. That none is listed says that no search has run into one. -/

/-- Loops that have been found stay. -/
theorem addLoop_ne_nil {system : RecordMap} {loops : List (List String)} (name : String)
    (hloops : loops ≠ []) : addLoop system loops name ≠ [] := by
  unfold addLoop
  split
  · exact hloops
  · dsimp only
    split
    · exact hloops
    · simp

theorem addLoop_nil_eq_nil_iff {system : RecordMap} {name : String} :
    addLoop system [] name = [] ↔ system.findCycle? lowerLevel name = none := by
  unfold addLoop
  cases system.findCycle? lowerLevel name with
  | none => simp
  | some chain => simp

theorem foldl_addLoop_eq_nil_iff {system : RecordMap} {names : List String}
    {loops : List (List String)} :
    names.foldl (addLoop system) loops = [] ↔
      loops = [] ∧ ∀ name ∈ names, system.findCycle? lowerLevel name = none := by
  induction names generalizing loops with
  | nil => simp
  | cons name names ih =>
    rw [List.foldl_cons, ih, List.forall_mem_cons, ← and_assoc]
    refine and_congr_left fun _ => ?_
    constructor
    · intro hnil
      -- loops are added and never taken away
      by_cases hloops : loops = []
      · subst hloops
        exact ⟨rfl, addLoop_nil_eq_nil_iff.mp hnil⟩
      · exact absurd hnil (addLoop_ne_nil name hloops)
    · rintro ⟨rfl, hnone⟩
      exact addLoop_nil_eq_nil_iff.mpr hnone

/-- No loops are listed iff there is no cycle. -/
theorem loops_eq_nil_iff {system : RecordMap} :
    loops system = [] ↔ system.Acyclic lowerLevel := by
  -- every cycle is found from the names on it
  rw [loops, foldl_addLoop_eq_nil_iff, RecordMap.acyclic_iff]
  simp only [true_and, Std.ExtTreeMap.mem_keys]

/-! ## Paths

Without cycles a walk is the maximal path from its start, so the last record of the walk is the last
of the path, and a walker on the one is a walker on the other. -/

/-- Without cycles the last record that is met is the last one of the maximal path. -/
theorem exists_getLast?_walk {system : RecordMap} (hacyclic : system.Acyclic lowerLevel)
    {start : String} (known : start ∈ system) :
    ∃ (last : String) (record : Document),
      (system.walk lowerLevel start).getLast? = some (last, record) ∧
      (RecordMap.pathNames (system.walk lowerLevel start)).getLast? = some last ∧
      system.target? lowerLevel last = record.string? lowerLevel ∧
      ∀ next, system.target? lowerLevel last = some next → next ∉ system := by
  obtain ⟨last, hlast, _, hends⟩ := (RecordMap.maximalPath_walk hacyclic known).exists_last
  have hlast' := hlast
  rw [RecordMap.pathNames, List.getLast?_map, Option.map_eq_some_iff] at hlast'
  obtain ⟨⟨_, record⟩, hget, rfl⟩ := hlast'
  have hrecord := (RecordMap.mem_walk_iff.mp (List.mem_of_getLast? hget)).2
  exact ⟨_, record, hget, hlast, RecordMap.target?_of_getElem? hrecord, hends⟩

theorem endsAtMemory_iff {system : RecordMap} (hacyclic : system.Acyclic lowerLevel)
    {start last : String} {record : Document}
    (hlast : (system.walk lowerLevel start).getLast? = some (last, record)) :
    EndsAtMemory system start ↔ record.string? lowerLevel = some memorySentinel := by
  have hstart : start ∈ system := by
    have hmem := (RecordMap.mem_walk_iff.mp (List.mem_of_getLast? hlast)).1
    obtain ⟨n, hreach⟩ := hmem
    exact hreach.start_mem
  have hpath := RecordMap.maximalPath_walk hacyclic hstart
  -- the walk is the one maximal path, so its last record is the last one of any
  obtain ⟨_, _, hwalk, hnames, htarget, hends⟩ := exists_getLast?_walk hacyclic hstart
  rw [hlast, Option.some.injEq, Prod.mk.injEq] at hwalk
  obtain ⟨rfl, rfl⟩ := hwalk
  rw [← htarget]
  constructor
  · rintro ⟨path, last', hpath', hlast', hmemory, _⟩
    rw [hpath'.unique hpath, hnames, Option.some.injEq] at hlast'
    rw [hlast']
    exact hmemory
  · intro hmemory
    exact ⟨_, last, hpath, hnames, hmemory, hends _ hmemory⟩

theorem checkDataPath_eq_nil_iff {system : RecordMap} (hacyclic : system.Acyclic lowerLevel)
    {core : Document} {slot : Slot}
    (known : ∀ start, core.slot? slot = some start → start ∈ system) :
    checkDataPath system core slot = [] ↔
      ∀ start, core.slot? slot = some start → EndsAtMemory system start := by
  unfold checkDataPath
  cases hslot : core.slot? slot with
  | none => simp
  | some start =>
    obtain ⟨last, record, hlast, _, _, _⟩ := exists_getLast?_walk hacyclic (known start hslot)
    simp only [hlast, Option.some.injEq, forall_eq', endsAtMemory_iff hacyclic hlast]
    split <;> simp_all

/-- The names of the records met on a walk are the names they are met under. -/
theorem filterMap_name_walk {system : RecordMap} (hnamed : system.Named) (start : String) :
    (system.walk lowerLevel start).filterMap (fun (_, record) => record.name?) =
      RecordMap.pathNames (system.walk lowerLevel start) := by
  rw [RecordMap.pathNames, ← List.filterMap_eq_map]
  refine List.filterMap_congr ?_
  rintro ⟨name, record⟩ hmem
  exact hnamed name record (RecordMap.mem_walk_iff.mp hmem).2

theorem checkTranslationPath_eq_nil_iff {system walkers : RecordMap}
    (hacyclic : system.Acyclic lowerLevel) (hnamed : system.Named) {core : Document} {slot : Slot}
    (known : ∀ start, core.slot? slot = some start → start ∈ system) :
    checkTranslationPath system walkers core slot = [] ↔
      ∀ start, core.slot? slot = some start → MeetsWalker system walkers start := by
  unfold checkTranslationPath
  cases hslot : core.slot? slot with
  | none => simp
  | some start =>
    have hstart := known start hslot
    have hpath := RecordMap.maximalPath_walk hacyclic hstart
    -- the names on the walk are those on the maximal path
    have hmeets : MeetsWalker system walkers start ↔
        ∃ name ∈ RecordMap.pathNames (system.walk lowerLevel start), name ∈ walkers := by
      constructor
      · rintro ⟨path, hpath', hmet⟩
        rw [← hpath'.unique hpath]
        exact hmet
      · exact fun hmet => ⟨_, hpath, hmet⟩
    simp only [filterMap_name_walk hnamed, Option.some.injEq, forall_eq', hmeets]
    simp [hstart]

/-! ## The whole report

Paths are only followed where there are no cycles, which is why the report is not the sum of its
parts. Put together, it is empty just in case every part is. -/

theorem checkPaths_eq_nil_iff {h : Hierarchy} (hnamed : h.system.Named)
    (hacyclic : h.system.Acyclic lowerLevel)
    (hslots : ∀ core ∈ h.cores, ∀ slot ∈ Slot.firstLevel, ∀ target,
      core.slot? slot = some target → target ∈ h.caches) :
    h.checkPaths = [] ↔
      (∀ core ∈ h.cores, ∀ slot ∈ [Slot.l1i, Slot.l1d], ∀ start,
        core.slot? slot = some start → EndsAtMemory h.system start) ∧
      ∀ core ∈ h.cores, ∀ slot ∈ Slot.translation, ∀ start,
        core.slot? slot = some start → MeetsWalker h.system h.walkers start := by
  -- a slot that names no cache has been reported, so walks start at records
  have known : ∀ core ∈ h.cores, ∀ slot ∈ Slot.firstLevel, ∀ start,
      core.slot? slot = some start → start ∈ h.system := fun core hcore slot hslot start hstart =>
    mem_system_iff.mpr (Or.inr (hslots core hcore slot hslot start hstart))
  unfold checkPaths
  simp only [List.flatMap_eq_nil_iff, List.append_eq_nil_iff]
  rw [← forall₂_and]
  refine forall₂_congr fun core hcore => and_congr ?_ ?_
  · refine forall₂_congr fun slot hslot => checkDataPath_eq_nil_iff hacyclic ?_
    refine known core hcore slot ?_
    revert slot
    decide
  · refine forall₂_congr fun slot hslot => checkTranslationPath_eq_nil_iff hacyclic hnamed ?_
    refine known core hcore slot ?_
    revert slot
    decide

/-- Paths have been followed where nothing is reported, as there is no cycle. -/
theorem checks_of_checkTopology_eq_nil {h : Hierarchy} (hempty : h.checkTopology = []) :
    h.checkReferences = [] ∧ h.system.Acyclic lowerLevel ∧ h.checkPaths = [] := by
  unfold checkTopology at hempty
  simp only [List.append_eq_nil_iff, List.map_eq_nil_iff] at hempty
  obtain ⟨⟨hreferences, hloops⟩, hpaths⟩ := hempty
  rw [hloops, List.isEmpty_nil, if_pos rfl] at hpaths
  exact ⟨hreferences, loops_eq_nil_iff.mp hloops, hpaths⟩

/-- Nothing is reported of a hierarchy that is linked as it should be. -/
theorem WellLinked.checkTopology_eq_nil {h : Hierarchy} (hlinked : h.WellLinked)
    (hnamed : h.system.Named) : h.checkTopology = [] := by
  have hreferences : h.checkReferences = [] := checkReferences_eq_nil_iff.mpr
    ⟨hlinked.slots, fun name record hget => ⟨hlinked.lowerLevels name record hget,
      hlinked.translators name record hget⟩⟩
  have hloops := loops_eq_nil_iff.mpr hlinked.acyclic
  have hpaths := (checkPaths_eq_nil_iff hnamed hlinked.acyclic hlinked.slots).mpr
    ⟨hlinked.dataPaths, hlinked.translationPaths⟩
  unfold checkTopology
  rw [hreferences, hloops, hpaths]
  rfl

end Hierarchy

open Hierarchy in
/-- **The report on a topology is empty iff the hierarchy is linked as it should be.** Each clause
of the property is about slots, links and paths only, and is stated without the walks that the
checks make. -/
theorem checkTopology_eq_nil_iff (r : ResolvedConfiguration) (hcaches : r.caches.Named)
    (hwalkers : r.walkers.Named) :
    r.hierarchy.checkTopology = [] ↔ r.hierarchy.WellLinked := by
  have hnamed : r.hierarchy.system.Named := system_named hcaches hwalkers
  constructor
  · intro hempty
    unfold checkTopology at hempty
    simp only [List.append_eq_nil_iff, List.map_eq_nil_iff, checkReferences_eq_nil_iff,
      and_assoc] at hempty
    obtain ⟨hslots, hlinks, hloops, hpaths⟩ := hempty
    have hacyclic := loops_eq_nil_iff.mp hloops
    -- paths are followed only now that there is no cycle
    rw [hloops, List.isEmpty_nil, if_pos rfl,
      checkPaths_eq_nil_iff hnamed hacyclic hslots] at hpaths
    exact {
      slots := hslots
      lowerLevels := fun name record hget => (hlinks name record hget).1
      translators := fun name record hget => (hlinks name record hget).2
      acyclic := hacyclic
      dataPaths := hpaths.1
      translationPaths := hpaths.2 }
  · intro hlinked
    exact hlinked.checkTopology_eq_nil hnamed

/-- One core whose translation buffer is above a walker, which walks through the data cache. The
data path of the core and the path of its translations therefore end alike. -/
def dataAboveWalker : ResolvedConfiguration where
  cores :=
    [[("name", Json.string "cpu0"), ("L1D", Json.string "data"), ("DTLB", Json.string "buffer")]]
  caches := .ofList
    [("data", [("name", Json.string "data"), (lowerLevel, Json.string memorySentinel)]),
      ("buffer", [("name", Json.string "buffer"), (lowerLevel, Json.string "walker")])]
  walkers := .ofList
    [("walker", [("name", Json.string "walker"), (lowerLevel, Json.string "data")])]

theorem wellLinked_dataAboveWalker :
    dataAboveWalker.caches.Named ∧ dataAboveWalker.walkers.Named ∧
      dataAboveWalker.hierarchy.checkTopology = [] ∧ dataAboveWalker.hierarchy.WellLinked := by
  have hcaches : dataAboveWalker.caches.Named := by decide +kernel
  have hwalkers : dataAboveWalker.walkers.Named := by decide +kernel
  have hempty : dataAboveWalker.hierarchy.checkTopology = [] := by decide +kernel
  exact ⟨hcaches, hwalkers, hempty, (checkTopology_eq_nil_iff _ hcaches hwalkers).mp hempty⟩

end MemoryHierarchy
