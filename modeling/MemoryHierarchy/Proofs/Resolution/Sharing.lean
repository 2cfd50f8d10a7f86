import MemoryHierarchy.Proofs.Check.Topology
import MemoryHierarchy.Proofs.Resolution.Level
import MemoryHierarchy.Proofs.Resolution.Template

/-!
# Sharing by kind

Cores may share their records in any pattern. Where links are left to defaults and no name is used
in two kinds of slots, `SharedByKind`, the link of a record goes from its kind to the next one: from
translation buffers to walkers, on to data caches, and from there to the last-level cache. The core
that a link comes from depends on the pattern, the kind that it leads to does not
(`exists_next_of_slot`).

So every record that is left is `Placed`, in a slot of some core or as the last-level cache, and
links lead upwards in `Slot.rank`: there is no cycle, nothing dangles, and all paths end. Only a
record that goes by the name of the memory can spoil this (`checkTopology_memoryRecord`).
-/

namespace MemoryHierarchy

/-- The slot whose record is below that of another slot; below the second level that is the
last-level cache. -/
def Slot.next? : Slot → Option Slot
  | l1i | l1d => some l2c
  | itlb | dtlb => some stlb
  | l2c => none
  | stlb => some ptw
  | ptw => some l1d

/-- How far down a slot is: translations come before data. Links that are filled in go up in rank,
so they cannot form a cycle. -/
def Slot.rank : Slot → Nat
  | itlb | dtlb => 0
  | stlb => 1
  | ptw => 2
  | l1i | l1d => 3
  | l2c => 4

namespace Hierarchy

/-- Cores share records without links of their own, each name in slots of one kind. Every link is
then one that a template or a slot brings. -/
structure SharedByKind (h : Hierarchy) : Prop where
  caches_unlinked : ∀ record ∈ h.caches.values, ∀ key ∈ [lowerLevel, lowerTranslate],
    record.contains key = false
  walkers_unlinked : ∀ record ∈ h.walkers.values, ∀ key ∈ [lowerLevel, lowerTranslate],
    record.contains key = false
  /-- No name is used in two kinds of slots. -/
  slot_eq : ∀ core ∈ h.cores, ∀ slot ∈ Slot.all, ∀ core' ∈ h.cores, ∀ slot' ∈ Slot.all,
    core.slot? slot = core'.slot? slot' → slot = slot'
  slot_ne : ∀ core ∈ h.cores, ∀ slot ∈ Slot.all,
    core.slot? slot ≠ some lastLevelName ∧ core.slot? slot ≠ some memorySentinel
  disjoint : h.Disjoint
  /-- Cores with one instruction translation buffer have one second-level translation buffer. -/
  translator_eq : ∀ core ∈ h.cores, ∀ core' ∈ h.cores,
    core.slot? .itlb = core'.slot? .itlb → core.slot? .stlb = core'.slot? .stlb

instance (h : Hierarchy) : Decidable h.SharedByKind :=
  decidable_of_iff
    ((∀ record ∈ h.caches.values, ∀ key ∈ [lowerLevel, lowerTranslate],
        record.contains key = false) ∧
      (∀ record ∈ h.walkers.values, ∀ key ∈ [lowerLevel, lowerTranslate],
        record.contains key = false) ∧
      (∀ core ∈ h.cores, ∀ slot ∈ Slot.all, ∀ core' ∈ h.cores, ∀ slot' ∈ Slot.all,
        core.slot? slot = core'.slot? slot' → slot = slot') ∧
      (∀ core ∈ h.cores, ∀ slot ∈ Slot.all,
        core.slot? slot ≠ some lastLevelName ∧ core.slot? slot ≠ some memorySentinel) ∧
      h.Disjoint ∧
      ∀ core ∈ h.cores, ∀ core' ∈ h.cores,
        core.slot? .itlb = core'.slot? .itlb → core.slot? .stlb = core'.slot? .stlb)
    ⟨fun ⟨hcaches, hwalkers, heq, hne, hdisjoint, htranslator⟩ =>
      ⟨hcaches, hwalkers, heq, hne, hdisjoint, htranslator⟩,
      fun h => ⟨h.caches_unlinked, h.walkers_unlinked, h.slot_eq, h.slot_ne, h.disjoint,
        h.translator_eq⟩⟩

variable {h : Hierarchy} {core core' : Document} {slot slot' : Slot} {name : String}

theorem SharedByKind.slot_unique (hshared : h.SharedByKind) (hcore : core ∈ h.cores)
    (hslot : core.slot? slot = some name) (hcore' : core' ∈ h.cores)
    (hslot' : core'.slot? slot' = some name) : slot = slot' :=
  hshared.slot_eq core hcore slot (NormalizedConfiguration.mem_slots slot) core' hcore' slot'
    (NormalizedConfiguration.mem_slots slot') (hslot.trans hslot'.symm)

theorem SharedByKind.slot?_ne_lastLevel (hshared : h.SharedByKind) (hcore : core ∈ h.cores)
    (slot : Slot) : core.slot? slot ≠ some lastLevelName :=
  (hshared.slot_ne core hcore slot (NormalizedConfiguration.mem_slots slot)).1

/-- A record in a slot of some core, or the last-level cache. -/
inductive Placed (h : Hierarchy) (name : String) : Prop where
  | slot (core : Document) (hcore : core ∈ h.cores) (slot : Slot)
      (hslot : core.slot? slot = some name)
  | lastLevel (hname : name = lastLevelName)

end Hierarchy

namespace Completion

open Hierarchy

variable {h : Hierarchy} {core : Document} {slot : Slot} {name : String}

/-! ## Links after seeding

Below the record of a slot a core puts the record of another slot, and these links are all there are
where a document leaves them out. -/

/-- The name that a core gives to the record below that of a slot. -/
def nextName (core : Document) (slot : Slot) : String :=
  (slot.next?.map (slotName core)).getD lastLevelName

theorem string?_lowerLevel_document {links : SlotLinks} (hlinks : links ∈ SlotLinks.all)
    (core : Document) :
    (links.document core).string? lowerLevel = some (nextName core links.slot) := by
  have hnext : ∀ links ∈ SlotLinks.all, links.lower = links.slot.next? := by decide
  rw [nextName, ← hnext links hlinks]
  rfl

theorem string?_lowerTranslate_document (links : SlotLinks) (core : Document) :
    (links.document core).string? lowerTranslate = links.translate.map (slotName core) := by
  obtain ⟨slot, lower, translate⟩ := links
  cases translate with
  | none => rfl
  | some slot => rfl

/-- Templates of the first level bring no links. -/
theorem eq_document_of_contains {links : SlotLinks} {layer : Document}
    (hlayer : layer ∈ slotLayers core links) {key : String}
    (hkey : key ∈ [lowerLevel, lowerTranslate]) (hcontains : layer.contains key = true) :
    layer = links.document core := by
  rcases mem_slotLayers_iff.mp hlayer with rfl | ⟨_, template, _, _, rfl⟩
  · rfl
  · have habsent : ∀ key ∈ [lowerLevel, lowerTranslate],
        template.document.contains key = false := by
      intro key hkey
      simp only [List.mem_cons, List.not_mem_nil, or_false] at hkey
      rcases hkey with rfl | rfl <;> rfl
    rw [habsent key hkey] at hcontains
    cases hcontains

section

variable (hclosed : h.Closed) (hshared : h.SharedByKind)

include hclosed hshared

theorem exists_next_of_walker_slot (hcore : core ∈ h.cores) (hslot : core.slot? .ptw = some name) :
    ∃ core' ∈ h.cores, core'.slot? .ptw = some name ∧
      (seed h).hierarchy.system.target? lowerLevel name = some (nextName core' .ptw) := by
  have hdisjoint := (seeding_seed hclosed).disjoint hshared.disjoint
  obtain ⟨other, hother, hmem⟩ := hclosed.slots core hcore .ptw
  rw [hslot, Option.some.injEq] at hother
  subst hother
  obtain ⟨original, horiginal⟩ := NameMap.mem_iff_exists.mp (hmem : name ∈ h.walkers)
  have hunlinked := hshared.walkers_unlinked original
    (NameMap.mem_values_iff.mpr ⟨name, horiginal⟩) lowerLevel (by decide)
  have hget := (layeredBy_seed hclosed).walkers name
  rw [horiginal, Option.map_some] at hget
  have hpointer : walkerPointer core ∈ walkerLayers h.cores name :=
    mem_walkerLayers_iff.mpr ⟨core, hcore, (slotName_eq_iff hclosed hcore .ptw).mpr hslot, rfl⟩
  -- the walker has no link of its own, so the link comes from a layer, and each layer from a core
  obtain ⟨layer, hlayer, _, hlink⟩ := Document.exists_layer_of_contains hunlinked hpointer rfl
  obtain ⟨core', hcore', hname, rfl⟩ := mem_walkerLayers_iff.mp hlayer
  refine ⟨core', hcore', (slotName_eq_iff hclosed hcore' .ptw).mp hname, ?_⟩
  rw [RecordMap.target?_of_getElem? (hdisjoint.getElem?_system_of_walker hget), hlink]
  rfl

theorem exists_next_of_cache_slot (hcore : core ∈ h.cores) (hslot : core.slot? slot = some name)
    (hkind : slot.isWalker = false) :
    ∃ core' ∈ h.cores, core'.slot? slot = some name ∧
      (seed h).hierarchy.system.target? lowerLevel name = some (nextName core' slot) := by
  obtain ⟨other, hother, hmem⟩ := hclosed.slots core hcore slot
  rw [hslot, Option.some.injEq] at hother
  subst hother
  rw [hkind] at hmem
  obtain ⟨original, horiginal⟩ := NameMap.mem_iff_exists.mp (hmem : name ∈ h.caches)
  have hunlinked := hshared.caches_unlinked original
    (NameMap.mem_values_iff.mpr ⟨name, horiginal⟩) lowerLevel (by decide)
  have hget := (layeredBy_seed hclosed).caches name
  rw [horiginal, Option.map_some] at hget
  -- links are listed for every slot that names a cache
  have hlisted : ∀ slot ∈ Slot.all, slot.isWalker = false →
      ∃ links ∈ SlotLinks.all, links.slot = slot := by decide
  obtain ⟨links, hlinks, rfl⟩ := hlisted slot (NormalizedConfiguration.mem_slots slot) hkind
  have hpointers : links.document core ∈ cacheLayers h.cores name :=
    mem_cacheLayers_iff.mpr ⟨core, hcore, links, hlinks,
      (slotName_eq_iff hclosed hcore links.slot).mpr hslot, List.mem_cons_self⟩
  obtain ⟨layer, hlayer, hcontains, hlink⟩ :=
    Document.exists_layer_of_contains hunlinked hpointers rfl
  obtain ⟨core', hcore', links', hlinks', hname, hlayer⟩ := mem_cacheLayers_iff.mp hlayer
  have hslot' := (slotName_eq_iff hclosed hcore' links'.slot).mp hname
  -- the core that the link comes from has the record in the same slot
  have heq := hshared.slot_unique hcore hslot hcore' hslot'
  refine ⟨core', hcore', heq ▸ hslot', ?_⟩
  rw [RecordMap.target?_of_getElem? (getElem?_system_of_cache hget), hlink,
    eq_document_of_contains hlayer (by decide) hcontains, string?_lowerLevel_document hlinks', heq]

/-- **The link of a record in a slot** is that of some core which has the record in this slot.
Written records have no links here, so the link comes from the first layer that brings one. -/
theorem exists_next_of_slot (hcore : core ∈ h.cores) (hslot : core.slot? slot = some name) :
    ∃ core' ∈ h.cores, core'.slot? slot = some name ∧
      (seed h).hierarchy.system.target? lowerLevel name = some (nextName core' slot) := by
  by_cases hwalker : slot = .ptw
  · subst hwalker
    exact exists_next_of_walker_slot hclosed hshared hcore hslot
  · exact exists_next_of_cache_slot hclosed hshared hcore hslot (decide_eq_false hwalker)

/-- Seeding gives the last-level cache no link. -/
theorem contains_lastLevel_seed {record : Document}
    (hget : (seed h).hierarchy.caches[lastLevelName]? = some record) :
    record.contains lowerLevel = false := by
  rw [(layeredBy_seed hclosed).caches, Option.map_eq_some_iff] at hget
  obtain ⟨original, horiginal, rfl⟩ := hget
  have hunlinked := hshared.caches_unlinked original
    (NameMap.mem_values_iff.mpr ⟨lastLevelName, horiginal⟩) lowerLevel (by decide)
  -- no slot names it, so there is no layer below it
  have hlayers : cacheLayers h.cores lastLevelName = [] := by
    refine List.eq_nil_iff_forall_not_mem.mpr fun layer hlayer => ?_
    obtain ⟨core, hcore, links, _, hname, _⟩ := mem_cacheLayers_iff.mp hlayer
    rw [slotName_eq_iff hclosed hcore] at hname
    exact hshared.slot?_ne_lastLevel hcore links.slot hname
  rw [Document.contains_mergeAll, hlayers, List.any_cons, hunlinked]
  rfl

theorem target?_lastLevel_seed (hlast : lastLevelName ∈ h.caches) :
    (seed h).hierarchy.system.target? lowerLevel lastLevelName = none := by
  obtain ⟨record, hget⟩ := NameMap.mem_iff_exists.mp
    (((seeding_seed hclosed).caches.mem_iff lastLevelName).mp hlast)
  have hunlinked := contains_lastLevel_seed hclosed hshared hget
  rw [RecordMap.target?_of_getElem? (getElem?_system_of_cache hget), Document.string?,
    Document.contains_eq_false_iff.mp hunlinked, Option.bind_none]

/-- Nothing on the first level is directly above the last-level cache. -/
theorem rolesAbove_lastLevel : (seed h).rolesAbove lastLevelName = [] := by
  refine List.eq_nil_iff_forall_not_mem.mpr fun role hrole => ?_
  obtain ⟨upper, hrole, hlink⟩ := mem_rolesAbove_iff.mp hrole
  rw [getElem?_roles_seed hclosed, Option.bind_eq_some_iff] at hrole
  obtain ⟨slot, hfirst, _⟩ := hrole
  obtain ⟨core, hcore, hfound⟩ := List.exists_of_findSome?_eq_some hfirst
  have hslot : core.slot? slot = some upper := by
    simpa using List.find?_some hfound
  obtain ⟨core', hcore', _, hnext⟩ := exists_next_of_slot hclosed hshared hcore hslot
  -- below the first level there is another slot
  have hbelow : ∀ slot ∈ Slot.firstLevel, ∃ next ∈ Slot.all, slot.next? = some next := by decide
  obtain ⟨next, _, hbelow⟩ := hbelow slot (mem_firstLevel_of_firstSlot? hfirst)
  rw [hnext, Option.some.injEq, nextName, hbelow, Option.map_some, Option.getD_some,
    slotName_eq_iff hclosed hcore'] at hlink
  exact hshared.slot?_ne_lastLevel hcore' next hlink

omit hshared

theorem placed_nextName (hcore : core ∈ h.cores) (slot : Slot) : Placed h (nextName core slot) := by
  unfold nextName
  cases slot.next? with
  | none => exact .lastLevel rfl
  | some next => exact .slot core hcore next ((slotName_eq_iff hclosed hcore next).mp rfl)

theorem mem_system_of_placed (hlast : lastLevelName ∈ h.caches) (hplaced : Placed h name) :
    name ∈ h.system := by
  rw [mem_system_iff]
  cases hplaced with
  | slot core hcore slot hslot =>
    obtain ⟨other, hother, hmem⟩ := hclosed.slots core hcore slot
    rw [hslot, Option.some.injEq] at hother
    subst hother
    split at hmem
    · exact Or.inl hmem
    · exact Or.inr hmem
  | lastLevel hname => exact Or.inr (hname ▸ hlast)

include hshared

/-- Nothing else is reached after seeding. -/
theorem placed_of_reachable (hlast : lastLevelName ∈ h.caches)
    (hreached : name ∈ (seed h).hierarchy.reachable) : Placed h name := by
  have hseeding := seeding_seed hclosed
  rw [mem_reachable_iff (hseeding.closed hclosed).system_named, hseeding.roots_eq] at hreached
  obtain ⟨root, hroot, n, hreach⟩ := hreached
  obtain ⟨core, hcore, slot, _, hslot⟩ := mem_roots_iff.mp hroot
  have hplaced : Placed h root := .slot core hcore slot hslot
  clear hroot hslot
  -- links lead from slots to slots or to the last-level cache, where they end
  induction hreach with
  | refl _ => exact hplaced
  | step hop _ ih =>
    refine ih ?_
    cases hplaced with
    | slot core hcore slot hslot =>
      obtain ⟨core', hcore', _, hlink⟩ := exists_next_of_slot hclosed hshared hcore hslot
      rw [hlink, Option.some.injEq] at hop
      exact hop ▸ placed_nextName hclosed hcore' slot
    | lastLevel hname =>
      rw [hname, target?_lastLevel_seed hclosed hshared hlast] at hop
      cases hop

end

end Completion

/-! ## The resolved hierarchy

Slots have a rank, and the last-level cache is below all of them. Links lead to a greater rank when
each name is used in one kind of slots, so there is no cycle. -/

namespace Hierarchy

/-- The kind of slot in which some core has a record. -/
def slotOf? (h : Hierarchy) (name : String) : Option Slot :=
  h.cores.findSome? fun core => Slot.all.find? fun slot => core.slot? slot = some name

/-- How far down a record is; the last-level cache is below all slots. -/
def rank (h : Hierarchy) (name : String) : Nat := ((h.slotOf? name).map Slot.rank).getD 5

variable {h r : Hierarchy} {core : Document} {slot : Slot} {name : String} {record : Document}

theorem exists_core_of_slotOf? (hslot : h.slotOf? name = some slot) :
    ∃ core ∈ h.cores, core.slot? slot = some name := by
  obtain ⟨core, hcore, hfound⟩ := List.exists_of_findSome?_eq_some hslot
  exact ⟨core, hcore, by simpa using List.find?_some hfound⟩

theorem SharedByKind.rank_slot (hshared : h.SharedByKind) (hcore : core ∈ h.cores)
    (hslot : core.slot? slot = some name) : h.rank name = slot.rank := by
  have hsome : (h.slotOf? name).isSome = true := by
    rw [slotOf?, List.isSome_findSome?, List.any_eq_true]
    refine ⟨core, hcore, List.find?_isSome.mpr ⟨slot, NormalizedConfiguration.mem_slots slot, ?_⟩⟩
    exact decide_eq_true hslot
  obtain ⟨found, hfound⟩ := Option.isSome_iff_exists.mp hsome
  obtain ⟨core', hcore', hslot'⟩ := exists_core_of_slotOf? hfound
  rw [rank, hfound, hshared.slot_unique hcore hslot hcore' hslot']
  rfl

theorem SharedByKind.rank_lastLevel (hshared : h.SharedByKind) : h.rank lastLevelName = 5 := by
  cases hfound : h.slotOf? lastLevelName with
  | none => rw [rank, hfound]; rfl
  | some slot =>
    obtain ⟨core, hcore, hslot⟩ := exists_core_of_slotOf? hfound
    exact absurd hslot (hshared.slot?_ne_lastLevel hcore slot)

theorem SharedByKind.rank_lt_nextName (hclosed : h.Closed) (hshared : h.SharedByKind)
    (hcore : core ∈ h.cores) (slot : Slot) :
    slot.rank < h.rank (Completion.nextName core slot) := by
  unfold Completion.nextName
  cases hnext : slot.next? with
  | none =>
    have hrank : ∀ slot ∈ Slot.all, slot.rank < 5 := by decide
    rw [Option.map_none, Option.getD_none, hshared.rank_lastLevel]
    exact hrank slot (NormalizedConfiguration.mem_slots slot)
  | some next =>
    have hrank : ∀ slot ∈ Slot.all, ∀ next ∈ slot.next?, slot.rank < next.rank := by decide
    have hname := (Completion.slotName_eq_iff hclosed hcore next).mp rfl
    rw [Option.map_some, Option.getD_some, hshared.rank_slot hcore hname]
    exact hrank slot (NormalizedConfiguration.mem_slots slot) next hnext

/-- A hierarchy whose cores share by kind, with what it is resolved to. The facts that the clauses
of the topology need are collected here. -/
structure ResolvedByKind (h r : Hierarchy) : Prop where
  closed : h.Closed
  shared : h.SharedByKind
  lastLevel : lastLevelName ∈ h.caches
  memory : memorySentinel ∉ h.system
  agrees : AgreesOff lateKeys h.complete r

namespace ResolvedByKind

theorem sameLinks (hr : ResolvedByKind h r) :
    RecordMap.SameLinks lowerLevel (Completion.seed h).hierarchy.reachable r.system :=
  (Completion.sameLinks_finished hr.closed hr.memory).trans
    (hr.agrees.sameLinks (by decide))

theorem disjoint (hr : ResolvedByKind h r) : r.Disjoint :=
  hr.agrees.disjoint (Completion.disjoint_complete hr.closed hr.shared.disjoint)

/-! ### What is left -/

theorem mem_iff (hr : ResolvedByKind h r) :
    name ∈ r.system ↔ name ∈ (Completion.seed h).hierarchy.reachable :=
  (hr.sameLinks.mem_iff name).symm

theorem placed (hr : ResolvedByKind h r) (hmem : name ∈ r.system) : Placed h name :=
  Completion.placed_of_reachable hr.closed hr.shared hr.lastLevel (hr.mem_iff.mp hmem)

theorem mem_of_root (hr : ResolvedByKind h r) (hroot : name ∈ h.roots) : name ∈ r.system := by
  have hseeding := Completion.seeding_seed hr.closed
  rw [hr.mem_iff, mem_reachable_iff (hseeding.closed hr.closed).system_named, hseeding.roots_eq]
  refine ⟨name, hroot, .refl ?_⟩
  rw [hseeding.mem_system_iff, mem_system_iff]
  exact Or.inr (hr.closed.mem_caches_of_root hroot)

theorem exists_layered_cache (hr : ResolvedByKind h r) (hget : r.caches[name]? = some record) :
    ∃ written completed, h.caches[name]? = some written ∧
      Document.Layered (fun layer => layer ∈ Completion.cacheLayers h.cores name ∨
        Completion.IsSharedTemplate layer) written completed ∧
      Document.AgreesOff lateKeys completed record := by
  obtain ⟨completed, hcompleted, hagreed⟩ := hr.agrees.caches.exists_before hget
  obtain ⟨written, hwritten, hlayered⟩ :=
    Completion.exists_layered_of_complete_cache hr.closed hr.shared.disjoint hcompleted
  exact ⟨written, completed, hwritten, hlayered, hagreed⟩

theorem exists_layered_walker (hr : ResolvedByKind h r) (hget : r.walkers[name]? = some record) :
    ∃ written completed, h.walkers[name]? = some written ∧
      Document.Layered (fun layer => layer ∈ Completion.walkerLayers h.cores name ∨
        Completion.IsWalkerTemplate layer) written completed ∧
      Document.AgreesOff lateKeys completed record := by
  obtain ⟨completed, hcompleted, hagreed⟩ := hr.agrees.walkers.exists_before hget
  obtain ⟨written, hwritten, hlayered⟩ :=
    Completion.exists_layered_of_complete_walker hr.closed hr.shared.disjoint hcompleted
  exact ⟨written, completed, hwritten, hlayered, hagreed⟩

theorem mem_caches (hr : ResolvedByKind h r) (hmem : name ∈ r.system) (hcache : name ∈ h.caches) :
    name ∈ r.caches := by
  rcases mem_system_iff.mp hmem with hwalker | hkept
  · obtain ⟨record, hget⟩ := NameMap.mem_iff_exists.mp hwalker
    obtain ⟨written, _, hwritten, _⟩ := hr.exists_layered_walker hget
    exact absurd (NameMap.mem_iff_exists.mpr ⟨written, hwritten⟩)
      (hr.shared.disjoint name hcache)
  · exact hkept

theorem mem_walkers (hr : ResolvedByKind h r) (hmem : name ∈ r.system)
    (hwalker : name ∈ h.walkers) : name ∈ r.walkers := by
  rcases mem_system_iff.mp hmem with hkept | hcache
  · exact hkept
  · obtain ⟨record, hget⟩ := NameMap.mem_iff_exists.mp hcache
    obtain ⟨written, _, hwritten, _⟩ := hr.exists_layered_cache hget
    exact absurd hwalker
      (hr.shared.disjoint name (NameMap.mem_iff_exists.mpr ⟨written, hwritten⟩))

theorem exists_core (hr : ResolvedByKind h r) (hcore : core ∈ r.cores) :
    ∃ core' ∈ h.cores, ∀ slot, core.slot? slot = core'.slot? slot := by
  obtain ⟨core', hcore', hagreed⟩ := exists_of_mem_right hr.agrees.cores hcore
  rw [Completion.cores_complete hr.closed] at hcore'
  exact ⟨core', hcore', fun slot => hagreed.string? (slot_not_mem_lateKeys slot)⟩

/-! ### Links to the next level -/

/-- A record that is left in a slot links to a record of the next slot, which is left as well. -/
theorem exists_next (hr : ResolvedByKind h r) (hmem : name ∈ r.system) (hcore : core ∈ h.cores)
    (hslot : core.slot? slot = some name) :
    ∃ core' ∈ h.cores, core'.slot? slot = some name ∧
      r.system.target? lowerLevel name = some (Completion.nextName core' slot) ∧
      Completion.nextName core' slot ∈ r.system := by
  have hseeding := Completion.seeding_seed hr.closed
  have hreached := hr.mem_iff.mp hmem
  obtain ⟨core', hcore', hslot', hlink⟩ :=
    Completion.exists_next_of_slot hr.closed hr.shared hcore hslot
  -- what a record that is reached links to is reached, if it is a record at all
  have hnext : Completion.nextName core' slot ∈ (Completion.seed h).hierarchy.reachable := by
    rw [mem_reachable_iff (hseeding.closed hr.closed).system_named] at hreached ⊢
    refine hreached.tail hlink ?_
    rw [hseeding.mem_system_iff]
    exact Completion.mem_system_of_placed hr.closed hr.lastLevel
      (Completion.placed_nextName hr.closed hcore' slot)
  refine ⟨core', hcore', hslot', ?_, hr.mem_iff.mpr hnext⟩
  rw [← hr.sameLinks.target?_iff name _ hnext, reachable, RecordMap.target?_accessible hreached]
  exact hlink

/-- The last-level cache is above the memory. -/
theorem target?_lastLevel (hr : ResolvedByKind h r) (hmem : lastLevelName ∈ r.system) :
    r.system.target? lowerLevel lastLevelName = some memorySentinel := by
  obtain ⟨record, hget⟩ := NameMap.mem_iff_exists.mp (hr.mem_caches hmem hr.lastLevel)
  obtain ⟨completed, hcompleted, hagreed⟩ := hr.agrees.caches.exists_before hget
  have hroot : lastLevelName ∉ h.roots := by
    rw [mem_roots_iff]
    rintro ⟨core, hcore, slot, _, hslot⟩
    exact hr.shared.slot?_ne_lastLevel hcore slot hslot
  -- the cache has been written without a link and seeded without one, so it has that of its
  -- template
  obtain ⟨_, seeded, _, hseeded, _, rfl⟩ :=
    Completion.exists_of_complete_cache hr.closed hr.shared.disjoint hr.memory hcompleted hroot
  have hunlinked := Completion.contains_lastLevel_seed hr.closed hr.shared hseeded
  rw [RecordMap.target?_of_getElem? (getElem?_system_of_cache hget),
    hagreed.string? (by decide), Completion.rolesAbove_lastLevel hr.closed hr.shared,
    Document.string?_mergeAll, List.find?_cons, hunlinked]
  rfl

/-- Links lead to the next rank. -/
theorem rank_lt (hr : ResolvedByKind h r) {next : String}
    (hlink : r.system.target? lowerLevel name = some next) (hnext : next ∈ r.system) :
    h.rank name < h.rank next := by
  have hmem := RecordMap.mem_of_target? hlink
  cases hr.placed hmem with
  | slot core hcore slot hslot =>
    obtain ⟨core', hcore', hslot', hlink', _⟩ := hr.exists_next hmem hcore hslot
    rw [hlink', Option.some.injEq] at hlink
    rw [hr.shared.rank_slot hcore' hslot', ← hlink]
    exact hr.shared.rank_lt_nextName hr.closed hcore' slot
  | lastLevel hname =>
    subst hname
    rw [hr.target?_lastLevel hmem, Option.some.injEq] at hlink
    -- the memory is no record
    refine absurd ?_ hr.memory
    rw [hlink]
    exact Completion.mem_system_of_placed hr.closed hr.lastLevel (hr.placed hnext)

theorem acyclic (hr : ResolvedByKind h r) : r.system.Acyclic lowerLevel :=
  RecordMap.acyclic_of_rank h.rank fun _ _ => hr.rank_lt

/-! ### Links to what translates -/

/-- What translates for a cache is in a slot of a core that has the cache in a slot. -/
theorem exists_translator (hr : ResolvedByKind h r) (hget : r.caches[name]? = some record)
    {target : String} (htarget : record.string? lowerTranslate = some target) :
    ∃ core ∈ h.cores, ∃ links ∈ SlotLinks.all, core.slot? links.slot = some name ∧
      ∃ slot, links.translate = some slot ∧ core.slot? slot = some target := by
  obtain ⟨written, completed, hwritten, hlayered, hagreed⟩ := hr.exists_layered_cache hget
  have hunlinked := hr.shared.caches_unlinked written
    (NameMap.mem_values_iff.mpr ⟨name, hwritten⟩) lowerTranslate (by decide)
  rw [hagreed.string? (by decide)] at htarget
  -- the link comes from a slot of some core, since templates have none to what translates
  obtain ⟨layer, hlayer | ⟨role, n, rfl⟩, hlink⟩ :=
    hlayered.exists_layer_of_string? hunlinked htarget
  · obtain ⟨core, hcore, links, hlinks, hname, hlayer⟩ := Completion.mem_cacheLayers_iff.mp hlayer
    rw [Completion.eq_document_of_contains hlayer (by decide) (Document.contains_of_string? hlink),
      Completion.string?_lowerTranslate_document, Option.map_eq_some_iff] at hlink
    obtain ⟨slot, hslot, hlink⟩ := hlink
    rw [Completion.slotName_eq_iff hr.closed hcore] at hname hlink
    exact ⟨core, hcore, links, hlinks, hname, slot, hslot, hlink⟩
  · cases role <;> cases hlink

theorem walker_untranslated (hr : ResolvedByKind h r) (hget : r.walkers[name]? = some record) :
    record.string? lowerTranslate = none := by
  obtain ⟨written, completed, hwritten, hlayered, hagreed⟩ := hr.exists_layered_walker hget
  have hunlinked := hr.shared.walkers_unlinked written
    (NameMap.mem_values_iff.mpr ⟨name, hwritten⟩) lowerTranslate (by decide)
  rw [hagreed.string? (by decide)]
  by_contra hsome
  obtain ⟨target, htarget⟩ := Option.ne_none_iff_exists'.mp hsome
  obtain ⟨layer, hlayer | ⟨n, rfl⟩, hlink⟩ := hlayered.exists_layer_of_string? hunlinked htarget
  · obtain ⟨core, _, _, rfl⟩ := Completion.mem_walkerLayers_iff.mp hlayer
    cases hlink
  · cases hlink

/-- The second-level translation buffer of a core is left: it is below the first-level one. -/
theorem mem_translator (hr : ResolvedByKind h r) (hcore : core ∈ h.cores) {target : String}
    (htarget : core.slot? .stlb = some target) : target ∈ r.system := by
  obtain ⟨buffer, hbuffer, _⟩ := hr.closed.slots core hcore .itlb
  have hroot : buffer ∈ h.roots :=
    mem_roots_iff.mpr ⟨core, hcore, .itlb, by decide, hbuffer⟩
  obtain ⟨core', hcore', hbuffer', _, hnext⟩ :=
    hr.exists_next (hr.mem_of_root hroot) hcore hbuffer
  -- the core that the link comes from shares the buffer, so it has the same one below it
  have hsame := hr.shared.translator_eq core hcore core' hcore' (hbuffer.trans hbuffer'.symm)
  have hname : Completion.nextName core' .itlb = target := by
    rw [htarget] at hsame
    exact (Completion.slotName_eq_iff hr.closed hcore' .stlb).mpr hsame.symm
  exact hname ▸ hnext

/-! ### Paths -/

/-- Every maximal path ends at the last-level cache, all other links leading to records. -/
theorem endsAtMemory (hr : ResolvedByKind h r) (hmem : name ∈ r.system) :
    EndsAtMemory r.system name := by
  obtain ⟨last, record, hwalk, _, htarget, hends⟩ := exists_getLast?_walk hr.acyclic hmem
  rw [endsAtMemory_iff hr.acyclic hwalk, ← htarget]
  have hlast : last ∈ r.system :=
    NameMap.mem_iff_exists.mpr ⟨record, (RecordMap.mem_walk_iff.mp (List.mem_of_getLast? hwalk)).2⟩
  cases hr.placed hlast with
  | slot core hcore slot hslot =>
    obtain ⟨_, _, _, hlink, hnext⟩ := hr.exists_next hlast hcore hslot
    exact absurd hnext (hends _ hlink)
  | lastLevel hname =>
    subst hname
    exact hr.target?_lastLevel hlast

/-- From a first-level translation buffer a walker is two links away. -/
theorem meetsWalker (hr : ResolvedByKind h r) (hmem : name ∈ r.system) (hcore : core ∈ h.cores)
    (hslot : slot ∈ Slot.translation) (hname : core.slot? slot = some name) :
    MeetsWalker r.system r.walkers name := by
  have hnext : ∀ slot ∈ Slot.translation, slot.next? = some .stlb := by decide
  obtain ⟨core', hcore', _, hlink, hbuffer⟩ := hr.exists_next hmem hcore hname
  rw [Completion.nextName, hnext slot hslot, Option.map_some, Option.getD_some] at hlink hbuffer
  obtain ⟨core'', hcore'', _, hlink', hwalker⟩ := hr.exists_next hbuffer hcore'
    ((Completion.slotName_eq_iff hr.closed hcore' .stlb).mp rfl)
  -- over the second-level buffer to the walker below it
  have hreaches : r.system.Reaches lowerLevel name (Completion.nextName core'' .stlb) :=
    .head hlink (.head hlink' (.refl hwalker))
  refine ⟨_, RecordMap.maximalPath_walk hr.acyclic hmem, _,
    RecordMap.mem_pathNames_walk_iff.mpr hreaches, hr.mem_walkers hwalker ?_⟩
  obtain ⟨walker, hname, hmem⟩ := hr.closed.slots core'' hcore'' .ptw
  have heq : Completion.nextName core'' .stlb = walker :=
    (Completion.slotName_eq_iff hr.closed hcore'' .ptw).mpr hname
  rw [heq]
  exact hmem

/-- **A hierarchy whose cores share by kind is resolved to one that is linked as it should be.**
Each clause is checked on the completion: slots name caches, links go down in rank, and paths of
data and of translations end where they should. -/
theorem wellLinked (hr : ResolvedByKind h r) : r.WellLinked where
  slots := by
    intro core hcore slot hslot target htarget
    obtain ⟨core', hcore', hsame⟩ := hr.exists_core hcore
    have hroot : target ∈ h.roots :=
      mem_roots_iff.mpr ⟨core', hcore', slot, hslot, hsame slot ▸ htarget⟩
    exact hr.mem_caches (hr.mem_of_root hroot) (hr.closed.mem_caches_of_root hroot)
  lowerLevels := by
    intro name record hget target htarget
    have hsystem : r.system[name]? = some record := hget.elim getElem?_system_of_cache
      hr.disjoint.getElem?_system_of_walker
    have hmem : name ∈ r.system := NameMap.mem_iff_exists.mpr ⟨record, hsystem⟩
    rw [← RecordMap.target?_of_getElem? hsystem] at htarget
    cases hr.placed hmem with
    | slot core hcore slot hslot =>
      obtain ⟨_, _, _, hlink, hnext⟩ := hr.exists_next hmem hcore hslot
      rw [hlink, Option.some.injEq] at htarget
      exact Or.inl (htarget ▸ hnext)
    | lastLevel hname =>
      subst hname
      rw [hr.target?_lastLevel hmem, Option.some.injEq] at htarget
      exact Or.inr htarget.symm
  translators := by
    intro name record hget target htarget
    rcases hget with hget | hget
    · obtain ⟨core, hcore, links, hlinks, _, slot, htranslate, hslot⟩ :=
        hr.exists_translator hget htarget
      -- what translates is on the first level or the second-level translation buffer
      have hkinds : ∀ links ∈ SlotLinks.all, ∀ slot ∈ links.translate,
          slot ∈ Slot.firstLevel ∨ slot = .stlb := by decide
      rcases hkinds links hlinks slot htranslate with hfirst | rfl
      · exact hr.mem_of_root (mem_roots_iff.mpr ⟨core, hcore, slot, hfirst, hslot⟩)
      · exact hr.mem_translator hcore hslot
    · rw [hr.walker_untranslated hget] at htarget
      cases htarget
  acyclic := hr.acyclic
  dataPaths := by
    intro core hcore slot hslot start hstart
    obtain ⟨core', hcore', hsame⟩ := hr.exists_core hcore
    have hfirst : ∀ slot ∈ [Slot.l1i, Slot.l1d], slot ∈ Slot.firstLevel := by decide
    exact hr.endsAtMemory (hr.mem_of_root
      (mem_roots_iff.mpr ⟨core', hcore', slot, hfirst slot hslot, hsame slot ▸ hstart⟩))
  translationPaths := by
    intro core hcore slot hslot start hstart
    obtain ⟨core', hcore', hsame⟩ := hr.exists_core hcore
    have hfirst : ∀ slot ∈ Slot.translation, slot ∈ Slot.firstLevel := by decide
    rw [hsame slot] at hstart
    have hroot := mem_roots_iff.mpr ⟨core', hcore', slot, hfirst slot hslot, hstart⟩
    exact hr.meetsWalker (hr.mem_of_root hroot) hcore' hslot hstart

end ResolvedByKind

end Hierarchy

/-! ## Configurations

A document says which cores share what; what is resolved from it is linked as a simulator needs it.
-/

open Hierarchy in
/-- The templates of cores leave the slots alone, and with them what is shared. -/
theorem NormalizedConfiguration.Closed.sharedByKind {n : NormalizedConfiguration}
    (hclosed : n.Closed) (hshared : SharedByKind ⟨n.cores, n.caches, n.walkers⟩) :
    n.hierarchy.SharedByKind where
  caches_unlinked := hshared.caches_unlinked
  walkers_unlinked := hshared.walkers_unlinked
  slot_eq := by
    intro core hcore slot hslot core' hcore' slot' hslot' heq
    -- a core has in its slots what was written, as templates have no slots
    obtain ⟨written, hwritten, rfl⟩ := List.mem_map.mp hcore
    obtain ⟨written', hwritten', rfl⟩ := List.mem_map.mp hcore'
    rw [hclosed.slot?_mergeAll hwritten, hclosed.slot?_mergeAll hwritten'] at heq
    exact hshared.slot_eq written hwritten slot hslot written' hwritten' slot' hslot' heq
  slot_ne := by
    intro core hcore slot hslot
    obtain ⟨written, hwritten, rfl⟩ := List.mem_map.mp hcore
    rw [hclosed.slot?_mergeAll hwritten]
    exact hshared.slot_ne written hwritten slot hslot
  disjoint := hshared.disjoint
  translator_eq := by
    intro core hcore core' hcore' heq
    obtain ⟨written, hwritten, rfl⟩ := List.mem_map.mp hcore
    obtain ⟨written', hwritten', rfl⟩ := List.mem_map.mp hcore'
    rw [hclosed.slot?_mergeAll hwritten, hclosed.slot?_mergeAll hwritten'] at heq ⊢
    exact hshared.translator_eq written hwritten written' hwritten' heq

open NormalizedConfiguration in
/-- **Sharing by kind resolves to a clean topology.** Where links are left to defaults and no name
is used in two kinds of slots, nothing is reported of the resolved hierarchy, unless a record stands
in for the physical memory. -/
theorem checkTopology_of_sharedByKind {docs : List Document} {n : NormalizedConfiguration}
    (hread : ofDocuments docs = .ok n)
    (hshared : Hierarchy.SharedByKind ⟨n.cores, n.caches, n.walkers⟩)
    (hmemory : memorySentinel ∉ n.caches ∧ memorySentinel ∉ n.walkers) (lookups : ModuleLookups) :
    (n.applyDefaults lookups).hierarchy.checkTopology = [] := by
  have hclosed := closed_of_ofDocuments hread
  -- what the argument needs of documents and of passes; the rest is about hierarchies
  have hresolved : Hierarchy.ResolvedByKind n.hierarchy (n.applyDefaults lookups).hierarchy :=
    { closed := hclosed.hierarchy
      shared := hclosed.sharedByKind hshared
      lastLevel := hclosed.lastLevel
      memory := fun hmem => (Hierarchy.mem_system_iff.mp hmem).elim hmemory.2 hmemory.1
      agrees := n.agreesOff_resolved lookups }
  exact hresolved.wellLinked.checkTopology_eq_nil (named_resolved hclosed lookups)

/-- Three cores, of which any two share something: instructions and their translations, data, or
the second level. -/
def crosswiseSharing : List Document :=
  [[("num_cores", .ofNat 3),
    ("ooo_cpu", .array
      [.object [("L1I", .string "instructions"), ("ITLB", .string "buffer"),
          ("STLB", .string "translations"), ("L2C", .string "left")],
        .object [("L1I", .string "instructions"), ("ITLB", .string "buffer"),
          ("STLB", .string "translations"), ("L1D", .string "data"), ("L2C", .string "right")],
        .object [("L1D", .string "data"), ("L2C", .string "left")]])]]

open NormalizedConfiguration in
theorem checkTopology_of_crosswiseSharing :
    ∃ n, ofDocuments crosswiseSharing = .ok n ∧
      Hierarchy.SharedByKind ⟨n.cores, n.caches, n.walkers⟩ ∧
      (memorySentinel ∉ n.caches ∧ memorySentinel ∉ n.walkers) ∧ n.cores.length = 3 ∧
      (n.applyDefaults .nothing).hierarchy.checkTopology = [] := by
  have hcomputed : ∃ n, ofDocuments crosswiseSharing = .ok n ∧
      Hierarchy.SharedByKind ⟨n.cores, n.caches, n.walkers⟩ ∧
      (memorySentinel ∉ n.caches ∧ memorySentinel ∉ n.walkers) ∧ n.cores.length = 3 := by
    decide +kernel
  obtain ⟨n, hread, hshared, hmemory, hlength⟩ := hcomputed
  exact ⟨n, hread, hshared, hmemory, hlength,
    checkTopology_of_sharedByKind hread hshared hmemory .nothing⟩

/-- A record that stands in for the physical memory, beside one core with defaults. -/
def memoryRecord : List Document :=
  [[("caches", .array [.object [("name", .string memorySentinel)]])]]

open NormalizedConfiguration in
/-- Such a record takes the place of the memory at the end of data paths, and no link leads on. -/
theorem checkTopology_memoryRecord :
    ∃ n, ofDocuments memoryRecord = .ok n ∧
      Hierarchy.SharedByKind ⟨n.cores, n.caches, n.walkers⟩ ∧
      (n.applyDefaults .nothing).hierarchy.checkTopology =
        [.openDataPath "cpu0" "cpu0_L1I", .openDataPath "cpu0" "cpu0_L1D"] := by
  simp -zeta only [applyDefaults_eq_sorting]
  decide +kernel

end MemoryHierarchy
