import MemoryHierarchy.Proofs.Resolution.Level
import MemoryHierarchy.Proofs.Resolution.Template

/-!
# What pruning leaves

Pruning follows lower levels from the first-level slots of the cores, through the system, in which a
cache hides a walker of the same name. So the lower level of a record of the system that is left is
left too. Nothing follows the links to what translates, nor the links of hidden walkers: what they
name is left where a core or the lower level of another record leads to it (`keeps_linked`).

Pruning comes after completion, which adds links but takes none away, and no later pass changes
names, slots or links.
-/

namespace MemoryHierarchy

/-- The records of a name are still there. A name may have a record in each of the maps, and then
both of them stay. -/
def Hierarchy.Keeps (before after : Hierarchy) (name : String) : Prop :=
  (name ∈ before.caches → name ∈ after.caches) ∧ (name ∈ before.walkers → name ∈ after.walkers)

theorem Completion.layeredOver_finished {h : Hierarchy} (hclosed : h.Closed) :
    h.LayeredOver (finished h).hierarchy :=
  layeredOver_completed hclosed _

namespace NormalizedConfiguration

open Completion (finished)

variable {n : NormalizedConfiguration} {name : String}

/-! ## The resolved hierarchy

Pruning is the last thing that takes a record away. Later passes keep all names and links, so what
is left can be read from the result. -/

theorem mem_caches_resolved_iff (hclosed : n.Closed) (lookups : ModuleLookups) (name : String) :
    name ∈ (n.applyDefaults lookups).caches ↔
      name ∈ (finished n.hierarchy).hierarchy.reachable ∧ name ∈ n.caches := by
  have hlate := (n.agreesOff_resolved lookups).caches.mem_iff name
  have hcompleted := (Completion.layeredOver_finished hclosed.hierarchy).caches.mem_iff name
  rw [← Completion.prune_finished, Hierarchy.mem_caches_prune_iff, ← hcompleted] at hlate
  exact hlate.symm

theorem mem_walkers_resolved_iff (hclosed : n.Closed) (lookups : ModuleLookups) (name : String) :
    name ∈ (n.applyDefaults lookups).walkers ↔
      name ∈ (finished n.hierarchy).hierarchy.reachable ∧ name ∈ n.walkers := by
  have hlate := (n.agreesOff_resolved lookups).walkers.mem_iff name
  have hcompleted := (Completion.layeredOver_finished hclosed.hierarchy).walkers.mem_iff name
  rw [← Completion.prune_finished, Hierarchy.mem_walkers_prune_iff, ← hcompleted] at hlate
  exact hlate.symm

/-- The links of the resolved hierarchy are those between the records that were reached. -/
theorem target?_resolved (n : NormalizedConfiguration) (lookups : ModuleLookups) {link : String}
    (hlink : link ∉ lateKeys) (name : String) :
    (n.applyDefaults lookups).hierarchy.system.target? link name =
      (finished n.hierarchy).hierarchy.reachable.target? link name := by
  rw [(n.agreesOff_resolved lookups).target?_eq hlink, ← Completion.prune_finished,
    Hierarchy.system_prune]

theorem roots_resolved (n : NormalizedConfiguration) (lookups : ModuleLookups) :
    (n.applyDefaults lookups).hierarchy.roots = (finished n.hierarchy).hierarchy.roots :=
  -- pruning has left the cores as they were
  (n.agreesOff_resolved lookups).roots (by decide)

theorem roots_resolved_eq (hclosed : n.Closed) (lookups : ModuleLookups) :
    (n.applyDefaults lookups).hierarchy.roots = n.hierarchy.roots :=
  (roots_resolved n lookups).trans (Completion.layeredOver_finished hclosed.hierarchy).roots_eq

/-! ## Names that are kept

A record is kept for its place below a core along links to the next level. Links to what translates
do not count, so such a link may lead to a record that is gone. -/

/-- What is kept is what was reached. -/
theorem keeps_iff_reached (hclosed : n.Closed) (lookups : ModuleLookups)
    (hmem : name ∈ n.hierarchy.system) :
    n.hierarchy.Keeps (n.applyDefaults lookups).hierarchy name ↔
      name ∈ (finished n.hierarchy).hierarchy.reachable := by
  have hcaches := mem_caches_resolved_iff hclosed lookups name
  have hwalkers := mem_walkers_resolved_iff hclosed lookups name
  constructor
  · rintro ⟨hcache, hwalker⟩
    rcases Hierarchy.mem_system_iff.mp hmem with hname | hname
    · exact (hwalkers.mp (hwalker hname)).1
    · exact (hcaches.mp (hcache hname)).1
  · intro hreached
    exact ⟨fun hname => hcaches.mpr ⟨hreached, hname⟩, fun hname => hwalkers.mpr ⟨hreached, hname⟩⟩

/-- **What is kept is named by a core on the first level or is the lower level of what is kept.**
What is left are the reachable records, and the last link on the way to a record comes from one that
is left too. -/
theorem keeps_iff_linked (hclosed : n.Closed) (lookups : ModuleLookups)
    (hmem : name ∈ n.hierarchy.system) :
    n.hierarchy.Keeps (n.applyDefaults lookups).hierarchy name ↔
      name ∈ (n.applyDefaults lookups).hierarchy.roots ∨
        ∃ upper, (n.applyDefaults lookups).hierarchy.system.target? lowerLevel upper =
          some name := by
  have hcompleted := Completion.layeredOver_finished hclosed.hierarchy
  have hnamed := (hcompleted.closed hclosed.hierarchy).system_named
  have hknown : name ∈ (finished n.hierarchy).hierarchy.system := hcompleted.mem_system_iff.mp hmem
  simp only [target?_resolved n lookups (by decide : lowerLevel ∉ lateKeys)]
  rw [keeps_iff_reached hclosed lookups hmem, roots_resolved,
    Hierarchy.mem_reachable_iff_linked hnamed hknown]

end NormalizedConfiguration

open NormalizedConfiguration in
/-- **Links of what is left.** Of a record of the system that is left, the lower level is left, and
what translates for a record that is left is left just in case a core names it on the first level or
it is the lower level of a record of the system. -/
theorem keeps_linked {docs : List Document} {n : NormalizedConfiguration}
    (hread : ofDocuments docs = .ok n) (lookups : ModuleLookups) :
    let resolved := (n.applyDefaults lookups).hierarchy
    ∀ (name : String) (record : Document),
      resolved.caches[name]? = some record ∨ resolved.walkers[name]? = some record →
      ∀ target ∈ n.hierarchy.system,
        (record.string? lowerLevel = some target → resolved.system[name]? = some record →
          n.hierarchy.Keeps resolved target) ∧
        (record.string? lowerTranslate = some target →
          (n.hierarchy.Keeps resolved target ↔ target ∈ resolved.roots ∨
            ∃ upper, resolved.system.target? lowerLevel upper = some target)) := by
  intro resolved name record _ target htarget
  have hkept := keeps_iff_linked (closed_of_ofDocuments hread) lookups htarget
  refine ⟨fun hlower hget => ?_, fun _ => hkept⟩
  have hop : resolved.system.target? lowerLevel name = some target :=
    (RecordMap.target?_of_getElem? hget).trans hlower
  -- the record itself is the one that links to the target
  exact hkept.mpr (Or.inr ⟨name, hop⟩)

/-- One core that translates by its walker alone, with a walker that has the name of its first-level
instruction cache and links to a cache that nothing else links to. -/
def prunedTargets : List Document :=
  [[("caches", .array [
      .object [("name", .string "cpu0_ITLB"), ("lower_level", .string "cpu0_PTW")],
      .object [("name", .string "cpu0_DTLB"), ("lower_level", .string "cpu0_PTW")],
      .object [("name", .string "orphan")]]),
    ("ptws", .array [
      .object [("name", .string "cpu0_L1I"), ("lower_level", .string "orphan")]])]]

open NormalizedConfiguration in
/-- The lower level of the data cache is left. Its translation buffer is left, because a core names
it. -/
theorem keeps_linked_prunedTargets :
    ∃ n, ofDocuments prunedTargets = .ok n ∧
      n.hierarchy.Keeps (n.applyDefaults .nothing).hierarchy "cpu0_L2C" ∧
      n.hierarchy.Keeps (n.applyDefaults .nothing).hierarchy "cpu0_DTLB" := by
  have hcomputed : ∃ n, ofDocuments prunedTargets = .ok n ∧
      "cpu0_L2C" ∈ n.hierarchy.system ∧ "cpu0_DTLB" ∈ n.hierarchy.system ∧
      "cpu0_DTLB" ∈ (n.applyDefaults .nothing).hierarchy.roots ∧
      "cpu0_L1D" ∈ (n.applyDefaults .nothing).caches ∧
      (((n.applyDefaults .nothing).caches["cpu0_L1D"]?.getD []).string? lowerLevel =
        some "cpu0_L2C") ∧
      (((n.applyDefaults .nothing).caches["cpu0_L1D"]?.getD []).string? lowerTranslate =
        some "cpu0_DTLB") := by
    simp -zeta only [applyDefaults_eq_sorting]
    decide +kernel
  obtain ⟨n, hread, hsecond, hbuffer, hroot, hcache, hlower, htranslate⟩ := hcomputed
  obtain ⟨record, hget⟩ := NameMap.mem_iff_exists.mp hcache
  rw [hget, Option.getD_some] at hlower htranslate
  have hlinks := keeps_linked hread .nothing "cpu0_L1D" record (Or.inl hget)
  refine ⟨n, hread, ?_, ?_⟩
  · exact (hlinks "cpu0_L2C" hsecond).1 hlower (Hierarchy.getElem?_system_of_cache hget)
  · exact ((hlinks "cpu0_DTLB" hbuffer).2 htranslate).mpr (Or.inl hroot)

open NormalizedConfiguration in
/-- The second-level translation buffer that translates for the second-level cache is not left, nor
is the cache that the hidden walker links to. -/
theorem not_keeps_prunedTargets :
    ∃ n, ofDocuments prunedTargets = .ok n ∧
      (RecordMap.target? (n.applyDefaults .nothing).caches lowerTranslate "cpu0_L2C" =
          some "cpu0_STLB" ∧
        "cpu0_STLB" ∈ n.caches ∧ "cpu0_STLB" ∉ (n.applyDefaults .nothing).hierarchy.system) ∧
      RecordMap.target? (n.applyDefaults .nothing).walkers lowerLevel "cpu0_L1I" =
          some "orphan" ∧
        "orphan" ∈ n.caches ∧ "orphan" ∉ (n.applyDefaults .nothing).hierarchy.system := by
  simp -zeta only [applyDefaults_eq_sorting]
  decide +kernel

end MemoryHierarchy
