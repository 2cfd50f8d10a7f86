import MemoryHierarchy.Proofs.Configuration.Normalized
import MemoryHierarchy.Proofs.Resolution.Frame
import MemoryHierarchy.Proofs.Resolution.Seed
import MemoryHierarchy.Proofs.Resolution.Shared

/-!
# Levels of the resolved hierarchy

Levels are computed on what pruning has left. All of that is still reached from the cores, so every
record has a level; and no later pass changes a link, so the levels grow along the links of the
resolved hierarchy wherever these have no cycle (`levelsGrow_resolved`).
-/

namespace MemoryHierarchy

/-- What pruning leaves has a level. -/
theorem Hierarchy.mem_levels_prune {h : Hierarchy} (hnamed : h.system.Named) {name : String}
    (hmem : name ∈ h.prune.system) : name ∈ h.prune.levels := by
  have hnamed' : h.prune.system.Named := by
    rw [system_prune]
    exact hnamed.accessible _ _
  rw [system_prune] at hmem
  rw [mem_levels_iff hnamed', mem_reachable_iff hnamed', system_prune]
  exact RecordMap.reachedFrom_accessible hnamed hmem

/-- Until it is pruned, completion only puts layers below records. -/
theorem Completion.layeredOver_completed {h : Hierarchy} (hclosed : h.Closed)
    (levels : NameMap Nat) :
    h.LayeredOver ((seed h).completeSecondLevel.completeDeeperLevels levels).hierarchy := by
  have hseed := (seeding_seed hclosed).layeredOver
  have hsecond := hseed.trans (layeredOver_completeSecondLevel (hseed.closed hclosed))
  exact hsecond.trans (layeredOver_completeDeeperLevels (hsecond.closed hclosed) levels)

theorem Completion.closed_completed {h : Hierarchy} (hclosed : h.Closed) (levels : NameMap Nat) :
    ((seed h).completeSecondLevel.completeDeeperLevels levels).hierarchy.Closed :=
  (layeredOver_completed hclosed levels).closed hclosed

namespace Hierarchy

variable {h : Hierarchy}

theorem named_complete (hclosed : h.Closed) : h.complete.Named :=
  (Completion.closed_completed hclosed _).named.prune

theorem mem_levels_complete (hclosed : h.Closed) {name : String}
    (hmem : name ∈ h.complete.system) : name ∈ h.complete.levels :=
  mem_levels_prune (Completion.closed_completed hclosed _).system_named hmem

end Hierarchy

/-- The level that a record has been given is below that of the record it links to. -/
def Hierarchy.LevelsGrow (h : Hierarchy) : Prop :=
  ∀ (name next : String) (record below : Document), h.system[name]? = some record →
    record.string? lowerLevel = some next → h.system[next]? = some below →
    ∃ level deeper : Nat, record.get? "fill_level" = some (.ofNat level) ∧
      below.get? "fill_level" = some (.ofNat deeper) ∧ level < deeper

namespace NormalizedConfiguration

variable {n : NormalizedConfiguration} {lookups : ModuleLookups}

/-- Resolved records carry the names they are found under. -/
theorem hierarchy_named_resolved (hclosed : n.Closed) (lookups : ModuleLookups) :
    (n.applyDefaults lookups).hierarchy.Named :=
  (n.agreesOff_resolved lookups).named (by decide) (Hierarchy.named_complete hclosed.hierarchy)

theorem named_resolved (hclosed : n.Closed) (lookups : ModuleLookups) :
    (n.applyDefaults lookups).hierarchy.system.Named :=
  (hierarchy_named_resolved hclosed lookups).system

/-- What is left has a level. -/
theorem exists_level_resolved (hclosed : n.Closed) {name : String} {record : Document}
    (hget : (n.applyDefaults lookups).caches[name]? = some record ∨
      (n.applyDefaults lookups).walkers[name]? = some record) :
    ∃ level, n.hierarchy.complete.levels[name]? = some level := by
  have hagrees := n.agreesOff_resolved lookups
  have hmem : name ∈ n.hierarchy.complete.system := by
    rw [Hierarchy.mem_system_iff, hagrees.caches.mem_iff, hagrees.walkers.mem_iff]
    exact hget.symm.imp (fun hget => NameMap.mem_iff_exists.mpr ⟨record, hget⟩)
      fun hget => NameMap.mem_iff_exists.mpr ⟨record, hget⟩
  exact NameMap.mem_iff_exists.mp (Hierarchy.mem_levels_complete hclosed.hierarchy hmem)

/-- **Without cycles the levels of the resolved hierarchy grow along its links.** The levels that
are written are those of the resolved map, as later passes leave its links alone. -/
theorem levelsGrow_resolved (hclosed : n.Closed)
    (hacyclic : (n.applyDefaults lookups).hierarchy.system.Acyclic lowerLevel) :
    (n.applyDefaults lookups).hierarchy.LevelsGrow := by
  intro name next record below hget hlink hbelow
  have hlinks : RecordMap.SameLinks lowerLevel n.hierarchy.complete.system
      (n.applyDefaults lookups).hierarchy.system :=
    (n.agreesOff_resolved lookups).sameLinks (by decide)
  -- levels were computed on the completed hierarchy, which has the same links
  have hname := (hlinks.mem_iff name).mpr (NameMap.mem_iff_exists.mpr ⟨record, hget⟩)
  have hnext := (hlinks.mem_iff next).mpr (NameMap.mem_iff_exists.mpr ⟨below, hbelow⟩)
  have hop : n.hierarchy.complete.system.target? lowerLevel name = some next := by
    rw [hlinks.target?_iff name next hnext, RecordMap.target?_of_getElem? hget]
    exact hlink
  obtain ⟨level, hlevel⟩ :=
    NameMap.mem_iff_exists.mp (Hierarchy.mem_levels_complete hclosed.hierarchy hname)
  have hnamed := (Hierarchy.named_complete hclosed.hierarchy).system
  obtain ⟨deeper, hdeeper, hlt⟩ :=
    RecordMap.exists_fillLevel_gt hnamed (hlinks.symm.acyclic hacyclic) hlevel hop hnext
  refine ⟨level, deeper, ?_, ?_, hlt⟩
  · exact get?_fillLevel_resolved (Hierarchy.getElem?_or_of_system hget) hlevel
  · exact get?_fillLevel_resolved (Hierarchy.getElem?_or_of_system hbelow) hdeeper

end NormalizedConfiguration

end MemoryHierarchy
