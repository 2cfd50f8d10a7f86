import MemoryHierarchy.Configuration.Resolved
import MemoryHierarchy.Proofs.Hierarchy

/-!
# Resolutions that compute

Two passes of a resolution visit the records by their levels: the templates for what lies deep, and
the frequencies. They sort by merging, whose recursion is on the length of a list and does not
unfold when a closed term is evaluated, so a configuration cannot be resolved inside of a proof as
it stands.

Each pass, and each function above it up to `resolve`, therefore has a twin here with the same body
that takes the order of the records as an argument. With the order of `NameMap.byNumber` a twin is
the function itself, by definition; and `NameMap.byInsertion` is the same order, made by a
structural recursion. `resolve_eq_sorting` joins the two: after rewriting by it, what holds of the
resolution of given documents is decided by evaluation.
-/

namespace MemoryHierarchy

/-- The entries of a map by their numbers, sorted by insertion. -/
def NameMap.byInsertion (m : NameMap Nat) : List (String × Nat) :=
  m.toList.insertionSort fun a b => decide (a.2 ≤ b.2) = true

/-- Both ways of sorting are stable, so they agree on every map. -/
theorem NameMap.byNumber_eq_byInsertion : NameMap.byNumber = NameMap.byInsertion :=
  funext NameMap.byNumber_eq

section Sorting

variable (sort : NameMap Nat → List (String × Nat))

/-! ## The twins

Each twin is its original with the sorting function as an argument. Only the definitions between the
sort and the resolution need one. -/

/-- `completeDeeperLevels`, with the levels in a given order. -/
def Completion.completeDeeperLevelsSorting (c : Completion) (levels : NameMap Nat) : Completion :=
  let system := c.hierarchy.system
  let sharers := c.hierarchy.sharers
  let below := c.roles.toList.foldl (fun d (name, role) =>
    match system.target? lowerLevel name with
    | some target => completeBelow sharers target role d
    | none => d) c
  (sort levels).foldl (fun d (name, _) =>
    let n := sharers.getD name 1
    (d.completeCache name .llc n).completeWalker name n) below

namespace Hierarchy

/-- `complete`, with the levels in a given order. -/
def completeSorting (h : Hierarchy) : Hierarchy :=
  let seeded := Completion.seed h
  let levels := seeded.hierarchy.levels
  (seeded.completeSecondLevel.completeDeeperLevelsSorting sort levels).hierarchy.prune

/-- `frequencies`, with the levels in a given order. -/
def frequenciesSorting (h : Hierarchy) (levels : NameMap Nat) : NameMap Json :=
  let system := h.system
  let uppers := Record.uppers system.contains lowerLevel system.values
  ((sort levels).map Prod.fst).foldl (inheritFrequency h.coreClocks system uppers) ∅

/-- `withClocks`, with the levels in a given order. -/
def withClocksSorting (h : Hierarchy) (levels : NameMap Nat) (reference : Float) : Hierarchy :=
  let frequencies := h.frequenciesSorting sort levels
  let clocked (name : String) (record : Document) : Document :=
    withClockScale reference <|
      match frequencies[name]? with
      | some frequency => record.set "frequency" frequency
      | none => record
  (h.mapRecords clocked).mapCores (withClockScale reference)

end Hierarchy

namespace NormalizedConfiguration

/-- `completedHierarchy`, with the levels in a given order. -/
def completedHierarchySorting (n : NormalizedConfiguration) : Hierarchy :=
  let completed := n.hierarchy.completeSorting sort
  let levels := completed.levels
  let timed := completed.mapCaches fun _ cache => withHitLatency cache
  let clocked := timed.withClocksSorting sort levels n.referenceClock
  clocked.withAddresses levels ⟨n.constants.log2BlockSize, n.constants.log2PageSize⟩

/-- `resolve`, with the levels in a given order. -/
def resolveSorting (n : NormalizedConfiguration) (options : Options) (lookups : ModuleLookups) :
    Resolution :=
  let hierarchy := n.completedHierarchySorting sort
  let found := fun kind => hierarchy.resolveModules lookups kind
  let branch := found .branch
  let btb := found .btb
  let prefetcher := found .prefetcher
  let replacement := found .replacement
  let modules : ModuleCatalog := ⟨branch.set, btb.set, prefetcher.set, replacement.set⟩
  let resolved := hierarchy.withModules modules
  { configuration :=
      { root := n.resolvedRoot
        cores := resolved.cores
        caches := resolved.caches
        walkers := resolved.walkers
        physicalMemory := n.resolvedMemory
        virtualMemory := Document.mergeAll [n.virtualMemory, Template.virtualMemory]
        constants := n.constants
        modules
        environment := BuildEnvironment.ofRoot n.resolvedRoot options }
    warnings := branch.warnings ++ btb.warnings ++ prefetcher.warnings ++ replacement.warnings }

end NormalizedConfiguration

end Sorting

/-! ## The computable form

With insertion in place of merging the kernel evaluates a resolution of a fixed document. -/

namespace NormalizedConfiguration

variable (n : NormalizedConfiguration) (lookups : ModuleLookups)

/-- **A resolution in computable form.** -/
theorem resolve_eq_sorting (options : Options) :
    n.resolve options lookups = n.resolveSorting NameMap.byInsertion options lookups := by
  rw [← NameMap.byNumber_eq_byInsertion]
  rfl

/-- The configuration that is resolved under default options, in computable form. -/
theorem applyDefaults_eq_sorting :
    n.applyDefaults lookups =
      (n.resolveSorting NameMap.byInsertion {} lookups).configuration := by
  rw [applyDefaults, resolve_eq_sorting]

end NormalizedConfiguration

end MemoryHierarchy
