import MemoryHierarchy.Configuration.Normalized
import MemoryHierarchy.Module.Registry
import MemoryHierarchy.Resolution.Addressing
import MemoryHierarchy.Resolution.Template
import MemoryHierarchy.Resolution.Timing

/-!
# Resolved configurations

`applyDefaults` completes a normalized configuration: templates, depths, clocks, addresses, and the
modules that records ask for. It never fails; what cannot be resolved is left for the checks.
-/

namespace MemoryHierarchy

/-- Numbers that concern the whole system. The defaults are those of an empty root. -/
structure Constants where
  blockSize : Nat := Template.blockSize
  pageSize : Nat := Template.pageSize
  heartbeatFrequency : Nat := Template.heartbeatFrequency
  coreCount : Nat := 1
  log2BlockSize : Nat := 6
  log2PageSize : Nat := 12
deriving DecidableEq

/-- The constants of a root with a number of cores. The logarithms are rounded down, and that of
zero is zero. -/
def Constants.ofRoot (root : Document) (coreCount : Nat) : Constants :=
  let blockSize := (root.natural? "block_size").getD Template.blockSize
  let pageSize := (root.natural? "page_size").getD Template.pageSize
  { blockSize
    pageSize
    heartbeatFrequency := (root.natural? "heartbeat_frequency").getD Template.heartbeatFrequency
    coreCount
    log2BlockSize := blockSize.log2
    log2PageSize := pageSize.log2 }

/-- What the build needs to know. None of it is part of the hierarchy. -/
structure BuildEnvironment where
  configName : Option String := none
  executableName : String := Template.executableName
  buildId : String := Options.defaultBuildId
  objectDirectory : Path := ({} : Options).objectDirectory
deriving DecidableEq

/-- The build environment of a root under options. -/
def BuildEnvironment.ofRoot (root : Document) (options : Options) : BuildEnvironment :=
  let configName := root.string? "name"
  { configName
    executableName := (root.string? "executable_name").getD Template.executableName
    buildId := options.buildIdFor configName
    objectDirectory := options.objectDirectory }

/-- A configuration with all defaults. Records are documents still: what they hold is checked, and
typed, afterwards. -/
structure ResolvedConfiguration where
  root : Document := []
  cores : List Document := []
  caches : RecordMap := ∅
  walkers : RecordMap := ∅
  physicalMemory : Document := []
  virtualMemory : Document := []
  constants : Constants := {}
  modules : ModuleCatalog := {}
  environment : BuildEnvironment := {}

/-- The hierarchy of a configuration. -/
def ResolvedConfiguration.hierarchy (r : ResolvedConfiguration) : Hierarchy :=
  ⟨r.cores, r.caches, r.walkers⟩

/-- A resolved configuration with what was reported while its modules were looked up. -/
structure Resolution where
  configuration : ResolvedConfiguration
  warnings : List ModuleWarning

namespace Hierarchy

/-- The records that can ask for modules of a category, in the order in which they ask: cores by
place, and caches by name. -/
def askers (h : Hierarchy) (kind : ModuleKind) : List Document :=
  match Host.of kind with
  | .core => h.cores
  | .cache => h.caches.values

/-- Looks up the modules of a category. -/
def resolveModules (h : Hierarchy) (lookups : ModuleLookups) (kind : ModuleKind) :
    ModuleResolution :=
  ModuleResolution.resolve kind (lookups.lookup kind) lookups.compileAll kind.slot (h.askers kind)

/-- Puts the names of modules into the slot of a record. Names that stand for no module are dropped,
and a slot that held no names holds an empty list afterwards. -/
def withModuleNames (set : ModuleSet) (record : Document) : Document :=
  let slot := set.kind.slot
  record.set slot (.ofStrings (set.enabledFor (record.names slot)))

/-- Puts the names of modules into the slots of all records. -/
def withModules (h : Hierarchy) (catalog : ModuleCatalog) : Hierarchy :=
  let core (record : Document) : Document :=
    withModuleNames catalog.btb (withModuleNames catalog.branch record)
  let cache (_ : String) (record : Document) : Document :=
    withModuleNames catalog.replacement (withModuleNames catalog.prefetcher record)
  (h.mapCores core).mapCaches cache

end Hierarchy

namespace NormalizedConfiguration

/-- The root with defaults. The number of cores is a default here, whatever the documents ask for.
-/
def resolvedRoot (n : NormalizedConfiguration) : Document :=
  Document.mergeAll [n.root, Template.root]

/-- The physical memory with defaults. -/
def resolvedMemory (n : NormalizedConfiguration) : Document :=
  Document.mergeAll [n.physicalMemory, Template.physicalMemory]

/-- The hierarchy with defaults for cores. -/
def hierarchy (n : NormalizedConfiguration) : Hierarchy where
  cores := n.cores.map fun core => Document.mergeAll [core, Template.core]
  caches := n.caches
  walkers := n.walkers

/-- The constants of a configuration. The number of cores is that of the cores there are. -/
def constants (n : NormalizedConfiguration) : Constants :=
  Constants.ofRoot n.resolvedRoot n.cores.length

/-- The clock that all others are set in relation to, which is that of the memory controller. -/
def referenceClock (n : NormalizedConfiguration) : Float :=
  (n.resolvedMemory.float? "frequency").getD (Number.nearestFloat Template.memoryFrequency)

/-- The hierarchy with everything but modules. Depths are taken once, from the completed hierarchy:
no pass after that changes a link to a next level. -/
def completedHierarchy (n : NormalizedConfiguration) : Hierarchy :=
  let completed := n.hierarchy.complete
  let levels := completed.levels
  let timed := completed.mapCaches fun _ cache => withHitLatency cache
  let clocked := timed.withClocks levels n.referenceClock
  clocked.withAddresses levels ⟨n.constants.log2BlockSize, n.constants.log2PageSize⟩

/-- Completes a configuration under options, with what is reported on the way. Each category of
modules is looked up by itself, and the names that were found go into the slots of all records at
the end. -/
def resolve (n : NormalizedConfiguration) (options : Options) (lookups : ModuleLookups) :
    Resolution :=
  let hierarchy := n.completedHierarchy
  let found := fun kind => hierarchy.resolveModules lookups kind
  let branch := found .branch
  let btb := found .btb
  let prefetcher := found .prefetcher
  let replacement := found .replacement
  let modules : ModuleCatalog := ⟨branch.set, btb.set, prefetcher.set, replacement.set⟩
  let resolved := hierarchy.withModules modules
  { configuration :=
      { root := n.resolvedRoot
        cores := resolved.cores
        caches := resolved.caches
        walkers := resolved.walkers
        physicalMemory := n.resolvedMemory
        virtualMemory := Document.mergeAll [n.virtualMemory, Template.virtualMemory]
        constants := n.constants
        modules
        environment := BuildEnvironment.ofRoot n.resolvedRoot options }
    warnings := branch.warnings ++ btb.warnings ++ prefetcher.warnings ++ replacement.warnings }

/-- Completes a configuration under default options. -/
def applyDefaults (n : NormalizedConfiguration) (lookups : ModuleLookups) : ResolvedConfiguration :=
  (n.resolve {} lookups).configuration

end NormalizedConfiguration

end MemoryHierarchy
