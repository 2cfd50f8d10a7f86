import MemoryHierarchy.Configuration.Resolved
import MemoryHierarchy.Model.Record

/-!
# The model

A resolved configuration all of whose records have their types, `Model.ofResolved`. Before it is
built, every chain of lower levels is followed to its end; a chain that has none is refused.
-/

namespace MemoryHierarchy

/-- A configuration of typed records. -/
structure Model where
  /-- The cores in the order of their index. -/
  cores : List Core
  caches : NameMap Cache
  walkers : NameMap Walker
  physicalMemory : PhysicalMemory
  virtualMemory : VirtualMemory
  constants : Constants
  modules : ModuleCatalog
  environment : BuildEnvironment

namespace Model

/-- Names the record that does not fit its type. -/
def convert {α : Type} (record : String) (result : Except ConversionError α) :
    Except CompileError α :=
  result.mapError (.model record)

/-- The first name whose chain of lower levels has no end, with the chain. A model is refused for it
before any record is looked at. -/
def firstCycle? (system : RecordMap) : Option (String × List String) :=
  system.keys.findSome? fun start =>
    (system.findCycle? lowerLevel start).map fun chain => (start, chain)

/-- The name of a core in errors. -/
def shownCore (core : Document) (index : Nat) : String :=
  core.name?.getD ("ooo_cpu[" ++ toString index ++ "]")

/-- Types the records of a map, in the order of their names. The first record that does not fit is
named in the error. -/
def typedMap {α : Type} (read : Document → Except ConversionError α) (records : RecordMap) :
    Except CompileError (NameMap α) := do
  let typed ← records.toList.mapM fun (name, record) => do
    pure (name, ← convert name (read record))
  pure (Std.ExtTreeMap.ofList typed)

/-- Types all records of a configuration: cores, caches, walkers, and then the memories. Constants,
modules and the build environment are taken over as they are. -/
def ofResolved (r : ResolvedConfiguration) : Except CompileError Model := do
  match firstCycle? r.hierarchy.system with
  | some (start, chain) => throw (.cycle start chain)
  | none => pure ()
  let cores ← r.cores.zipIdx.mapM fun (core, index) =>
    convert (shownCore core index) (Core.ofDocument core)
  pure {
    cores
    caches := ← typedMap Cache.ofDocument r.caches
    walkers := ← typedMap Walker.ofDocument r.walkers
    physicalMemory := ← convert (r.physicalMemory.name?.getD "physical_memory")
      (PhysicalMemory.ofDocument r.physicalMemory)
    virtualMemory := ← convert virtualMemoryName (VirtualMemory.ofDocument r.virtualMemory)
    constants := r.constants
    modules := r.modules
    environment := r.environment }

end Model

end MemoryHierarchy
