import MemoryHierarchy.Artifact.Text
import MemoryHierarchy.Module.Dispatch

/-!
# Module glue

The glue is read three times: in the core class, in the cache class, and outside of both. A symbol
selects the section for each.
-/

namespace MemoryHierarchy.Glue

/-- The symbol of the section for the core class. -/
def coreSymbol : String := "TOPOGEN_O3_CPU_MEMBERS"

/-- The symbol of the section for the cache class. -/
def cacheSymbol : String := "TOPOGEN_CACHE_MEMBERS"

/-- The members of a host. A host has members for all categories that it calls, also where no module
is compiled. -/
def memberLines (catalog : ModuleCatalog) (host : Host) : List String :=
  host.kinds.flatMap fun kind => Dispatch.memberLines (catalog.get kind)

/-- The selectors of the modules made of free functions. Modules that are classes have none. -/
def selectorLines (set : ModuleSet) : List String :=
  set.legacy.flatMap fun m => "" :: Dispatch.selectorLines set.kind m

/-- The lines of the glue of a catalog. Constants and selectors stand outside of both classes, in
front of the functions that use them. -/
def lines (catalog : ModuleCatalog) : List String :=
  [generatedHeader, "#if defined(" ++ coreSymbol ++ ")"]
  ++ memberLines catalog .core
  ++ ["#elif defined(" ++ cacheSymbol ++ ")"]
  ++ memberLines catalog .cache
  ++ ["#else", "#include <cstdint>", "#include <utility>"]
  ++ catalog.sets.flatMap (fun set => "" :: Dispatch.constantLines set)
  ++ catalog.sets.flatMap selectorLines
  ++ catalog.sets.flatMap (fun set => "" :: Dispatch.definitionLines set)
  ++ ["#endif"]

end MemoryHierarchy.Glue
