import MemoryHierarchy.Model.Basic
import MemoryHierarchy.Module.Dispatch

/-!
# The build fragment

The fragment has a block for every module: the directory of its objects, its sources, and its flags.
-/

namespace MemoryHierarchy

/-- A path with slashes only. Separators of either kind are written alike in the fragment. -/
def Path.slashed (p : Path) : String := p.text.map fun c => if c = '\\' then '/' else c

/-- What the build does for one module. Both directories are texts, as they stand in the fragment.
-/
structure ModuleBlock where
  kind : ModuleKind
  module : ModuleInfo
  /-- The directory of the objects. -/
  objects : String
  /-- The directory of the sources. -/
  source : String

namespace ModuleBlock

/-- The block of a module under a directory for all objects. The name of a module of a registry
holds no separator, so each block has a directory directly below the common one. -/
def ofModule (objectDirectory : Path) (kind : ModuleKind) (m : ModuleInfo) : ModuleBlock where
  kind := kind
  module := m
  objects := (objectDirectory.join ⟨m.name⟩).slashed
  source := m.data.path.slashed

/-- A flag for the objects of a block. It is a rule for all objects of the block, and for no others.
-/
def flagLine (b : ModuleBlock) (flag : String) : String :=
  b.objects ++ "/%.o: CPPFLAGS += " ++ flag

/-- The lines of a block in a build of the given identifier. -/
def lines (id : String) (b : ModuleBlock) : List String :=
  ["",
    "# " ++ b.kind.category ++ " module " ++ b.module.name
      ++ (if b.module.data.legacy then " (legacy)" else ""),
    id ++ "_dirs += " ++ b.objects,
    id ++ "_objs += $(patsubst " ++ b.source ++ "/%.cc," ++ b.objects ++ "/%.o,$(wildcard "
      ++ b.source ++ "/*.cc))",
    b.flagLine ("-I" ++ b.source)]
  ++ if b.module.data.legacy then (Dispatch.defineFlags b.kind b.module).map b.flagLine else []

end ModuleBlock

namespace BuildFragment

/-- The blocks of all modules. They come category by category, and in the order of the bits within
one. -/
def blocks (objectDirectory : Path) (catalog : ModuleCatalog) : List ModuleBlock :=
  catalog.sets.flatMap fun set => set.modules.map (.ofModule objectDirectory set.kind)

/-- The lines of the fragment of a model. -/
def lines (m : Model) : List String :=
  let environment := m.environment
  let id := environment.buildId
  ["# Generated by topogen. Do not edit.", id ++ "_dirs :=", id ++ "_objs :="]
  ++ (blocks environment.objectDirectory m.modules).flatMap (ModuleBlock.lines id)
  ++ ["", environment.executableName ++ ": $(" ++ id ++ "_objs)"]

end BuildFragment

end MemoryHierarchy
