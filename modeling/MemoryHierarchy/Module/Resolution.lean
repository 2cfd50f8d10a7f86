import MemoryHierarchy.Module.Set

/-!
# Finding the modules that records ask for

Records ask for modules by name. Each name is looked up once, in the order in which names first
appear; what is found goes into a set, and a name under which nothing is found is reported with the
first record that asked for it.
-/

namespace MemoryHierarchy

/-- A module that was found. -/
structure FoundModule where
  data : ModuleData
  /-- The manifest that was read for it, if that is malformed and was passed over. -/
  malformedManifest : Option Path

/-- What is reported while modules are looked up. -/
inductive ModuleWarning where
  /-- Nothing was found under a name that a record asked for. -/
  | notFound (kind : ModuleKind) (module record : String)
  /-- The manifest of a module was passed over. -/
  | malformedManifest (file : Path)

/-- The text of a report. -/
def ModuleWarning.message : ModuleWarning → String
  | notFound .. => "module not found on any search path; ignoring it"
  | malformedManifest _ => "ignoring malformed module manifest"

/-- A way to find the modules of one category: by name, and all together. Nothing is said of how the
two fit together, as a resolution uses each of them by itself. -/
structure ModuleLookup where
  find? : String → Option FoundModule
  /-- All modules that can be found, in the order of the search. -/
  all : List FoundModule

/-- Ways to find the modules of all categories. -/
structure ModuleLookups where
  lookup : ModuleKind → ModuleLookup
  /-- Are all modules compiled, or only those that are asked for? -/
  compileAll : Bool

namespace FoundModule

/-- What is reported of a module that was found. -/
def warnings (m : FoundModule) : List ModuleWarning :=
  m.malformedManifest.toList.map .malformedManifest

end FoundModule

/-- What has come of looking up names. Whether a name has been looked up is read off `set` and
`missing`; the log of the lookups, in their order, is what one sees of them from outside. -/
structure ModuleResolution where
  /-- What was found, each name that led to it an alias. -/
  set : ModuleSet
  /-- The names under which nothing was found. -/
  missing : NameSet
  /-- The names that have been looked up, in order. -/
  lookups : List String
  warnings : List ModuleWarning

namespace ModuleResolution

/-- Nothing has been looked up. -/
def start (kind : ModuleKind) : ModuleResolution := ⟨.empty kind, ∅, [], []⟩

/-- The names that records ask for in a slot, each with the record that asks, record by record. A
name that is asked for several times comes several times. -/
def requests (slot : String) (records : List Document) : List (String × String) :=
  records.flatMap fun record =>
    (record.names slot).map fun name => (name, record.name?.getD "<unnamed>")

/-- Looks a name up, unless it is the name of something already or is known to be missing. -/
def request (kind : ModuleKind) (lookup : ModuleLookup) (r : ModuleResolution)
    (request : String × String) : ModuleResolution :=
  let (name, record) := request
  if (r.set.resolve? name).isSome ∨ name ∈ r.missing then r
  else
    match lookup.find? name with
    | some found =>
      { r with
        set := r.set.insert (some name) found.data
        lookups := r.lookups ++ [name]
        warnings := r.warnings ++ found.warnings }
    | none =>
      { r with
        missing := r.missing.insert name
        lookups := r.lookups ++ [name]
        warnings := r.warnings ++ [.notFound kind name record] }

/-- Adds a module that no record has asked for. It takes the next bit unless a module of its name is
there, and no name in a record stands for it. -/
def discover (r : ModuleResolution) (found : FoundModule) : ModuleResolution :=
  { r with set := r.set.insert none found.data, warnings := r.warnings ++ found.warnings }

/-- Looks up the modules that records ask for in a slot, and under `compileAll` adds all others.
Modules that are asked for come first and have the smaller bits. -/
def resolve (kind : ModuleKind) (lookup : ModuleLookup) (compileAll : Bool) (slot : String)
    (records : List Document) : ModuleResolution :=
  let asked := (requests slot records).foldl (request kind lookup) (start kind)
  if compileAll then lookup.all.foldl discover asked else asked

end ModuleResolution

end MemoryHierarchy
