import MemoryHierarchy.Module.Resolution
import MemoryHierarchy.Options

/-!
# Modules in directories

A registry searches the modules of one category in an ordered list of directories. A module is a
directory; a marker file in it says that it is made of free functions, and a manifest may give those
functions other symbols.
-/

namespace MemoryHierarchy

/-- The directories in which the modules of one category are searched, first to last. -/
structure ModuleRegistry where
  kind : ModuleKind
  /-- The directory to which the names of modules are relative. -/
  root : Path
  directories : List Path

namespace ModuleRegistry

/-- The file that marks a module made of free functions. -/
def legacyMarker : Path := ⟨"__legacy__"⟩

/-- The file that gives symbols to a module's functions. -/
def manifestFile : Path := ⟨"module.json"⟩

/-- The registry of a category: the directories of the configuration, then those of the user, then
the built-in ones below the module root. -/
def ofOptions (kind : ModuleKind) (options : Options) (configured : List Path) :
    ModuleRegistry where
  kind := kind
  root := options.moduleRoot
  directories :=
    configured ++ options.userDirectories.get kind
      ++ (options.builtinDirectories.get kind).map options.moduleRoot.join

/-- Reads a field of a manifest: the symbol of a function. -/
def symbolField? (field : String × Json) : Option (String × String) :=
  field.2.string?.map fun s => (field.1, s)

/-- The fields of a manifest, each with the reader of its value. Other fields are passed over,
whatever they hold. -/
def manifestFields : List (String × Json.Reader Json) :=
  [("func_map", Json.readValue Json.maxDepth)]

/-- The symbols that a manifest gives to functions, last ones first to be looked up. -/
def symbolsOfManifest? (value : Json) : Option (List (String × String)) := do
  match ← Options.fieldValues? (manifestFields.map Prod.fst) value with
  | [none] => some []
  | [some (.object fields)] => fields.mapM symbolField?
  | _ => none

/-- The symbols that the manifest of a module gives, and whether the manifest is sound. A module
without a manifest that can be read gives none. -/
def manifestSymbols (fs : FileSystem) (module : Path) : List (String × String) × Bool :=
  match fs.read (module.join manifestFile) with
  | .error _ => ([], true)
  | .ok text =>
    match (Json.readAll? (Json.readKnown manifestFields) text).bind symbolsOfManifest? with
    | some symbols => (symbols, true)
    | none => ([], false)

/-- The module in a directory. The symbols of its functions are those that are made from its name,
unless the manifest gives others; a class is named after the directory itself. -/
def moduleAt (r : ModuleRegistry) (fs : FileSystem) (directory : Path) : FoundModule :=
  let name := Module.nameOf directory r.root
  let (symbols, sound) := manifestSymbols fs directory
  { data :=
      { name
        path := directory
        className := directory.fileName?.getD name
        legacy := fs.isThere (directory.join legacyMarker)
        functions := symbols.foldl (fun m (function, symbol) => m.insert function symbol)
          (Module.symbols r.kind name) }
    malformedManifest := if sound then none else some (directory.join manifestFile) }

/-- The directories that a name may mean: below each directory of the registry, then by itself. The
last one is relative to the working directory. -/
def candidates (r : ModuleRegistry) (name : String) : List Path :=
  r.directories.map (·.join ⟨name⟩) ++ [⟨name⟩]

/-- The module that a name means, which is in the first candidate that is a directory. Nothing is
asked of what is in it. -/
def find? (r : ModuleRegistry) (fs : FileSystem) (name : String) : Option FoundModule :=
  ((r.candidates name).find? fs.isDirectory).map (r.moduleAt fs)

/-- The modules below one directory of the registry, by name. -/
def modulesBelow (r : ModuleRegistry) (fs : FileSystem) (directory : Path) : List FoundModule :=
  (fs.subdirectories directory).map fun name => r.moduleAt fs (directory.join ⟨name⟩)

/-- All modules of the registry, directory by directory. A directory of the registry that is missing
has none. -/
def all (r : ModuleRegistry) (fs : FileSystem) : List FoundModule :=
  r.directories.flatMap (r.modulesBelow fs)

/-- A registry as a way to find modules in a file system. -/
def lookup (r : ModuleRegistry) (fs : FileSystem) : ModuleLookup where
  find? := r.find? fs
  all := r.all fs

end ModuleRegistry

namespace ModuleLookups

/-- The ways to find modules in a file system that options and the root of a configuration give. -/
def ofOptions (fs : FileSystem) (options : Options) (root : Document) : ModuleLookups where
  lookup kind :=
    let configured := (root.names kind.directoriesKey).map Path.mk
    (ModuleRegistry.ofOptions kind options configured).lookup fs
  compileAll := options.compileAll

end ModuleLookups

end MemoryHierarchy
