import MemoryHierarchy.Error
import MemoryHierarchy.Json.KnownFields
import MemoryHierarchy.Module.Kind

/-!
# Options

Options steer a compilation without being part of the hierarchy: where modules are found, where
objects go, and how the build is called. They are read from a JSON file in which every field may be
left out, and of which only the fields of options are read; `Options.ofJson?` takes a mapping, or a
list of the fields in their order.
-/

namespace MemoryHierarchy

/-- The directories in which modules of each category are searched. They are searched in the order
in which they are listed. -/
structure ModuleDirectories where
  branch : List Path := []
  btb : List Path := []
  prefetcher : List Path := []
  replacement : List Path := []
deriving DecidableEq

namespace ModuleDirectories

/-- One directory for each category, named after it. -/
def builtin : ModuleDirectories where
  branch := [⟨"branch"⟩]
  btb := [⟨"btb"⟩]
  prefetcher := [⟨"prefetcher"⟩]
  replacement := [⟨"replacement"⟩]

/-- The directories of a category. -/
def get (d : ModuleDirectories) : ModuleKind → List Path
  | .branch => d.branch
  | .btb => d.btb
  | .prefetcher => d.prefetcher
  | .replacement => d.replacement

/-- Adds directories behind those that are there. Nothing is dropped, and directories may come
twice. -/
def extend (d more : ModuleDirectories) : ModuleDirectories where
  branch := d.branch ++ more.branch
  btb := d.btb ++ more.btb
  prefetcher := d.prefetcher ++ more.prefetcher
  replacement := d.replacement ++ more.replacement

/-- The directories of all categories as a document. -/
def document (d : ModuleDirectories) : Document :=
  ModuleKind.all.map fun kind => (kind.category, .ofStrings ((d.get kind).map (·.text)))

end ModuleDirectories

/-- What steers a compilation. Every field has a default, which is also that of a file in which it
is left out. -/
structure Options where
  /-- The directory to which the names of modules are relative. -/
  moduleRoot : Path := ⟨"."⟩
  /-- Where objects go. -/
  objectDirectory : Path := ⟨".csconfig"⟩
  /-- What the variables of the build fragment begin with. -/
  buildId : Option String := none
  /-- Are all modules compiled, or only those that records ask for? -/
  compileAll : Bool := false
  /-- Directories below the module root, searched last. -/
  builtinDirectories : ModuleDirectories := .builtin
  /-- Directories that are searched first. -/
  userDirectories : ModuleDirectories := {}
deriving DecidableEq

namespace Options

/-- The build identifier where neither options nor configuration have one. -/
def defaultBuildId : String := "default"

/-- The build identifier of a configuration: that of the options, or its name, or the default. -/
def buildIdFor (o : Options) (configName : Option String) : String :=
  (o.buildId.or configName).getD defaultBuildId

/-- Options as a document. -/
def document (o : Options) : Document :=
  [("module_root", .string o.moduleRoot.text),
    ("objdir", .string o.objectDirectory.text),
    ("build_id", match o.buildId with
      | some id => .string id
      | none => .null),
    ("compile_all_modules", .bool o.compileAll),
    ("builtin_dirs", .object o.builtinDirectories.document),
    ("user_dirs", .object o.userDirectories.document)]

/--
The values that a mapping or a list gives for fields that may each be left out, in the order of the
fields. A key that is no field is passed over; a field that is given twice, or a list that is longer
than the fields, is refused.
-/
def fieldValues? (fields : List String) : Json → Option (List (Option Json))
  | .object written =>
    let known := (written.map Prod.fst).filter (· ∈ fields)
    if known.Nodup then some (fields.map fun field => written.lookup field) else none
  | .array items =>
    if items.length ≤ fields.length then
      some (items.map some ++ List.replicate (fields.length - items.length) none)
    else none
  | _ => none

/-- Reads a field that has a default. -/
def orDefault {α : Type} (read : Json → Option α) (default : α) : Option Json → Option α
  | some value => read value
  | none => some default

/-- Reads a path. -/
def path? (value : Json) : Option Path := value.string?.map Path.mk

/-- Reads a list of paths. One item that is no string makes the list unreadable. -/
def paths? : Json → Option (List Path)
  | .array items => items.mapM path?
  | _ => none

/-- The fields of module directories, each with the reader of its value. -/
def directoryFields : List (String × Json.Reader Json) :=
  ModuleKind.all.map fun kind => (kind.category, Json.readValue Json.maxDepth)

/-- Reads the directories of all categories; a category that is left out has none. -/
def directories? (value : Json) : Option ModuleDirectories := do
  match ← fieldValues? (directoryFields.map Prod.fst) value with
  | [branch, btb, prefetcher, replacement] =>
    some {
      branch := ← orDefault paths? [] branch
      btb := ← orDefault paths? [] btb
      prefetcher := ← orDefault paths? [] prefetcher
      replacement := ← orDefault paths? [] replacement }
  | _ => none

/-- Reads a string that may be null. Null is the same as leaving the field out. -/
def nullableString? : Json → Option (Option String)
  | .null => some none
  | .string s => some (some s)
  | _ => none

/-- The fields of options, each with the reader of its value. -/
def fields : List (String × Json.Reader Json) :=
  [("module_root", Json.readValue Json.maxDepth),
    ("objdir", Json.readValue Json.maxDepth),
    ("build_id", Json.readValue Json.maxDepth),
    ("compile_all_modules", Json.readValue Json.maxDepth),
    ("builtin_dirs", Json.readKnown directoryFields),
    ("user_dirs", Json.readKnown directoryFields)]

/-- Reads options from a value as it is written. -/
def ofJson? (value : Json) : Option Options := do
  match ← fieldValues? (fields.map Prod.fst) value with
  | [moduleRoot, objectDirectory, buildId, compileAll, builtinDirectories, userDirectories] =>
    some {
      moduleRoot := ← orDefault path? ⟨"."⟩ moduleRoot
      objectDirectory := ← orDefault path? ⟨".csconfig"⟩ objectDirectory
      buildId := ← orDefault nullableString? none buildId
      compileAll := ← orDefault Json.bool? false compileAll
      builtinDirectories := ← orDefault directories? .builtin builtinDirectories
      userDirectories := ← orDefault directories? {} userDirectories }
  | _ => none

/-- Reads options from a file. A file that cannot be read and one that cannot be understood are
different errors, both with the path. -/
def load (fs : FileSystem) (path : Path) : Except CompileError Options :=
  match fs.read path with
  | .error cause => .error (.io path.text cause)
  | .ok text =>
    match (Json.readAll? (Json.readKnown fields) text).bind ofJson? with
    | some options => .ok options
    | none => .error (.parse path.text)

end Options

end MemoryHierarchy
