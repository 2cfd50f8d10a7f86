import MemoryHierarchy.Module.Kind
import MemoryHierarchy.Path
import MemoryHierarchy.Record

/-!
# Sets of modules

A module is named after its directory, and the modules of one category that a configuration uses
form a `ModuleSet`: each has the bit of its place in the set, and the names under which records ask
for a module are its aliases.
-/

namespace MemoryHierarchy

namespace Module

/-- A character of a module's name: what cannot stand in an identifier is replaced. -/
def nameChar (c : Char) : Char :=
  if c = '.' then '_'
  else if c = '/' then 'D'
  else if c = '-' then 'H'
  else if c.isAlphanum ∨ c = '_' then c
  else '_'

/-- The name of the module in a directory: the path below a root, or the whole path when it does not
start with the root, with slashes and other characters replaced. -/
def nameOf (directory root : Path) : String :=
  let components := (directory.componentsBehind? root).getD directory.components
  let names := components.filterMap Path.Component.name?
  ("/".intercalate names).map nameChar

/-- The symbol of a module's free function for an entry point. -/
def symbol (kind : ModuleKind) (module function : String) : String :=
  kind.symbolHead ++ "_" ++ module ++ "_" ++ function

/-- The symbols of a module's free functions by entry point. -/
def symbols (kind : ModuleKind) (module : String) : NameMap String :=
  (EntryPoint.ofKind kind).foldl (fun m e => m.insert e.name (symbol kind module e.name)) ∅

end Module

/-- What is known of a module. -/
structure ModuleData where
  name : String
  /-- The directory of its source. -/
  path : Path
  /-- The class it defines, where it is not made of free functions. -/
  className : String
  /-- Is it made of free functions? -/
  legacy : Bool
  /-- The symbols of its free functions by entry point. -/
  functions : NameMap String

/-- A module with its place in a set. -/
structure ModuleInfo where
  data : ModuleData
  /-- The place, a number of 32 bits in the program: sets are far too small to pass that. -/
  bit : Nat

namespace ModuleInfo

/-- The name of a module. -/
def name (m : ModuleInfo) : String := m.data.name

/-- The mask in which only the bit of the module is set. It is a word of 64 bits, so the number here
is the word for the first 64 modules of a set only; what is said of masks as words assumes no more
modules than that (`ModuleSet.Consistent.mask_lt`). -/
def mask (m : ModuleInfo) : Nat := 1 <<< m.bit

/-- The symbol of the module's free function for an entry point. -/
def symbol (m : ModuleInfo) (kind : ModuleKind) (function : String) : String :=
  (m.data.functions[function]?).getD (Module.symbol kind m.name function)

end ModuleInfo

/-- The modules of one category, in the order of their bits. -/
structure ModuleSet where
  kind : ModuleKind
  modules : List ModuleInfo
  /-- The module that each name in a record stands for. -/
  aliases : NameMap String

namespace ModuleSet

/-- The set without modules. -/
def empty (kind : ModuleKind) : ModuleSet := ⟨kind, [], ∅⟩

/-- The module of a name. Requests do not count here, only the names of modules. -/
def find? (s : ModuleSet) (name : String) : Option ModuleInfo :=
  s.modules.find? (·.name = name)

/-- Adds a module that was asked for under a name, or under none. A new module takes the next bit;
one that is there already is kept as it is. -/
def insert (s : ModuleSet) (requested : Option String) (data : ModuleData) : ModuleSet :=
  let modules :=
    if (s.find? data.name).isSome then s.modules else s.modules ++ [⟨data, s.modules.length⟩]
  let aliases :=
    match requested with
    | some name => s.aliases.insert name data.name
    | none => s.aliases
  { s with modules, aliases }

/-- The name of the module that a record means. Records use the names under which modules were
found, which need not be the names of the modules. -/
def resolve? (s : ModuleSet) (requested : String) : Option String := s.aliases[requested]?

/-- The names of the modules that a record means, each of them once, at the place where it is first
asked for. What stands for no module is left out. -/
def enabledFor (s : ModuleSet) (requested : List String) : List String :=
  (requested.filterMap s.resolve?).foldl
    (fun names name => if name ∈ names then names else names ++ [name]) []

/-- The modules that are made of free functions. Only these have symbols of their own. -/
def legacy (s : ModuleSet) : List ModuleInfo := s.modules.filter (·.data.legacy)

end ModuleSet

/-- The modules of all categories. -/
structure ModuleCatalog where
  branch : ModuleSet := .empty .branch
  btb : ModuleSet := .empty .btb
  prefetcher : ModuleSet := .empty .prefetcher
  replacement : ModuleSet := .empty .replacement

namespace ModuleCatalog

/-- The modules of a category. -/
def get (c : ModuleCatalog) : ModuleKind → ModuleSet
  | .branch => c.branch
  | .btb => c.btb
  | .prefetcher => c.prefetcher
  | .replacement => c.replacement

/-- The sets of all categories. -/
def sets (c : ModuleCatalog) : List ModuleSet := ModuleKind.all.map c.get

end ModuleCatalog

end MemoryHierarchy
