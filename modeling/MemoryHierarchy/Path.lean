/-!
# Paths

A path keeps the text it was written with, and its components are read off that text: a leading
slash is the root, empty segments and single dots vanish except for a dot in front, and two dots
lead to the parent directory.
-/

namespace MemoryHierarchy

/-- A path as it is written. Nothing of the text is ever changed by itself; two spellings of one
path are two paths. -/
structure Path where
  text : String
deriving DecidableEq, Inhabited

namespace Path

/-- A part of a path. -/
inductive Component where
  | root
  | here
  | parent
  | name (s : String)
deriving DecidableEq

/-- Does the path start from the root? Nothing else decides where a path starts. -/
def isAbsolute (p : Path) : Bool := p.text.toList.head? = some '/'

/-- The text between slashes. -/
def segments (p : Path) : List String := (p.text.toList.splitOn '/').map String.ofList

/-- The component that a segment stands for, if it stands for one behind another component. -/
def Component.ofSegment? : String → Option Component
  | "" => none
  | "." => none
  | ".." => some .parent
  | s => some (.name s)

/-- The components of a path. A dot counts in front only, where it is kept. -/
def components (p : Path) : List Component :=
  let rest := p.segments.filterMap Component.ofSegment?
  if p.isAbsolute then .root :: rest
  else if p.segments.head? = some "." then .here :: rest
  else rest

/-- The name that a component is. -/
def Component.name? : Component → Option String
  | .name s => some s
  | _ => none

/-- The last component, when it is a name. A path that ends with two dots has none. -/
def fileName? (p : Path) : Option String := p.components.getLast?.bind Component.name?

/-- Appends a relative path behind a slash; an absolute path takes the place of the first one. -/
def join (p q : Path) : Path :=
  if q.isAbsolute then q
  else if p.text = "" ∨ p.text.toList.getLast? = some '/' then ⟨p.text ++ q.text⟩
  else ⟨p.text ++ "/" ++ q.text⟩

/-- The components behind those of a base that the path starts with. -/
def componentsBehind? (p base : Path) : Option (List Component) :=
  base.components.isPrefixOf? p.components

/-- The text of a component. -/
def Component.text : Component → String
  | .root => ""
  | .here => "."
  | .parent => ".."
  | .name s => s

/-- A path with the given components. Reading them again gives the same ones, where they can be
written at all. -/
def ofComponents : List Component → Path
  | [.root] => ⟨"/"⟩
  | components => ⟨"/".intercalate (components.map Component.text)⟩

/-- The path without its last component; the root and the empty path have none. -/
def parent? (p : Path) : Option Path :=
  match p.components with
  | [] | [.root] => none
  | components => some (ofComponents components.dropLast)

/-- The number of steps from a path up to where no parent is left. -/
def depth (p : Path) : Nat := p.components.length

end Path

end MemoryHierarchy
