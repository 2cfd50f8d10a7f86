import MemoryHierarchy.Check.Predicate
import MemoryHierarchy.Json.Printer
import MemoryHierarchy.Slot

/-!
# Diagnostics

A diagnostic is one thing that is wrong with a resolved configuration. The wording of all of them
stands in `Diagnostic.message`.
-/

namespace MemoryHierarchy

/-- What can be wrong with a resolved configuration. -/
inductive Diagnostic where
  /-- An attribute does not pass a predicate. -/
  | failedCheck (kind name path : String) (predicate : Predicate) (found : Json)
  /-- A slot of a core names no cache. -/
  | unknownCache (core : String) (slot : Slot) (target : String)
  /-- A link of a record names no record. -/
  | unknownElement (kind : RecordKind) (name link target : String)
  /-- Lower levels form a cycle; the first member comes again at the end. -/
  | cycle (members : List String)
  /-- The walk from a data slot does not end at the physical memory. -/
  | openDataPath (core start : String)
  /-- The walk from a translation slot meets no walker. -/
  | noWalker (core start : String)
deriving DecidableEq

/-- The text of a diagnostic. -/
def Diagnostic.message : Diagnostic → String
  | failedCheck kind name path predicate found =>
    kind ++ " " ++ name ++ ": " ++ path ++ " failed check \"" ++ predicate.description
      ++ "\" (found " ++ found.compact ++ ")"
  | unknownCache core slot target =>
    "core " ++ core ++ ": " ++ slot.key ++ " refers to unknown cache `" ++ target ++ "`"
  | unknownElement kind name link target =>
    kind.name ++ " " ++ name ++ ": " ++ link ++ " refers to unknown element `" ++ target ++ "`"
  | cycle members => "cycle in lower_level chain: " ++ " -> ".intercalate members
  | openDataPath core start =>
    "core " ++ core ++ ": data path from `" ++ start ++ "` does not end at " ++ memorySentinel
  | noWalker core start =>
    "core " ++ core ++ ": translation path from `" ++ start ++ "` never reaches a page table walker"

/-- The name of a record in diagnostics. Resolved records have names, so the stand-in is for
documents that are checked by themselves. -/
def Document.shownName (record : Document) : String := record.name?.getD "<unnamed>"

end MemoryHierarchy
