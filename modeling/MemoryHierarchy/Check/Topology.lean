import MemoryHierarchy.Check.Diagnostic
import MemoryHierarchy.Configuration.Resolved

/-!
# Checks of a resolved configuration

The records are checked one by one against what their kind requires, and the links between them as a
whole: slots and links name records, lower levels form no cycle, data paths end at the physical
memory, and translation paths meet a walker. Paths are followed only where there is no cycle.
-/

namespace MemoryHierarchy

/-- Checks one attribute of a record. One that is not there passes: what has to be there is filled
in by defaults. -/
def AttributeCheck.diagnostics (check : AttributeCheck) (kind : String) (record : Document) :
    List Diagnostic :=
  match record.at? check.path with
  | none => []
  | some value =>
    (check.predicates.filter fun p => !p.holds value).map fun p =>
      .failedCheck kind record.shownName check.path p value

/-- Checks a record against what is required of it. Every predicate that fails is reported, also
when several of one attribute do. -/
def checkRecord (kind : String) (checks : List AttributeCheck) (record : Document) :
    List Diagnostic :=
  checks.flatMap fun check => check.diagnostics kind record

namespace Hierarchy

/-- Checks the records of one kind. -/
def checkKind (kind : RecordKind) (records : List Document) : List Diagnostic :=
  records.flatMap (checkRecord kind.name (AttributeCheck.ofKind kind))

/-- Checks all records. Cores come first, then caches and walkers by their names. -/
def checkRecords (h : Hierarchy) : List Diagnostic :=
  checkKind .core h.cores ++ checkKind .cache h.caches.values ++ checkKind .walker h.walkers.values

/-- Checks that a first-level slot of a core names a cache. -/
def checkSlot (h : Hierarchy) (core : Document) (slot : Slot) : List Diagnostic :=
  match core.slot? slot with
  | some target =>
    if h.caches.contains target then [] else [.unknownCache core.shownName slot target]
  | none => []

/-- Checks that a link of a record names a record; a lower level may also be the physical memory. A
link that is left out, or that is no name, is passed over. -/
def checkLink (system : RecordMap) (kind : RecordKind) (name : String) (record : Document)
    (link : String) : List Diagnostic :=
  match record.string? link with
  | some target =>
    if system.contains target || (link == lowerLevel && target == memorySentinel) then []
    else [.unknownElement kind name link target]
  | none => []

/-- Checks the links of the records of a kind. -/
def checkLinks (system : RecordMap) (kind : RecordKind) (records : RecordMap) : List Diagnostic :=
  records.toList.flatMap fun (name, record) =>
    [lowerLevel, lowerTranslate].flatMap (checkLink system kind name record)

/-- Checks that slots and links name records. Records that no core reaches are checked as well. -/
def checkReferences (h : Hierarchy) : List Diagnostic :=
  let system := h.system
  h.cores.flatMap (fun core => Slot.firstLevel.flatMap (h.checkSlot core))
  ++ checkLinks system .cache h.caches
  ++ checkLinks system .walker h.walkers

/-- The part of a chain that goes round: from the first place of its last name. What comes before
leads into the loop and is no part of it. -/
def loopOf (chain : List String) : List String :=
  chain.dropWhile (· ≠ chain.getLastD "")

/-- The members of a loop, each of them once, in the order of their names. -/
def loopMembers (loop : List String) : NameSet := Std.ExtTreeSet.ofList loop

/-- Adds the loop that a name leads into, unless it has been found. Loops are compared by their
members, as the same loop may be entered at several places. -/
def addLoop (system : RecordMap) (loops : List (List String)) (name : String) :
    List (List String) :=
  match system.findCycle? lowerLevel name with
  | none => loops
  | some chain =>
    let loop := loopOf chain
    let members := (loopMembers loop).toList
    if loops.any fun other => (loopMembers other).toList == members then loops
    else loops ++ [loop]

/-- The cycles of lower levels, each from the place where the first name leads into it. Names are
tried in their order. -/
def loops (system : RecordMap) : List (List String) := system.keys.foldl (addLoop system) []

/-- Checks that the walk from a data slot ends at the physical memory. A slot whose name has no
record has no path, and is reported elsewhere. -/
def checkDataPath (system : RecordMap) (core : Document) (slot : Slot) : List Diagnostic :=
  match core.slot? slot with
  | none => []
  | some start =>
    match (system.walk lowerLevel start).getLast? with
    | none => []
    | some (_, last) =>
      if last.string? lowerLevel = some memorySentinel then []
      else [.openDataPath core.shownName start]

/-- Checks that the walk from a translation slot meets a walker. The walker may be anywhere on the
walk, the start included. -/
def checkTranslationPath (system walkers : RecordMap) (core : Document) (slot : Slot) :
    List Diagnostic :=
  match core.slot? slot with
  | none => []
  | some start =>
    let met := (system.walk lowerLevel start).filterMap fun (_, record) => record.name?
    if system.contains start && !met.any walkers.contains then [.noWalker core.shownName start]
    else []

/-- Checks the walks from the slots of all cores. Data slots of a core come in front of its
translation slots. -/
def checkPaths (h : Hierarchy) : List Diagnostic :=
  let system := h.system
  h.cores.flatMap fun core =>
    [Slot.l1i, Slot.l1d].flatMap (checkDataPath system core)
    ++ Slot.translation.flatMap (checkTranslationPath system h.walkers core)

/-- Checks the links of a hierarchy: what they name, whether they go round, and, only where they do
not, where they end. -/
def checkTopology (h : Hierarchy) : List Diagnostic :=
  let loops := loops h.system
  h.checkReferences ++ loops.map .cycle ++ if loops.isEmpty then h.checkPaths else []

end Hierarchy

namespace ResolvedConfiguration

/-- Everything that is wrong with a configuration. Nothing of the root, the memories or the modules
is looked at. -/
def diagnostics (r : ResolvedConfiguration) : List Diagnostic :=
  r.hierarchy.checkRecords ++ r.hierarchy.checkTopology

end ResolvedConfiguration

end MemoryHierarchy
