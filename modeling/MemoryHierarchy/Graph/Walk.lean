import MemoryHierarchy.Record

/-!
# The links between records

A record links to another one by a string under a link key such as `lower_level`. Under one key each
record has at most one link, so a map of records is a graph in which every name has at most one
successor: a walk has no choices, and it ends at a name without a record, at a record without a
link, or at a name it has met before.

`Reaches` is the relation that walks compute, with `ReachesIn` counting the links; `walk` lists the
records in the order in which they are met.
-/

namespace MemoryHierarchy

namespace RecordMap

/-- The name that the record of a name links to. -/
def target? (records : RecordMap) (link name : String) : Option String :=
  records[name]?.bind (·.string? link)

/-- From the record of one name that of another one is reached over a number of links, each of them
to a record of the map. -/
inductive ReachesIn (records : RecordMap) (link : String) : Nat → String → String → Prop
  | refl {name : String} (known : name ∈ records) : ReachesIn records link 0 name name
  | step {n : Nat} {name next last : String} (hop : records.target? link name = some next)
      (onward : ReachesIn records link n next last) : ReachesIn records link (n + 1) name last

/-- From the record of one name that of another one is reached, over any number of links. A record
reaches itself. -/
def Reaches (records : RecordMap) (link name last : String) : Prop :=
  ∃ n, ReachesIn records link n name last

/-- No record is reached from itself over a link. -/
def Acyclic (records : RecordMap) (link : String) : Prop :=
  ∀ n name, ¬ReachesIn records link (n + 1) name name

/-- Walks on from a name, unless it has been visited or has no record. `fuel` bounds the number of
records, and a walk that starts with enough of it is never cut short. -/
def walkFrom (records : RecordMap) (link : String) :
    Nat → List String → String → List (String × Document)
  | 0, _, _ => []
  | fuel + 1, visited, name =>
    if name ∈ visited then []
    else
      match records[name]? with
      | none => []
      | some record =>
        (name, record) ::
          match record.string? link with
          | none => []
          | some next => walkFrom records link fuel (name :: visited) next

/-- The records met on the walk from a name, with the names they are met under. A walk meets no name
twice, so it is no longer than the map. -/
def walk (records : RecordMap) (link start : String) : List (String × Document) :=
  records.walkFrom link records.size [] start

/-- Follows links until a name comes a second time; `chain` holds the names so far. It ends without
a result at a name without a record and at a record without a link. -/
def cycleFrom (records : RecordMap) (link : String) :
    Nat → List String → String → Option (List String)
  | 0, _, _ => none
  | fuel + 1, chain, name =>
    if name ∈ chain then some (chain ++ [name])
    else
      match records[name]? with
      | none => none
      | some record =>
        match record.string? link with
        | none => none
        | some next => cycleFrom records link fuel (chain ++ [name]) next

/-- The names on the walk from a name up to the first one that is met again, or nothing when the
walk ends. -/
def findCycle? (records : RecordMap) (link start : String) : Option (List String) :=
  records.cycleFrom link (records.size + 1) [] start

/-- The names that the records met from any root go by. -/
def namesMet (records : RecordMap) (link : String) (roots : List String) : NameSet :=
  Std.ExtTreeSet.ofList (roots.flatMap fun root =>
    (records.walk link root).filterMap fun (_, record) => record.name?)

/-- The records that can be reached from a root; a root without a record reaches nothing. -/
def accessible (records : RecordMap) (link : String) (roots : List String) : RecordMap :=
  let met := records.namesMet link roots
  records.filter fun name _ => met.contains name

/-- Raises the level of a name to a depth. A level that is greater already stays. -/
def raiseLevel (levels : NameMap Nat) (name : String) (depth : Nat) : NameMap Nat :=
  levels.insert name (max depth (levels.getD name depth))

/-- Raises the level of each record of a walk to its distance from the start. -/
def raiseAlong (levels : NameMap Nat) (path : List (String × Document)) : NameMap Nat :=
  path.zipIdx.foldl (fun levels ((_, record), depth) =>
    match record.name? with
    | some name => raiseLevel levels name depth
    | none => levels) levels

/-- The level of each record that can be reached: the greatest distance at which the walk from a
root meets it. -/
def fillLevels (records : RecordMap) (link : String) (roots : List String) : NameMap Nat :=
  roots.foldl (fun levels root => raiseAlong levels (records.walk link root)) ∅

end RecordMap

namespace Record

/-- Adds a record in front of those that link to the same name. -/
def addUpper (isTarget : String → Bool) (link : String) (record : Document)
    (groups : NameMap (List Document)) : NameMap (List Document) :=
  match record.string? link with
  | some target =>
    if isTarget target then groups.insert target (record :: groups.getD target []) else groups
  | none => groups

/-- The records that link to each target, in order. Targets may be names without a record, so a
filter decides which of them are listed. -/
def uppers (isTarget : String → Bool) (link : String) (records : List Document) :
    NameMap (List Document) :=
  records.foldr (addUpper isTarget link) ∅

/-- Hands an attribute down a path: a record that lacks it takes the value of the nearest record
above that has one. -/
def propagate (key : String) : Option Json → List Document → List Document
  | _, [] => []
  | carried, record :: path =>
    match record.get? key, carried with
    | some value, _ => record :: propagate key (some value) path
    | none, some value => record.set key value :: propagate key (some value) path
    | none, none => record :: propagate key none path

end Record

end MemoryHierarchy
