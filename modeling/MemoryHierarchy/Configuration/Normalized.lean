import MemoryHierarchy.Error
import MemoryHierarchy.Template

/-!
# Normalized configurations

One hierarchy can be written in many ways: caches inside cores, collections as lists or as mappings,
one core that stands for many. A `NormalizedConfiguration` has one shape for all of them: a list of
named cores whose slots hold names, and the caches and walkers by name.

`ofDocument` reads one document and fails at the first value of a wrong shape; `ofDocuments` layers
documents first, and `merge` layers configurations.
-/

namespace MemoryHierarchy

/-- A configuration in its normal shape, before defaults. -/
structure NormalizedConfiguration where
  /-- What concerns the whole system. -/
  root : Document := []
  /-- The cores in the order of their index. -/
  cores : List Document := []
  caches : RecordMap := ∅
  walkers : RecordMap := ∅
  physicalMemory : Document := []
  virtualMemory : Document := []

/-- Repeats each element so that the result has `n` elements: the first ones are repeated most, and
an empty list stays empty. -/
def repeatToLength {α : Type} (elements : List α) (n : Nat) : List α :=
  let times := (n - 1) / elements.length + 1
  (elements.flatMap (List.replicate times ·)).take n

namespace NormalizedConfiguration

/-- The keys of a document that the normalized root keeps. The directories of modules are kept
beside them, and the number of cores is not. -/
def rootKeys : List String :=
  ["name", "block_size", "page_size", "heartbeat_frequency", "executable_name"]

/-- The keys of a document that list directories of modules. There is one for each category, and a
value has to be a list of strings. -/
def directoryKeys : List String :=
  ["branch_dirs", "btb_dirs", "prefetcher_dirs", "replacement_dirs"]

/-- The keys of the root that hold sizes. -/
def sizeKeys : List String := ["block_size", "page_size", "heartbeat_frequency"]

/-- The largest number of cores. The bound itself is allowed. -/
def maxCores : Nat := 1024

/-- Layered names are joined, the first one in front; a name that is no string gives way to the
first one. -/
def joinNames : Json → Json → Json
  | .string left, .string right => .string (left ++ "_" ++ right)
  | left, _ => left

/-- The names of layered documents are joined, everything else is merged plainly. -/
def layerRules : Document.MergeRules := Document.MergeRules.plain.withRule "name" joinNames

/-- The number of cores that a document asks for, which is one where it says nothing. Anything but
an integer in range is refused. -/
def coreCount (doc : Document) : Except CompileError Nat :=
  match doc.get? "num_cores" with
  | none => .ok 1
  | some value =>
    match value.natural? with
    | some n =>
      if n ≤ maxCores then .ok n
      else .error (.structural "num_cores" "an integer from 0 to 1024" value)
    | none => .error (.structural "num_cores" "an integer from 0 to 1024" value)

/-- The mappings in a list that stands under a key. The first item that is no mapping is named by
its place. -/
def mappingsOf (key : String) (items : List Json) : Except CompileError (List Document) :=
  items.zipIdx.mapM fun (item, i) =>
    match item with
    | .object fields => .ok fields
    | _ => .error (.structural (key ++ "[" ++ toString i ++ "]") "a mapping" item)

/-- The cores that a document describes, before they are repeated. A document without a list of
cores has one core without attributes; a list without items describes none. -/
def coreTemplates (doc : Document) : Except CompileError (List Document) :=
  match doc.get? "ooo_cpu" with
  | none => .ok [[]]
  | some (.array items) => mappingsOf "ooo_cpu" items
  | some other => .error (.structural "ooo_cpu" "a list of mappings" other)

/-- What a document says once for all cores: attributes of cores, and slots. It is a layer below
each core, so a core may say otherwise. -/
def sharedAttributes (doc : Document) : Document :=
  (Template.coreAttributes ++ Slot.all.map Slot.key).filterMap fun key =>
    (doc.get? key).map fun value => (key, value)

/-- A slot of a core that has been read: the record it names, with the declaration of the record
where the slot holds one. -/
structure NamedSlot where
  slot : Slot
  record : String
  declaration : Option Document

/-- Reads a slot of a core. A name stands for itself, a mapping declares the record, and a slot that
is left out names a record after the core and the slot. -/
def readSlot (core : Document) (name : String) (slot : Slot) : Except CompileError NamedSlot :=
  let defaultName := Slot.recordName name slot.key
  match core.get? slot.key with
  | none => .ok ⟨slot, defaultName, none⟩
  | some (.string reference) => .ok ⟨slot, reference, none⟩
  | some (.object fields) =>
    let declared (record : String) : NamedSlot :=
      ⟨slot, record, some (Document.set fields "name" (.string record))⟩
    match Document.get? fields "name" with
    | none => .ok (declared defaultName)
    | some (.string record) => .ok (declared record)
    | some other =>
      .error (.structural (name ++ "." ++ slot.key ++ ".name") "a string" other)
  | some other =>
    .error (.structural (name ++ "." ++ slot.key) "a record name or a mapping" other)

/-- The name of a core. A name that is left out is made from the place; one that is no string is
refused. -/
def readCoreName (core : Document) (index : Nat) : Except CompileError String :=
  match core.get? "name" with
  | none => .ok (coreName index)
  | some (.string name) => .ok name
  | some other =>
    .error (.structural ("ooo_cpu[" ++ toString index ++ "].name") "a string" other)

/-- A core with the slots that were read from it. The slots keep what was declared in them, which
the core itself has lost. -/
structure NamedCore where
  core : Document
  slots : List NamedSlot

/-- Names a core and puts names into its slots. Whatever the slots have held, a normalized core
refers to records by their names only. -/
def normalizeCore (core : Document) (index : Nat) : Except CompileError NamedCore := do
  let name ← readCoreName core index
  let slots ← Slot.all.mapM (readSlot core name)
  let identified := (core.set "name" (.string name)).set "index" (.ofNat index)
  pure {
    core := slots.foldl (fun core s => core.set s.slot.key (.string s.record)) identified
    slots }

/-- The cores of a document: its templates, repeated to the number of cores, over what it says for
all of them. A core therefore prefers what its template says to what is said for all. -/
def normalizeCores (doc : Document) (templates : List Document) (n : Nat) :
    Except CompileError (List NamedCore) :=
  let common := sharedAttributes doc
  (repeatToLength templates n).zipIdx.mapM fun (template, index) =>
    normalizeCore (Document.mergeAll [template, common]) index

/-- A record of a collection written as a mapping: the key names it where it has no name. A name
that is written counts more than the key. -/
def namedByKey (key name : String) : Json → Except CompileError Document
  | .object fields => .ok (Document.setIfAbsent fields "name" (.string name))
  | other => .error (.structural (key ++ "." ++ name) "a mapping" other)

/-- The records of a collection, which is a list of records or a mapping of names to records. -/
def collection (doc : Document) (key : String) : Except CompileError (List Document) :=
  match doc.get? key with
  | none => .ok []
  | some (.array items) => mappingsOf key items
  | some (.object entries) => entries.mapM fun (name, item) => namedByKey key name item
  | some other =>
    .error (.structural key "a list of records or a mapping of names to records" other)

/-- Writes a collection of a document as a list. A document without the collection is left as it is,
so that no empty list is added to it. -/
def collectionAsList (doc : Document) (key : String) : Except CompileError Document :=
  if doc.contains key then
    (collection doc key).map fun records => doc.set key (.array (records.map .object))
  else .ok doc

/-- Writes the collections of a document as lists. Records keep their order, and those of a mapping
get their names. -/
def collectionsAsLists (doc : Document) : Except CompileError Document := do
  let doc ← collectionAsList doc "caches"
  collectionAsList doc "ptws"

/-- A mapping under a key, empty where there is none. There is one physical memory and one virtual
memory, so they are no collections. -/
def singleton (doc : Document) (key : String) : Except CompileError Document :=
  match doc.get? key with
  | none => .ok []
  | some (.object fields) => .ok fields
  | some other => .error (.structural key "a mapping" other)

/-- A list of directories under a key, as a field of the root. A list that is there stays, also an
empty one. -/
def directoryField (doc : Document) (key : String) : Except CompileError Document :=
  match doc.get? key with
  | none => .ok []
  | some (.array items) =>
    if items.all fun item => item.string?.isSome then .ok [(key, .array items)]
    else .error (.structural key "a list of directories" (.array items))
  | some other => .error (.structural key "a list of directories" other)

/-- Checks a size of the root. Any number of 64 bits will do, zero included. -/
def checkSize (root : Document) (key : String) : Except CompileError Unit :=
  match root.get? key with
  | none => .ok ()
  | some value =>
    if value.natural?.isSome then .ok ()
    else .error (.structural key "a non-negative integer" value)

/-- The root of a document: what it says of the whole system. Sizes have to be natural numbers, and
directories texts; nothing else is asked for. -/
def rootOf (doc : Document) : Except CompileError Document := do
  let scalars : Document := rootKeys.filterMap fun key =>
    (doc.get? key).map fun value => (key, value)
  let directories ← directoryKeys.mapM (directoryField doc)
  let root : Document := scalars ++ directories.flatten
  sizeKeys.forM (checkSize root)
  pure root

/-- The declarations of records in slots, for walkers or for caches. -/
def declarationsOf (walkers : Bool) (cores : List NamedCore) : List Document :=
  cores.flatMap fun core =>
    (core.slots.filter (·.slot.isWalker = walkers)).filterMap (·.declaration)

/-- An empty record for each name in a slot, for walkers or for caches. With it every name in a slot
has a record, whether it is declared or not. -/
def stubsOf (walkers : Bool) (cores : List NamedCore) : List Document :=
  cores.flatMap fun core =>
    (core.slots.filter (·.slot.isWalker = walkers)).map fun s => Document.named s.record

/-- Normalizes one document. Records are combined by name from collections, slots and stubs, in this
order; a last-level cache is there in any case. -/
def ofDocument (doc : Document) : Except CompileError NormalizedConfiguration := do
  let n ← coreCount doc
  let templates ← coreTemplates doc
  let cores ← normalizeCores doc templates n
  let rootCaches ← collection doc "caches"
  let rootWalkers ← collection doc "ptws"
  let root ← rootOf doc
  let physicalMemory ← singleton doc "physical_memory"
  let virtualMemory ← singleton doc "virtual_memory"
  pure {
    root
    cores := cores.map (·.core)
    caches := Record.combineNamed
      (rootCaches ++ declarationsOf false cores ++ stubsOf false cores
        ++ [Document.named lastLevelName])
    walkers := Record.combineNamed
      (rootWalkers ++ declarationsOf true cores ++ stubsOf true cores)
    physicalMemory
    virtualMemory }

/-- Normalizes layered documents, the first of which has priority. Collections are written as lists
before they are merged, so that a mapping and a list meet by name. -/
def ofDocuments (docs : List Document) : Except CompileError NormalizedConfiguration := do
  let docs ← docs.mapM collectionsAsLists
  ofDocument (Document.mergeAllWith layerRules docs)

/-- Layers two configurations, the first of which has priority: cores meet by index and records by
name. -/
def merge (c d : NormalizedConfiguration) : NormalizedConfiguration where
  root := Document.mergeAllWith layerRules [c.root, d.root]
  cores := (List.range (max c.cores.length d.cores.length)).map fun i =>
    Document.mergeAll [c.cores.getD i [], d.cores.getD i []]
  caches := Record.combineNamed (c.caches.values ++ d.caches.values)
  walkers := Record.combineNamed (c.walkers.values ++ d.walkers.values)
  physicalMemory := Document.mergeAll [c.physicalMemory, d.physicalMemory]
  virtualMemory := Document.mergeAll [c.virtualMemory, d.virtualMemory]

end NormalizedConfiguration

end MemoryHierarchy
