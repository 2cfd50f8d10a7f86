import MemoryHierarchy.Hierarchy

/-!
# Addresses and owners

On the way from a core's translation buffers to the first walker addresses are those of pages, and
everywhere else those of blocks. The first walker that a core meets on that way belongs to it,
unless an earlier core or the walker itself says otherwise.
-/

namespace MemoryHierarchy

/-- A list up to the first element with a property, that one included. -/
def takeThrough {α : Type} (p : α → Bool) : List α → List α
  | [] => []
  | x :: xs => if p x then [x] else x :: takeThrough p xs

/-- The logarithms of the sizes that addresses refer to. Only these are needed of the constants. -/
structure AddressBits where
  block : Nat
  page : Nat

/-- What the translation walks of the cores have shown. -/
structure TranslationWalks where
  /-- The records that are met before a walker. -/
  met : NameSet
  walkers : RecordMap

namespace TranslationWalks

/-- Does a record go by the name of a walker? -/
def isWalker (walkers : RecordMap) (record : Document) : Bool :=
  match record.name? with
  | some name => walkers.contains name
  | none => false

/-- The records from a name to the first walker, that one included. Without a walker these are all
records of the walk. -/
def path (system walkers : RecordMap) (start : String) : List Document :=
  takeThrough (isWalker walkers) ((system.walk lowerLevel start).map Prod.snd)

/-- Adds the names of the records on a path, walkers apart. A record that goes by no name is passed
over. -/
def addNames (walkers : RecordMap) (met : NameSet) (path : List Document) : NameSet :=
  path.foldl (fun met record =>
    match record.name? with
    | some name => if walkers.contains name then met else met.insert name
    | none => met) met

/-- What a core hands down its path, which is its index under the key of owners; a core without an
index hands down nothing. -/
def owner (core : Document) : Document :=
  match core.get? "index" with
  | some index => [("cpu", index)]
  | none => []

/-- Gives the walker at the end of a path its owner, unless it has one. The owner is what the core
hands down, or what the last record on the way with an owner of its own does. -/
def claim (core : Document) (walkers : RecordMap) (path : List Document) : RecordMap :=
  match (Record.propagate "cpu" none (owner core :: path)).tail.getLast? with
  | none => walkers
  | some last =>
    match last.name?, last.get? "cpu" with
    | some name, some cpu => walkers.modify name (·.setIfAbsent "cpu" cpu)
    | _, _ => walkers

/-- Follows the walk from one slot of a core. -/
def follow (system : RecordMap) (core : Document) (t : TranslationWalks) (slot : Slot) :
    TranslationWalks :=
  match core.slot? slot with
  | none => t
  | some start =>
    let records := path system t.walkers start
    { met := addNames t.walkers t.met records, walkers := claim core t.walkers records }

/-- Follows the translation walks of all cores, core by core and slot by slot. Links do not change
on the way, so walks are those of the hierarchy as it is given. -/
def ofHierarchy (h : Hierarchy) : TranslationWalks :=
  let system := h.system
  h.cores.foldl (fun t core => Slot.translation.foldl (follow system core) t) ⟨∅, h.walkers⟩

end TranslationWalks

/-- Gives a cache the size of its addresses, unless it has one, and says whether it asks for
translations: a cache that prefetches by virtual addresses does. -/
def withAddressing (bits : Nat) (cache : Document) : Document :=
  let translates := ((cache.get? "virtual_prefetch").bind Json.bool?).getD false
  (cache.setIfAbsent "offset_bits" (.ofNat bits)).set "needs_translate" (.bool translates)

/-- Gives a record its depth. A record without a depth keeps what is written there. -/
def withLevel (levels : NameMap Nat) (name : String) (record : Document) : Document :=
  match levels[name]? with
  | some level => record.set "fill_level" (.ofNat level)
  | none => record

/-- Gives walkers their owners, caches their addressing, and all records their depths. Whether the
addresses of a cache are those of pages depends on the walks of all cores. -/
def Hierarchy.withAddresses (h : Hierarchy) (levels : NameMap Nat) (bits : AddressBits) :
    Hierarchy :=
  let walks := TranslationWalks.ofHierarchy h
  let addressed (name : String) (cache : Document) : Document :=
    withAddressing (if walks.met.contains name then bits.page else bits.block) cache
  ({ h with walkers := walks.walkers }.mapCaches addressed).mapRecords (withLevel levels)

end MemoryHierarchy
