import MemoryHierarchy.Record

/-!
# Core slots and the roles of caches

A core names the records it uses in seven slots. Four of them are first-level slots, from which
every walk through the hierarchy starts. The slot that names a cache gives it a role, and the role
decides which template completes the record.
-/

namespace MemoryHierarchy

/-- The name that stands for the physical memory controller in a link. It is no name of a record,
though nothing keeps a document from using it as one. -/
def memorySentinel : String := "DRAM"

/-- The last-level cache that every second-level cache links to by default. -/
def lastLevelName : String := "LLC"

/-- The name of the virtual memory. Walkers point at it by this name. -/
def virtualMemoryName : String := "vmem"

/-- The link to the next level. -/
def lowerLevel : String := "lower_level"

/-- The link from a cache to the record that translates for it. -/
def lowerTranslate : String := "lower_translate"

/-- The places of a core that name a record. -/
inductive Slot where
  | l1i
  | l1d
  | itlb
  | dtlb
  | l2c
  | stlb
  | ptw
deriving DecidableEq, Repr

namespace Slot

/-- The key of a slot in the record of a core. -/
def key : Slot → String
  | l1i => "L1I"
  | l1d => "L1D"
  | itlb => "ITLB"
  | dtlb => "DTLB"
  | l2c => "L2C"
  | stlb => "STLB"
  | ptw => "PTW"

/-- All slots in the order in which they are read. -/
def all : List Slot := [l1i, l1d, itlb, dtlb, l2c, stlb, ptw]

/-- The slots from which walks start. -/
def firstLevel : List Slot := [l1i, l1d, itlb, dtlb]

/-- The first-level slots on the way to a translation. -/
def translation : List Slot := [itlb, dtlb]

/-- Does the slot name a page-table walker? All others name a cache. -/
def isWalker (slot : Slot) : Bool := slot = ptw

/-- The name of the record of a slot for which a core gives none. The name of the core in front
tells the records of different cores apart. -/
def recordName (core : String) (slotKey : String) : String := core ++ "_" ++ slotKey

end Slot

/-- The name of a core that gives none. -/
def coreName (index : Nat) : String := "cpu" ++ toString index

/-- The name that a core gives in a slot. -/
def Document.slot? (core : Document) (slot : Slot) : Option String := core.string? slot.key

/-- The part that a cache plays in the hierarchy. There is one for each slot that names a cache, and
one for what lies below. -/
inductive Role where
  | l1i
  | l1d
  | itlb
  | dtlb
  | l2c
  | stlb
  | llc
deriving DecidableEq, Repr

namespace Role

/-- The name of a role. -/
def name : Role → String
  | l1i => "L1I"
  | l1d => "L1D"
  | itlb => "ITLB"
  | dtlb => "DTLB"
  | l2c => "L2C"
  | stlb => "STLB"
  | llc => "LLC"

/-- Does a cache of this role hold translations? -/
def isTranslation : Role → Bool
  | itlb | dtlb | stlb => true
  | l1i | l1d | l2c | llc => false

/-- The role of the cache that a slot names. -/
def ofSlot? : Slot → Option Role
  | .l1i => some l1i
  | .l1d => some l1d
  | .itlb => some itlb
  | .dtlb => some dtlb
  | .l2c => some l2c
  | .stlb => some stlb
  | .ptw => none

end Role

end MemoryHierarchy
