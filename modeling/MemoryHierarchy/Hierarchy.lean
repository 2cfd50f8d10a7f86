import MemoryHierarchy.Graph.Walk
import MemoryHierarchy.Slot

/-!
# The hierarchy

Cores, caches and walkers, linked by name. Caches and walkers make up one system in which a cache
hides a walker of the same name, and walks start from the records in the first-level slots of cores.
-/

namespace MemoryHierarchy

/-- Cores with the caches and walkers that they use. -/
structure Hierarchy where
  cores : List Document
  caches : RecordMap
  walkers : RecordMap

namespace Hierarchy

/-- Caches and walkers by name. A cache hides a walker of the same name: links that lead to the name
lead to the cache, and the walker is out of reach. -/
def system (h : Hierarchy) : RecordMap := h.walkers ∪ h.caches

/-- The names in the first-level slots of a core. -/
def coreRoots (core : Document) : List String := Slot.firstLevel.filterMap core.slot?

/-- The names in the first-level slots of all cores. These are where walks start, and so the names
that decide about everything that is reached. -/
def roots (h : Hierarchy) : List String := h.cores.flatMap coreRoots

/-- The system without what no core can reach. Links to the next level are followed, while links to
what translates lead nowhere here. -/
def reachable (h : Hierarchy) : RecordMap := h.system.accessible lowerLevel h.roots

/-- The depth of each record that a core can reach: over all first-level slots, the greatest
distance at which the walk from the slot meets the record. Records out of reach have no depth. -/
def levels (h : Hierarchy) : NameMap Nat := h.system.fillLevels lowerLevel h.roots

/-- How many records that a core can reach link to each record. A record to which none links is not
in the map. -/
def sharers (h : Hierarchy) : NameMap Nat :=
  let reachable := h.reachable
  (Record.uppers reachable.contains lowerLevel reachable.values).map fun _ uppers => uppers.length

/-- Completes the record of a name by layers below it; what the record has is kept. Where a cache
and a walker have the name, the cache is completed. -/
def layer (h : Hierarchy) (name : String) (layers : List Document) : Hierarchy :=
  let complete (record : Document) : Document := Document.mergeAll (record :: layers)
  if name ∈ h.caches then { h with caches := h.caches.modify name complete }
  else { h with walkers := h.walkers.modify name complete }

/-- Drops what no core can reach. A walker that is hidden by a cache of its name stays or goes with
that cache. -/
def prune (h : Hierarchy) : Hierarchy :=
  let reachable := h.reachable
  { h with
    caches := h.caches.filter fun name _ => reachable.contains name
    walkers := h.walkers.filter fun name _ => reachable.contains name }

/-- Changes every cache. -/
def mapCaches (h : Hierarchy) (f : String → Document → Document) : Hierarchy :=
  { h with caches := h.caches.map f }

/-- Changes every cache and every walker. -/
def mapRecords (h : Hierarchy) (f : String → Document → Document) : Hierarchy :=
  { h with caches := h.caches.map f, walkers := h.walkers.map f }

/-- Changes every core. -/
def mapCores (h : Hierarchy) (f : Document → Document) : Hierarchy :=
  { h with cores := h.cores.map f }

end Hierarchy

/-- The entries of a map of numbers in the order of the numbers, and of the names where those are
equal. -/
def NameMap.byNumber (m : NameMap Nat) : List (String × Nat) :=
  m.toList.mergeSort fun a b => a.2 ≤ b.2

end MemoryHierarchy
