import MemoryHierarchy.Decimal.Shortest
import MemoryHierarchy.Hierarchy
import MemoryHierarchy.Template

/-!
# Latencies and clocks

A cache whose total and fill latency are integers gets the difference as its hit latency. A record
without a frequency of its own takes the greatest one among the records above it and the cores that
name it; every frequency is then set in relation to the clock of the memory controller.
-/

namespace MemoryHierarchy

/-- The place of a double in the total order, in which minus zero comes before zero. -/
def totalRank (x : Float) : Int :=
  let magnitude : Nat := x.toBits.toNat % (1 <<< 63)
  if Decimal.signBit x.toBits then -(magnitude : Int) - 1 else (magnitude : Int)

/-- The rank of a frequency; what is not a number counts as zero. -/
def frequencyRank (value : Json) : Int := totalRank (value.float?.getD 0.0)

/-- The greatest of several frequencies, and of equal ones the last. They are compared by rank, so
that all doubles can be, and the value that is found is one of those that were given. -/
def greatestFrequency? (frequencies : List Json) : Option Json :=
  frequencies.foldl (fun best value =>
    match best with
    | none => some value
    | some other => if frequencyRank other ≤ frequencyRank value then some value else some other)
    none

/-- Gives a cache its hit latency, unless it has one: the part of its latency that is not for
filling. Both have to be integers, and the difference may be negative. -/
def withHitLatency (cache : Document) : Document :=
  if cache.contains "hit_latency" then cache
  else
    match cache.signed? "latency", cache.signed? "fill_latency" with
    | some latency, some fill => cache.set "hit_latency" (.number (.integer (latency - fill)))
    | _, _ => cache

/-- Gives a record with a positive frequency its clock in relation to the reference. Other records
keep what they have, which the checks may find wanting. -/
def withClockScale (reference : Float) (record : Document) : Document :=
  match record.float? "frequency" with
  | some frequency =>
    if frequency > 0.0 then record.set "clock_scale" (.ofFloat (reference / frequency)) else record
  | none => record

namespace Hierarchy

/-- A core's clock with the records that the core names in first-level slots. The clock is kept as a
value, so that it can be handed down as it is. -/
structure CoreClock where
  roots : List String
  frequency : Json

/-- The clocks of the cores that have one. A core without one has nothing to hand down. -/
def coreClocks (h : Hierarchy) : List CoreClock :=
  h.cores.filterMap fun core => (core.get? "frequency").map fun f => ⟨coreRoots core, f⟩

/-- The frequencies of the cores that name a record in a first-level slot. -/
def coreFrequencies (clocks : List CoreClock) (name : String) : List Json :=
  (clocks.filter fun clock => name ∈ clock.roots).map (·.frequency)

/-- The frequencies that are known of the records above a record. -/
def upperFrequencies (uppers : NameMap (List Document)) (known : NameMap Json) (name : String) :
    List Json :=
  ((uppers.getD name []).filterMap Document.name?).filterMap fun upper => known[upper]?

/-- Adds the frequency of one record to those that are known: its own, or else the greatest one that
is known of the records and cores above it. -/
def inheritFrequency (clocks : List CoreClock) (system : RecordMap)
    (uppers : NameMap (List Document)) (known : NameMap Json) (name : String) : NameMap Json :=
  match system[name]? with
  | none => known
  | some record =>
    let inherited := greatestFrequency?
      (upperFrequencies uppers known name ++ coreFrequencies clocks name)
    match (record.get? "frequency").or inherited with
    | some frequency => known.insert name frequency
    | none => known

/-- The frequencies of the records, from the first level down. A record is visited once, so one on a
cycle sees the frequencies of those above it that have been visited before. -/
def frequencies (h : Hierarchy) (levels : NameMap Nat) : NameMap Json :=
  let system := h.system
  let uppers := Record.uppers system.contains lowerLevel system.values
  (levels.byNumber.map Prod.fst).foldl (inheritFrequency h.coreClocks system uppers) ∅

/-- Gives each record its frequency and its clock. -/
def withClocks (h : Hierarchy) (levels : NameMap Nat) (reference : Float) : Hierarchy :=
  let frequencies := h.frequencies levels
  let clocked (name : String) (record : Document) : Document :=
    withClockScale reference <|
      match frequencies[name]? with
      | some frequency => record.set "frequency" frequency
      | none => record
  (h.mapRecords clocked).mapCores (withClockScale reference)

end Hierarchy

end MemoryHierarchy
