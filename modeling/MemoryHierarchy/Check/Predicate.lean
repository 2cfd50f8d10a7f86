import MemoryHierarchy.Decimal.Shortest
import MemoryHierarchy.Json.Basic

/-!
# Predicates on values

The checks on the attributes of records are lists of predicates. A predicate has a description, and
`Predicate.holds` says which values pass.
-/

namespace MemoryHierarchy

/-- Does a double have no fraction? Its value is a whole number of units of its last binary place,
so it is whole when that place is, or when the places behind the point are zero. -/
def Decimal.Binary.isWhole (b : Binary) : Bool :=
  b.significand % (1 <<< (-b.exponent).toNat) = 0

/-- Is a number whole? Integers are; a double is read off its bits, so that no rounding takes part.
-/
def Number.isWhole : Number → Bool
  | .integer _ => true
  | .float x => (Decimal.Binary.ofBits x.toBits).isWhole

/-- Is a number at least zero? -/
def Number.isNonNegative : Number → Bool
  | .integer n => 0 ≤ n
  | .float x => x ≥ 0.0

/-- Is a natural number a power of two? Zero is none. -/
def isPowerOfTwo (n : Nat) : Bool := 1 <<< n.log2 = n

/-- What an attribute can be required to be. Each of them looks at one value, and at nothing beside
it. -/
inductive Predicate where
  | integral
  | nonNegative
  | powerOfTwo
  | boolean
  | string
  | strings
  | number
deriving DecidableEq, Repr

namespace Predicate

/-- All predicates. -/
def all : List Predicate :=
  [integral, nonNegative, powerOfTwo, boolean, string, strings, number]

/-- The description of a predicate in diagnostics. Reports quote it, so it is part of their wording.
-/
def description : Predicate → String
  | integral => "is integral"
  | nonNegative => "is non-negative"
  | powerOfTwo => "is power of two"
  | boolean => "is a boolean"
  | string => "is a string"
  | strings => "is a list of strings"
  | number => "is a number"

/-- Does a value pass? A value of another kind fails, also where a predicate says something of
numbers only. -/
def holds : Predicate → Json → Bool
  | integral, .number n => n.isWhole
  | nonNegative, .number n => n.isNonNegative
  | powerOfTwo, value =>
    match value.natural? with
    | some n => isPowerOfTwo n
    | none => false
  | boolean, .bool _ => true
  | string, .string _ => true
  | strings, .array items => items.all fun item => item.string?.isSome
  | number, .number _ => true
  | _, _ => false

end Predicate

/-- The kinds of records that are checked. -/
inductive RecordKind where
  | core
  | cache
  | walker
deriving DecidableEq, Repr

/-- The name of a kind of record in diagnostics. -/
def RecordKind.name : RecordKind → String
  | core => "core"
  | cache => "cache"
  | walker => "ptw"

/-- An attribute, which is a path into a record, with what it is required to be. -/
structure AttributeCheck where
  path : String
  predicates : List Predicate
deriving DecidableEq

namespace AttributeCheck

/-- A count is a whole number. Floating-point numbers pass where they have no fraction. -/
def count (path : String) : AttributeCheck := ⟨path, [.integral, .nonNegative]⟩

/-- The number of sets is a power of two. A value that fails several of the three predicates is
reported for each. -/
def geometry (path : String) : AttributeCheck := ⟨path, [.integral, .nonNegative, .powerOfTwo]⟩

/-- A frequency is any number that is not negative. -/
def frequency (path : String) : AttributeCheck := ⟨path, [.number, .nonNegative]⟩

/-- A flag is a truth value. Numbers do not count as truth values. -/
def flag (path : String) : AttributeCheck := ⟨path, [.boolean]⟩

/-- A name is a string. What it names is a matter of the topology. -/
def name (path : String) : AttributeCheck := ⟨path, [.string]⟩

/-- Names are strings. An empty list passes. -/
def names (path : String) : AttributeCheck := ⟨path, [.strings]⟩

/-- What is required of a cache. The order is that of the reports. -/
def cache : List AttributeCheck :=
  [frequency "frequency", geometry "sets", count "ways", count "rq_size", count "wq_size",
    count "pq_size", count "mshr_size", count "latency", count "hit_latency", count "fill_latency",
    count "max_tag_check", count "max_fill", count "offset_bits", flag "prefetch_as_load",
    flag "wq_check_full_addr", flag "virtual_prefetch", names "prefetch_activate",
    name "lower_level", name "lower_translate", names "prefetcher", names "replacement"]

/-- What is required of a page-table walker. -/
def walker : List AttributeCheck :=
  [frequency "frequency", count "cpu", geometry "pscl5_set", count "pscl5_way",
    geometry "pscl4_set", count "pscl4_way", geometry "pscl3_set", count "pscl3_way",
    geometry "pscl2_set", count "pscl2_way", count "rq_size", count "mshr_size", count "max_read",
    count "max_write", name "lower_level"]

/-- What is required of a core. The instruction buffer is looked into by paths, which find nothing
in a list. -/
def core : List AttributeCheck :=
  [frequency "frequency", count "ifetch_buffer_size", count "decode_buffer_size",
    count "dispatch_buffer_size", count "rob_size", count "lq_size", count "sq_size",
    count "fetch_width", count "decode_width", count "dispatch_width", count "scheduler_size",
    count "execute_width", count "lq_width", count "sq_width", count "retire_width",
    count "mispredict_penalty", count "decode_latency", count "dispatch_latency",
    count "schedule_latency", count "execute_latency", geometry "DIB.window_size",
    geometry "DIB.sets", count "DIB.ways", name "L1I", name "L1D", name "ITLB", name "DTLB",
    names "branch_predictor", names "btb"]

/-- What is required of a record of a kind. -/
def ofKind : RecordKind → List AttributeCheck
  | .core => core
  | .cache => cache
  | .walker => walker

end AttributeCheck

end MemoryHierarchy
