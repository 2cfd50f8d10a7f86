/-!
# Numbers of a document

A number is an integer or a double, and the two never mix: `4` has integer views and `4.0` has none.
The integer views are bounded by 64 bits, `natural?` without a sign and `signed?` with one.
-/

namespace MemoryHierarchy

/-- A number as it is written in a document. -/
inductive Number where
  | integer (n : Int)
  | float (x : Float)
deriving DecidableEq, Inhabited

namespace Number

/-- The value as an integer from 0 to `2 ^ 64 - 1`. -/
def natural? : Number → Option Nat
  | .integer n => if 0 ≤ n ∧ n < UInt64.size then some n.toNat else none
  | .float _ => none

/-- The value as an integer from `-2 ^ 63` to `2 ^ 63 - 1`. -/
def signed? : Number → Option Int
  | .integer n => if -0x8000000000000000 ≤ n ∧ n < 0x8000000000000000 then some n else none
  | .float _ => none

/-- The double nearest to an integer of at most 64 bits. -/
def nearestFloat (n : Int) : Float :=
  if n < 0 then -(n.natAbs.toUInt64.toFloat) else n.natAbs.toUInt64.toFloat

/-- Every number as a double. -/
def toFloat : Number → Float
  | .integer n => nearestFloat n
  | .float x => x

end Number

end MemoryHierarchy
