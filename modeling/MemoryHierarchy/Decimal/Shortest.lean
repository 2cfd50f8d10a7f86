/-!
# The shortest decimal of a binary floating-point number

A positive double is `significand * 2 ^ exponent`. Of all decimals that round to it, the ones with
the fewest digits are found by walking decimal grids from coarse to fine: on each grid only the two
neighbours of the value can lie in its rounding interval, so the first grid with a hit has the
fewest digits, and of two hits the nearer one is taken. All arithmetic is exact.

The main statement of the module is its search: `shortest?` returns a point of the first grid of
the walk that has one in the interval.
-/

namespace MemoryHierarchy.Decimal

/-- A positive finite double, `significand * 2 ^ exponent`. -/
structure Binary where
  significand : Nat
  exponent : Int
deriving DecidableEq, Repr

/-- A positive decimal, `coefficient * 10 ^ exponent`. -/
structure Scientific where
  coefficient : Nat
  exponent : Int
deriving DecidableEq, Repr

/-- Which of two decimals of one length is taken when the value lies halfway between them. -/
inductive Tie where
  | even
  | up
deriving DecidableEq, Repr

/-- The magnitude of a finite double, read off its bit pattern; zero has significand zero. -/
def Binary.ofBits (bits : UInt64) : Binary :=
  let fraction := bits.toNat % (1 <<< 52)
  let biased : Nat := (bits.toNat >>> 52) % (1 <<< 11)
  if biased = 0 then ⟨fraction, -1074⟩ else ⟨fraction + (1 <<< 52), (biased : Int) - 1075⟩

/-- The sign bit. -/
def signBit (bits : UInt64) : Bool :=
  bits.toNat >>> 63 = 1

/--
The reals that round to a double, measured in quarters of its last binary place: the double itself
is `4 * significand`, and the ends belong to the interval when the significand is even. The lower
neighbour of a power of two is half as far away as the upper one.
-/
structure Interval where
  lower : Nat
  centre : Nat
  upper : Nat
  closed : Bool
deriving DecidableEq, Repr

/-- The rounding interval of a double, in quarters of its last place. -/
def Binary.interval (b : Binary) : Interval :=
  let narrow := b.significand = 1 <<< 52 ∧ b.exponent ≠ -1074
  { lower := 4 * b.significand - if narrow then 1 else 2
    centre := 4 * b.significand
    upper := 4 * b.significand + 2
    closed := b.significand % 2 = 0 }

/-- Does `n` units lie in the interval whose ends are measured in the same unit? -/
def Interval.holds (i : Interval) (n : Nat) : Bool :=
  if i.closed then i.lower ≤ n ∧ n ≤ i.upper else i.lower < n ∧ n < i.upper

/-- Measures the interval in a unit `factor` times as small. -/
def Interval.scale (i : Interval) (factor : Nat) : Interval :=
  { i with lower := i.lower * factor, centre := i.centre * factor, upper := i.upper * factor }

/--
The interval and the step of the grid `10 ^ k`, both in one unit: a quarter of the last binary
place is `2 ^ (exponent - 2)`, and whichever power is negative is moved to the other side.
-/
def Binary.onGrid (b : Binary) (k : Int) : Interval × Nat :=
  let binary := b.exponent - 2
  (b.interval.scale (Nat.pow 10 (-k).toNat <<< binary.toNat),
    Nat.pow 10 k.toNat <<< (-binary).toNat)

/-- The point of one grid that is taken, if one of the value's two neighbours is in the interval. -/
def gridPoint? (tie : Tie) (interval : Interval) (step : Nat) : Option Nat :=
  let below := interval.centre / step
  let above := below + 1
  match interval.holds (below * step) && below != 0, interval.holds (above * step) with
  | false, false => none
  | true, false => some below
  | false, true => some above
  | true, true =>
    match compare (interval.centre - below * step) (above * step - interval.centre), tie with
    | .lt, _ => some below
    | .gt, _ => some above
    | .eq, .up => some above
    | .eq, .even => some (if below % 2 = 0 then below else above)

/-- Walks the grids `10 ^ k`, `10 ^ (k - 1)`, … and stops at the first one with a hit. -/
def searchGrids (tie : Tie) (b : Binary) : Nat → Int → Option Scientific
  | 0, _ => none
  | fuel + 1, k =>
    match gridPoint? tie (b.onGrid k).1 (b.onGrid k).2 with
    | some n => some ⟨n, k⟩
    | none => searchGrids tie b fuel (k - 1)

/-- A power of ten that is no less than the double: `2 ^ n ≤ 10 ^ (n * 30103 / 100000 + 1)`. -/
def Binary.topGrid (b : Binary) : Int :=
  let bound := (b.significand.log2 : Int) + 1 + b.exponent
  bound * 30103 / 100000 + 2

/--
The shortest decimal of a positive double; zero has none. Seventeen digits tell any two doubles
apart and the walk starts at most four places above the first digit, so twenty-two grids suffice.
-/
def Binary.shortest? (tie : Tie) (b : Binary) : Option Scientific :=
  if b.significand = 0 then none else searchGrids tie b 22 b.topGrid

end MemoryHierarchy.Decimal
