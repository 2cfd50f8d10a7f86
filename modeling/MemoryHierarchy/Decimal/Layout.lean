import MemoryHierarchy.Decimal.Shortest

/-!
# Writing a double as text

The digits of a double are always its shortest ones; what differs between the texts of this library
is where positional notation ends and how the rest is dressed. A `Layout` holds those decisions, and
`Layout.write` applies them.
-/

namespace MemoryHierarchy.Decimal

/-- How the digits of a double are laid out. -/
structure Layout where
  /-- Is a number whose first digit stands at the place `10 ^ e` written without an exponent? -/
  positional : Int → Bool
  /-- Is a whole number in positional notation closed by `.0`? -/
  pointZero : Bool
  /-- Is the sign of a positive exponent written? -/
  plusSign : Bool
  tie : Tie

/-- The text of `digits * 10 ^ exponent` in positional notation. -/
def positionalText (pointZero : Bool) (digits : List Char) (exponent : Int) : List Char :=
  match exponent with
  | .ofNat zeros =>
    digits ++ List.replicate zeros '0' ++ (if pointZero then ['.', '0'] else [])
  | .negSucc n =>
    let places := n + 1
    let padded := List.replicate (places + 1 - digits.length) '0' ++ digits
    padded.take (padded.length - places) ++ '.' :: padded.drop (padded.length - places)

/-- The text of `digits * 10 ^ exponent` with one digit before the point and an exponent. -/
def exponentText (plusSign : Bool) (digits : List Char) (exponent : Int) : List Char :=
  let power := exponent + (digits.length - 1 : Nat)
  let mantissa :=
    match digits with
    | first :: second :: rest => first :: '.' :: second :: rest
    | short => short
  let sign := if power < 0 then ['-'] else if plusSign then ['+'] else []
  mantissa ++ 'e' :: (sign ++ (Nat.toDigits 10 power.natAbs))

/-- The magnitude of a positive decimal as text. -/
def Layout.magnitude (layout : Layout) (d : Scientific) : List Char :=
  let digits := Nat.toDigits 10 d.coefficient
  if layout.positional (d.exponent + (digits.length - 1 : Nat)) then
    positionalText layout.pointZero digits d.exponent
  else
    exponentText layout.plusSign digits d.exponent

/-- The text of a finite double; zero is written positionally and keeps its sign. -/
def Layout.write (layout : Layout) (x : Float) : String :=
  let sign := if signBit x.toBits then ['-'] else []
  let magnitude :=
    match (Binary.ofBits x.toBits).shortest? layout.tie with
    | some d => layout.magnitude d
    | none => positionalText layout.pointZero ['0'] 0
  String.ofList (sign ++ magnitude)

end MemoryHierarchy.Decimal
