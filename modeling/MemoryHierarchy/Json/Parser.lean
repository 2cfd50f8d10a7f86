import MemoryHierarchy.Json.Basic

/-!
# Reading documents

The grammar is that of RFC 8259, with at most 127 containers inside one another. A `Json.Reader`
takes the characters that are left and returns what it read with the characters behind it; nothing
is returned for text outside the grammar. `Json.parseWritten?` reads one value that takes up the
whole text, and `Json.parse?` then settles the keys that are written twice: `wellKeyed_settle` says
that none is left.
-/

namespace MemoryHierarchy

/-- The parts of a number as it is written. -/
structure Numeral where
  negative : Bool
  whole : List Char
  fraction : Option (List Char)
  exponent : Option Int
deriving DecidableEq

namespace Numeral

/-- The value of a decimal digit. -/
def digitValue (c : Char) : Nat := c.toNat - '0'.toNat

/-- The number that a run of digits writes. -/
def ofDigits (digits : List Char) : Nat :=
  digits.foldl (fun n c => 10 * n + digitValue c) 0

/--
Extends a significand by the digits that still fit 64 bits, and tells how many digits are left out.
-/
def extend (significand : Nat) : List Char → Nat × Nat
  | [] => (significand, 0)
  | c :: rest =>
    let next := 10 * significand + digitValue c
    if next < UInt64.size then extend next rest else (significand, rest.length + 1)

/-- A power of ten as a double, for exponents up to 308. -/
def powerOfTen (n : Nat) : Float := Float.ofScientific 1 false n

/--
A significand of 64 bits times a power of ten: one multiplication, or one division for each 308
places. A product out of range is no number.
-/
def scaled? (significand : Nat) (exponent : Int) : Option Float :=
  let x := significand.toUInt64.toFloat
  if 308 < exponent then
    if significand = 0 then some x else none
  else if 0 ≤ exponent then
    let product := x * powerOfTen exponent.toNat
    if product.isFinite then some product else none
  else if -308 ≤ exponent then some (x / powerOfTen (-exponent).toNat)
  else if -616 ≤ exponent then some (x / powerOfTen 308 / powerOfTen (-exponent - 308).toNat)
  else some 0.0

/--
The double that a numeral writes: the leading digits that fit 64 bits are kept, a further digit of
the whole part counts as a place and a further digit of the fraction not at all.
-/
def float? (n : Numeral) : Option Float :=
  let (whole, places) := extend 0 n.whole
  let fraction := n.fraction.getD []
  let (significand, dropped) := extend whole fraction
  let shift : Int := places - (fraction.length - dropped : Nat)
  (scaled? significand (shift + n.exponent.getD 0)).map fun x => if n.negative then -x else x

/--
The number that a numeral writes: an integer when it has neither fraction nor exponent and 64 bits
hold it, otherwise a double. Minus zero is a double.
-/
def number? (n : Numeral) : Option Number :=
  let magnitude := ofDigits n.whole
  if n.fraction.isNone ∧ n.exponent.isNone ∧ ¬n.negative ∧ magnitude < UInt64.size then
    some (.integer magnitude)
  else if n.fraction.isNone ∧ n.exponent.isNone ∧ n.negative ∧ 0 < magnitude
      ∧ magnitude ≤ 0x8000000000000000 then
    some (.integer (-magnitude))
  else n.float?.map .float

end Numeral

namespace Json

/-- Reads something off the front of a text. -/
abbrev Reader (α : Type) := List Char → Option (α × List Char)

/-- The blanks between tokens. -/
def isBlank (c : Char) : Bool := c = ' ' ∨ c = '\t' ∨ c = '\n' ∨ c = '\r'

/-- Passes over blanks. -/
def skipBlanks (cs : List Char) : List Char := cs.dropWhile isBlank

/-- A run of digits, and what follows it. -/
def spanDigits (cs : List Char) : List Char × List Char :=
  (cs.takeWhile Char.isDigit, cs.dropWhile Char.isDigit)

/-- The fraction of a number: a point needs a digit behind it. -/
def readFraction : Reader (Option (List Char))
  | '.' :: cs =>
    match spanDigits cs with
    | ([], _) => none
    | (digits, rest) => some (some digits, rest)
  | cs => some (none, cs)

/-- The digits of an exponent behind its sign. -/
def readExponentDigits (sign : Int) : Reader (Option Int) := fun cs =>
  match spanDigits cs with
  | ([], _) => none
  | (digits, rest) => some (some (sign * Numeral.ofDigits digits), rest)

/-- The exponent of a number. -/
def readExponent : Reader (Option Int)
  | 'e' :: '+' :: cs | 'E' :: '+' :: cs => readExponentDigits 1 cs
  | 'e' :: '-' :: cs | 'E' :: '-' :: cs => readExponentDigits (-1) cs
  | 'e' :: cs | 'E' :: cs => readExponentDigits 1 cs
  | cs => some (none, cs)

/-- The whole part of a number: no zero stands in front of another digit. -/
def readWhole : Reader (List Char) := fun cs =>
  match spanDigits cs with
  | ([], _) => none
  | ('0' :: _ :: _, _) => none
  | (digits, rest) => some (digits, rest)

/-- A number without its minus sign. -/
def readMagnitude (negative : Bool) : Reader Numeral := fun cs => do
  let (whole, cs) ← readWhole cs
  let (fraction, cs) ← readFraction cs
  let (exponent, cs) ← readExponent cs
  some (⟨negative, whole, fraction, exponent⟩, cs)

/-- A number as it is written. -/
def readNumeral : Reader Numeral
  | '-' :: cs => readMagnitude true cs
  | cs => readMagnitude false cs

/-- A number that is in range. -/
def readNumber : Reader Json := fun cs => do
  let (numeral, cs) ← readNumeral cs
  let n ← numeral.number?
  some (.number n, cs)

/-- The value of a hexadecimal digit. -/
def hexValue? (c : Char) : Option Nat :=
  if c.isDigit then some (c.toNat - '0'.toNat)
  else if 'a' ≤ c ∧ c ≤ 'f' then some (c.toNat - 'a'.toNat + 10)
  else if 'A' ≤ c ∧ c ≤ 'F' then some (c.toNat - 'A'.toNat + 10)
  else none

/-- The value of four hexadecimal digits. -/
def hexUnit? (a b c d : Char) : Option Nat := do
  let a ← hexValue? a
  let b ← hexValue? b
  let c ← hexValue? c
  let d ← hexValue? d
  some (((16 * a + b) * 16 + c) * 16 + d)

/-- The character that a pair of surrogates writes. -/
def joinSurrogates? (high low : Nat) : Option Char :=
  if 0xDC00 ≤ low ∧ low < 0xE000 then
    some (Char.ofNat (0x10000 + (high - 0xD800) * 0x400 + (low - 0xDC00)))
  else none

/-- The character of a one-letter escape. -/
def simpleEscape? : Char → Option Char
  | '"' => some '"'
  | '\\' => some '\\'
  | '/' => some '/'
  | 'b' => some '\x08'
  | 'f' => some '\x0c'
  | 'n' => some '\n'
  | 'r' => some '\r'
  | 't' => some '\t'
  | _ => none

/-- The rest of a string, up to its closing quote; `read` holds the characters so far, last first.
A high surrogate is read only with the low one behind it. -/
def readStringRest (read : List Char) : Reader String
  | [] => none
  | '"' :: cs => some (String.ofList read.reverse, cs)
  | '\\' :: 'u' :: a :: b :: c :: d :: cs =>
    match hexUnit? a b c d with
    | none => none
    | some unit =>
      if 0xD800 ≤ unit ∧ unit < 0xDC00 then
        match cs with
        | '\\' :: 'u' :: e :: f :: g :: h :: cs =>
          match (hexUnit? e f g h).bind (joinSurrogates? unit) with
          | none => none
          | some c => readStringRest (c :: read) cs
        | _ => none
      else if 0xDC00 ≤ unit ∧ unit < 0xE000 then none
      else readStringRest (Char.ofNat unit :: read) cs
  | '\\' :: c :: cs =>
    match simpleEscape? c with
    | none => none
    | some c => readStringRest (c :: read) cs
  | c :: cs => if c.toNat < 32 ∨ c = '\\' then none else readStringRest (c :: read) cs

/-- The rest of a container behind its opening bracket or a comma, where `part` reads what stands
between commas. `fuel` bounds the number of parts. -/
def readParts {α : Type} (close : Char) (part : Reader α) (read : List α) :
    Nat → Reader (List α)
  | 0, _ => none
  | fuel + 1, cs =>
    match part cs with
    | none => none
    | some (value, cs) =>
      match skipBlanks cs with
      | ',' :: cs => readParts close part (value :: read) fuel cs
      | c :: cs => if c = close then some ((value :: read).reverse, cs) else none
      | [] => none

/-- The rest of a container behind its opening bracket. -/
def readContainer {α : Type} (close : Char) (part : Reader α) : Reader (List α) := fun cs =>
  match skipBlanks cs with
  | [] => none
  | c :: rest => if c = close then some ([], rest) else readParts close part [] cs.length cs

/-- The key of a field, with the colon behind it. -/
def readKey : Reader String := fun cs =>
  match skipBlanks cs with
  | '"' :: cs =>
    match readStringRest [] cs with
    | none => none
    | some (key, cs) =>
      match skipBlanks cs with
      | ':' :: cs => some (key, cs)
      | _ => none
  | _ => none

/-- A field of a mapping: a key, a colon and a value. -/
def readField (item : Reader Json) : Reader (String × Json) := fun cs =>
  match readKey cs with
  | none => none
  | some (key, cs) => (item cs).map fun (value, cs) => ((key, value), cs)

/-- A value with at most `depth` containers inside one another. -/
def readValue : Nat → Reader Json
  | depth, cs =>
    match depth, skipBlanks cs with
    | _, '"' :: cs => (readStringRest [] cs).map fun (s, cs) => (.string s, cs)
    | _, 'n' :: 'u' :: 'l' :: 'l' :: cs => some (.null, cs)
    | _, 't' :: 'r' :: 'u' :: 'e' :: cs => some (.bool true, cs)
    | _, 'f' :: 'a' :: 'l' :: 's' :: 'e' :: cs => some (.bool false, cs)
    | depth + 1, '[' :: cs =>
      (readContainer ']' (readValue depth) cs).map fun (items, cs) => (.array items, cs)
    | depth + 1, '\x7b' :: cs =>
      (readContainer '\x7d' (readField (readValue depth)) cs).map fun (fields, cs) =>
        (.object fields, cs)
    | _, cs => readNumber cs

/-- How many containers may stand inside one another. -/
def maxDepth : Nat := 127

/-- What a reader reads that takes up a whole text. -/
def readAll? {α : Type} (read : Reader α) (text : String) : Option α :=
  match read text.toList with
  | some (value, cs) => if (skipBlanks cs).isEmpty then some value else none
  | none => none

/-- The value that a text writes, where mappings still have all their fields as written. -/
def parseWritten? (text : String) : Option Json := readAll? (readValue maxDepth) text

mutual

/-- Settles repeated keys in every mapping: the first place and the last value count. -/
def settle : Json → Json
  | .array items => .array (settleItems items)
  | .object fields => .object (Document.ofFields (settleFields fields))
  | value => value

/-- Settles each item of a list. -/
def settleItems : List Json → List Json
  | [] => []
  | item :: rest => settle item :: settleItems rest

/-- Settles the value of each field. -/
def settleFields : List (String × Json) → List (String × Json)
  | [] => []
  | (key, value) :: rest => (key, settle value) :: settleFields rest

end

mutual

/-- What is settled is well keyed. -/
theorem wellKeyed_settle : (value : Json) → value.settle.wellKeyed = true
  | .null | .bool _ | .number _ | .string _ => by simp [settle, wellKeyed]
  | .array items => by simp [settle, wellKeyed, itemsWellKeyed_settleItems items]
  | .object fields => by
    simp [settle, wellKeyed, Document.distinct_ofFields,
      Document.fieldsWellKeyed_ofFields (fieldsWellKeyed_settleFields fields)]

theorem itemsWellKeyed_settleItems : (items : List Json) →
    itemsWellKeyed (settleItems items) = true
  | [] => by simp [settleItems, itemsWellKeyed]
  | item :: rest => by
    simp [settleItems, itemsWellKeyed, wellKeyed_settle item, itemsWellKeyed_settleItems rest]

theorem fieldsWellKeyed_settleFields : (fields : List (String × Json)) →
    fieldsWellKeyed (settleFields fields) = true
  | [] => by simp [settleFields, fieldsWellKeyed]
  | (key, value) :: rest => by
    simp [settleFields, fieldsWellKeyed, wellKeyed_settle value,
      fieldsWellKeyed_settleFields rest]

end

/-- The value that a text writes. -/
def parse? (text : String) : Option Json := (parseWritten? text).map settle

end Json

end MemoryHierarchy
