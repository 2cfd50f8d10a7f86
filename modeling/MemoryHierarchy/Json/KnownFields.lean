import MemoryHierarchy.Json.Parser

/-!
# Reading known fields

A mapping may hold more fields than its reader knows. What stands under an unknown key is passed
over: the grammar holds for it, but no value is made of it, so that it may be nested without limit,
its numbers may be out of range and its escapes may be surrogates that stand alone.

`readKnown` reads a mapping, or a list of the fields in their order, with one reader for each known
field. The values that it passes over need no recursion: `Skipping` holds what is still open.
-/

namespace MemoryHierarchy.Json

/-- A kind of container. -/
inductive Container where
  | list
  | mapping

/-- How far a value has been passed over: the containers that are still open, innermost first, and
the characters that are left. -/
inductive Skipping where
  /-- A value is due. -/
  | due (inside : List Container) (cs : List Char)
  /-- A value has been passed over. -/
  | behind (inside : List Container) (cs : List Char)

/-- Passes over the rest of a string, up to its closing quote. -/
def skipString : List Char → Option (List Char)
  | [] => none
  | '"' :: cs => some cs
  | '\\' :: 'u' :: a :: b :: c :: d :: cs =>
    if (hexUnit? a b c d).isSome then skipString cs else none
  | '\\' :: c :: cs => if (simpleEscape? c).isSome then skipString cs else none
  | c :: cs => if c.toNat < 32 ∨ c = '\\' then none else skipString cs

/-- Passes over the key of a field and the colon behind it. -/
def skipKey (cs : List Char) : Option (List Char) :=
  match skipBlanks cs with
  | '"' :: cs =>
    match (skipString cs).map skipBlanks with
    | some (':' :: cs) => some cs
    | _ => none
  | _ => none

namespace Skipping

/-- Passes over a value without parts, or over the opening bracket of a container with what stands
before its first value. -/
def enter? (inside : List Container) (cs : List Char) : Option Skipping :=
  match skipBlanks cs with
  | '"' :: cs => (skipString cs).map (.behind inside)
  | 'n' :: 'u' :: 'l' :: 'l' :: cs => some (.behind inside cs)
  | 't' :: 'r' :: 'u' :: 'e' :: cs => some (.behind inside cs)
  | 'f' :: 'a' :: 'l' :: 's' :: 'e' :: cs => some (.behind inside cs)
  | '[' :: cs =>
    match skipBlanks cs with
    | ']' :: cs => some (.behind inside cs)
    | cs => some (.due (.list :: inside) cs)
  | '\x7b' :: cs =>
    match skipBlanks cs with
    | '\x7d' :: cs => some (.behind inside cs)
    | cs => (skipKey cs).map (.due (.mapping :: inside))
  | cs => (readNumeral cs).map fun (_, cs) => .behind inside cs

/-- Passes over what follows a value in a container: a comma with what stands before the next value,
or the closing bracket. -/
def next? (container : Container) (outer : List Container) (cs : List Char) : Option Skipping :=
  match container, skipBlanks cs with
  | .list, ']' :: cs => some (.behind outer cs)
  | .mapping, '\x7d' :: cs => some (.behind outer cs)
  | .list, ',' :: cs => some (.due (.list :: outer) cs)
  | .mapping, ',' :: cs => (skipKey cs).map (.due (.mapping :: outer))
  | _, _ => none

/-- Passes over what is left of a value. `fuel` bounds the number of steps, each of which passes
over a character at least. -/
def finish? : Nat → Skipping → Option (List Char)
  | _, .behind [] cs => some cs
  | 0, _ => none
  | fuel + 1, .due inside cs =>
    match enter? inside cs with
    | some s => finish? fuel s
    | none => none
  | fuel + 1, .behind (container :: outer) cs =>
    match next? container outer cs with
    | some s => finish? fuel s
    | none => none

end Skipping

/-- Passes over a value. -/
def skipValue (cs : List Char) : Option (List Char) := Skipping.finish? cs.length (.due [] cs)

/-- A field of a mapping, if its key is known. -/
def readKnownField (known : List (String × Reader Json)) : Reader (Option (String × Json)) :=
  fun cs =>
    match readKey cs with
    | none => none
    | some (key, cs) =>
      match known.lookup key with
      | some read => (read cs).map fun (value, cs) => (some (key, value), cs)
      | none => (skipValue cs).map fun cs => (none, cs)

/-- The rest of a list behind its opening bracket or a comma, with one reader for each item that may
follow. -/
def readInOrder (read : List Json) : List (Reader Json) → Reader (List Json)
  | [], _ => none
  | reader :: readers, cs =>
    match reader cs with
    | none => none
    | some (value, cs) =>
      match skipBlanks cs with
      | ',' :: cs => readInOrder (value :: read) readers cs
      | ']' :: cs => some ((value :: read).reverse, cs)
      | _ => none

/-- The known fields of a mapping as they are written, or a list of their values in the order of the
fields, which may end early. -/
def readKnown (known : List (String × Reader Json)) : Reader Json := fun cs =>
  match skipBlanks cs with
  | '\x7b' :: cs =>
    (readContainer '\x7d' (readKnownField known) cs).map fun (fields, cs) =>
      (.object (fields.filterMap id), cs)
  | '[' :: cs =>
    match skipBlanks cs with
    | ']' :: cs => some (.array [], cs)
    | cs =>
      (readInOrder [] (known.map Prod.snd) cs).map fun (items, cs) => (.array items, cs)
  | _ => none

end MemoryHierarchy.Json
