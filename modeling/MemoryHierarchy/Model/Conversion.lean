import MemoryHierarchy.Error

/-!
# Typed fields

A typed record has a schema: its fields with a reader for each. A document is checked against the
schema first, `Schema.check`: its keys in the order of the document, the first bad value wins, and
then the fields of the schema in their order, the first one without a value wins. What passes can be
read field by field.
-/

namespace MemoryHierarchy

/-- Reads a value of a type from a document. -/
abbrev Reader (α : Type) := Json → Except ConversionError α

namespace Reader

/-- An integer from zero to below a bound. -/
def natural (bound : Nat) (expected : Expected) : Reader Nat
  | .number (.integer n) =>
    if 0 ≤ n ∧ n < bound then .ok n.toNat else .error (.outOfRange n expected)
  | found => .error (.wrongType found expected)

/-- An integer of 64 bits without a sign. -/
def word : Reader Nat := natural UInt64.size .word

/-- An integer of 32 bits without a sign. -/
def halfWord : Reader Nat := natural UInt32.size .halfWord

/-- A size or an index. -/
def size : Reader Nat := natural UInt64.size .size

/-- A number; an integer is taken for the nearest double. -/
def float : Reader Float
  | .number n => .ok n.toFloat
  | found => .error (.wrongType found .float)

/-- A string. -/
def string : Reader String
  | .string s => .ok s
  | found => .error (.wrongType found .string)

/-- A string, or null for none. -/
def nullableString : Reader (Option String)
  | .null => .ok none
  | value => (string value).map some

/-- A truth value. -/
def boolean : Reader Bool
  | .bool b => .ok b
  | found => .error (.wrongType found .boolean)

/-- A list of strings; the first item that is none wins. -/
def strings : Reader (List String)
  | .array items => items.mapM string
  | found => .error (.wrongType found .sequence)

end Reader

/-- A field of a typed record: a value may be required, and is checked where it is there. -/
structure Field where
  key : String
  required : Bool
  check : Json → Except ConversionError Unit

/-- A field that must have a value. -/
def Reader.field {α : Type} (read : Reader α) (key : String) : Field :=
  ⟨key, true, fun value => (read value).map fun _ => ()⟩

/-- A field that may be left out. -/
def Reader.optionalField {α : Type} (read : Reader α) (key : String) : Field :=
  ⟨key, false, fun value => (read value).map fun _ => ()⟩

/-- The fields of a typed record in their order. -/
abbrev Schema := List Field

namespace Schema

/-- Checks the value of a key that is a field; other keys pass. -/
def checkValue (schema : Schema) (field : String × Json) : Except ConversionError Unit :=
  match schema.find? (·.key = field.1) with
  | some known => known.check field.2
  | none => .ok ()

/-- Checks that a required field has a value. -/
def checkPresent (doc : Document) (field : Field) : Except ConversionError Unit :=
  if field.required ∧ ¬doc.contains field.key then .error (.missing field.key) else .ok ()

/-- Checks a document against a schema. -/
def check (schema : Schema) (doc : Document) : Except ConversionError Unit := do
  doc.forM schema.checkValue
  schema.forM (checkPresent doc)

/-- The keys of a schema. -/
def keys (schema : Schema) : List String := schema.map (·.key)

/-- The fields of a document that a schema does not know, in the order of their keys. -/
def others (schema : Schema) (doc : Document) : NameMap Json :=
  Std.ExtTreeMap.ofList (doc.filter fun field => field.1 ∉ schema.keys)

end Schema

namespace Document

/-- Reads a field that must have a value. -/
def read {α : Type} (doc : Document) (reader : Reader α) (key : String) :
    Except ConversionError α :=
  match doc.get? key with
  | some value => reader value
  | none => .error (.missing key)

/-- Reads a field that may be left out. -/
def readOptional {α : Type} (doc : Document) (reader : Reader (Option α)) (key : String) :
    Except ConversionError (Option α) :=
  match doc.get? key with
  | some value => reader value
  | none => .ok none

end Document

end MemoryHierarchy
