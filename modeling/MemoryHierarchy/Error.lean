import MemoryHierarchy.Check.Diagnostic
import MemoryHierarchy.FileTree
import MemoryHierarchy.Json.Printer
import MemoryHierarchy.Text.Quoted

/-!
# Errors

Every failure is a cause with the data it speaks of. The wording of all causes stands in
`ConversionError.message` and `CompileError.message`.
-/

namespace MemoryHierarchy

/-- What a typed field accepts. -/
inductive Expected where
  | word
  | halfWord
  | size
  | float
  | string
  | boolean
  | sequence
  | instructionBuffer
deriving DecidableEq, Repr

/-- The name of what a typed field accepts. -/
def Expected.text : Expected → String
  | word => "u64"
  | halfWord => "u32"
  | size => "usize"
  | float => "f64"
  | string => "a string"
  | boolean => "a boolean"
  | sequence => "a sequence"
  | instructionBuffer => "struct Dib"

/-- Why a document does not fit a typed record. -/
inductive ConversionError where
  /-- The value is of another kind. -/
  | wrongType (found : Json) (expected : Expected)
  /-- The integer is out of range. -/
  | outOfRange (found : Int) (expected : Expected)
  /-- A field has no value. -/
  | missing (key : String)
  /-- A list of values for the fields of a record is too short. -/
  | tooShort (length : Nat)
  /-- A list of values for the fields of a record is too long. -/
  | tooLong (length : Nat)
deriving DecidableEq

/-- A value as a conversion error shows it. -/
def Json.shown : Json → String
  | .null => "null"
  | .bool b => "boolean `" ++ toString b ++ "`"
  | .number (.integer n) => "integer `" ++ toString n ++ "`"
  | .number (.float x) => "floating point `" ++ Json.floatLayout.write x ++ "`"
  | .string s => "string " ++ Text.quoted s
  | .array _ => "sequence"
  | .object _ => "map"

/-- The text of a conversion error. -/
def ConversionError.message : ConversionError → String
  | wrongType found expected =>
    "invalid type: " ++ found.shown ++ ", expected " ++ expected.text
  | outOfRange found expected =>
    "invalid value: integer `" ++ toString found ++ "`, expected " ++ expected.text
  | missing key => "missing field `" ++ key ++ "`"
  | tooShort length =>
    "invalid length " ++ toString length ++ ", expected struct Dib with 3 elements"
  | tooLong length =>
    "invalid length " ++ toString length ++ ", expected fewer elements in array"

/-- Why a configuration does not compile. -/
inductive CompileError where
  /-- A value does not have the shape that its place requires. -/
  | structural (path expected : String) (found : Json)
  /-- A file does not hold what it should. -/
  | parse (path : String)
  /-- A file could not be read or written. -/
  | io (path : String) (cause : FileError)
  /-- A resolved record does not fit its type. -/
  | model (record : String) (cause : ConversionError)
  /-- Checks have failed. -/
  | invalid (diagnostics : List Diagnostic)
  /-- A chain of lower levels comes back to a record. -/
  | cycle (start : String) (chain : List String)
  /-- An element would be declared before one that it refers to. -/
  | forwardReference (element reference : String)
deriving DecidableEq

/-- The text of an error. -/
def CompileError.message : CompileError → String
  | structural path expected found =>
    "malformed configuration at `" ++ path ++ "`: expected " ++ expected ++ ", found "
      ++ found.kindName
  | parse path => "failed to parse `" ++ path ++ "`"
  | io path cause => "I/O error on `" ++ path ++ "`: " ++ cause.message
  | model record cause => "record `" ++ record ++ "` cannot be modelled: " ++ cause.message
  | invalid diagnostics =>
    "configuration is invalid (" ++ toString diagnostics.length ++ " problem(s)):\n"
      ++ "\n".intercalate (diagnostics.map Diagnostic.message)
  | cycle start chain =>
    "cycle in lower_level chain starting at `" ++ start ++ "`: " ++ " -> ".intercalate chain
  | forwardReference element reference =>
    "`" ++ element ++ "` refers to `" ++ reference ++ "`, which is not declared before it"

end MemoryHierarchy
