import MemoryHierarchy.Text.Extending
import MemoryHierarchy.Text.Unprintable

/-!
# Quoted text in messages

A string in a message stands between quotes, and what could not be told from its neighbours when it
is printed is escaped: quotes, backslashes, characters that are not printed as they are, and
characters that extend the one before them.
-/

namespace MemoryHierarchy.Text

/-- A character written as its code point. -/
def codePointEscape (c : Char) : List Char :=
  ['\\', 'u', '\x7b'] ++ Nat.toDigits 16 c.toNat ++ ['\x7d']

/-- Does a character stand for itself between quotes? -/
def isPlain (c : Char) : Bool := !unprintable.holds c && !extending.holds c

/-- A character between quotes. -/
def quotedChar (c : Char) : List Char :=
  match c with
  | '"' => ['\\', '"']
  | '\\' => ['\\', '\\']
  | '\t' => ['\\', 't']
  | '\n' => ['\\', 'n']
  | '\r' => ['\\', 'r']
  | '\x00' => ['\\', '0']
  | c => if isPlain c then [c] else codePointEscape c

/-- A string between quotes. -/
def quoted (s : String) : String :=
  String.ofList ('"' :: s.toList.flatMap quotedChar ++ ['"'])

end MemoryHierarchy.Text
