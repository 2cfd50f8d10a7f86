import MemoryHierarchy.Decimal.Layout

/-!
# Pieces of generated text
-/

namespace MemoryHierarchy

/-- Lines as a text in which each of them is closed. A text therefore ends with a line break, and is
never empty. -/
def textOfLines (lines : List String) : String := "\n".intercalate lines ++ "\n"

/-- The first line of generated sources. -/
def generatedHeader : String := "// Generated by topogen. Do not edit."

/-- Parts of a mask; a mask without text is zero. A blank part counts as no text, but bars between
blank parts do. -/
def joinMask (parts : List String) : String :=
  let joined := " | ".intercalate parts
  if joined = "" then "0" else joined

/-- Doubles in the wiring are positional from `0.0001` to below `10 ^ 16` and keep a fraction
digit. -/
def literalLayout : Decimal.Layout where
  positional e := -4 ≤ e ∧ e < 16
  pointZero := true
  plusSign := false
  tie := .up

/-- Doubles in the header are always positional, and whole ones have no point. -/
def plainLayout : Decimal.Layout where
  positional _ := true
  pointZero := false
  plusSign := false
  tie := .up

end MemoryHierarchy
