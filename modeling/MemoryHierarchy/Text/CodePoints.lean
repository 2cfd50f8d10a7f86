/-!
# Sets of code points

A property of characters is a list of closed ranges of code points, ascending and apart.
-/

namespace MemoryHierarchy.Text

/-- A set of code points as closed ranges. -/
abbrev CodePoints := List (Nat × Nat)

namespace CodePoints

/-- Does the set hold a character? -/
def holds (ranges : CodePoints) (c : Char) : Bool :=
  ranges.any fun (first, last) => first ≤ c.toNat && c.toNat ≤ last

/-- Are the ranges ascending, with a gap between any two? -/
def ascending : CodePoints → Bool
  | [] => true
  | [(first, last)] => first ≤ last
  | (first, last) :: (next, final) :: rest =>
    first ≤ last && last + 1 < next && ascending ((next, final) :: rest)

theorem holds_iff {ranges : CodePoints} {c : Char} :
    ranges.holds c = true ↔ ∃ range ∈ ranges, range.1 ≤ c.toNat ∧ c.toNat ≤ range.2 := by
  simp [holds]

end CodePoints

end MemoryHierarchy.Text
