/-!
# Whole numbers in double precision

A double has 53 significant bits, so whole numbers from `2 ^ 53` on lie on a grid that doubles its
step with each power of two. `nearestDouble` takes a number to the nearest point of its grid;
below `2 ^ 53` it changes nothing (`nearestDouble_eq_self`).
-/

namespace MemoryHierarchy.Decimal

/-- The distance of two doubles that follow each other, for doubles as large as `n` and no less than
one. -/
def doubleSpacing (n : Nat) : Nat := 1 <<< (n.log2 - 52)

/-- The double nearest to a whole number; of two that are equally near, the one with an even
significand. -/
def nearestDouble (n : Nat) : Nat :=
  let spacing := doubleSpacing n
  let below := n / spacing
  let rest := n % spacing
  if 2 * rest < spacing ∨ 2 * rest = spacing ∧ below % 2 = 0 then below * spacing
  else (below + 1) * spacing

theorem doubleSpacing_eq_one {n : Nat} (h : n < 0x20000000000000) : doubleSpacing n = 1 := by
  have hlog : n.log2 < 53 := by
    by_cases hn : n = 0
    · simp [hn]
    · exact (Nat.log2_lt hn).2 h
  simp [doubleSpacing, Nat.sub_eq_zero_of_le (Nat.le_of_lt_succ hlog)]

theorem nearestDouble_eq_self {n : Nat} (h : n < 0x20000000000000) : nearestDouble n = n := by
  simp [nearestDouble, doubleSpacing_eq_one h, Nat.mod_one]

end MemoryHierarchy.Decimal
