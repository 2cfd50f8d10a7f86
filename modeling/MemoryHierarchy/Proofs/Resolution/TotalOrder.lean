import Mathlib.Algebra.Group.Nat.Defs
import MemoryHierarchy.Resolution.Timing

/-!
# The total order of doubles

Frequencies are compared by `totalRank`, which orders all doubles by their bits. On numbers this
refines the order of their values, in which the two zeros are equal (`le_of_totalRank_le`): below
the sign, the bits of a number grow with its exponent and, where that is the same, with its
significand.
-/

namespace MemoryHierarchy

open Float.Model (Format UnpackedFloat)
open Float.Model.UnpackedFloat (Sign)

/-- The rank of a double with a sign and the bits below it. -/
def signedRank (sign : Sign) (magnitude : Nat) : Int :=
  match sign with
  | .negative => -(magnitude : Int) - 1
  | .positive => magnitude

/-- A number and the bits below its sign. A finite number other than zero has an exponent of eleven
bits, counted from that of the smallest numbers, and a significand whose leading bit is only missing
in the smallest ones. -/
inductive HasBits : UnpackedFloat → Sign → Nat → Prop
  | infinity (sign : Sign) : HasBits (.infinity sign) sign (2047 * 2 ^ 52)
  | zero (sign : Sign) : HasBits (.zero sign) sign 0
  | finite (sign : Sign) (significand exponent : Nat) (power : Int) (hpos : 0 < significand)
      (hpower : power = exponent - 1074) (hsignificand : significand < 2 ^ 53)
      (hexponent : exponent ≤ 2045) (hleading : exponent = 0 ∨ 2 ^ 52 ≤ significand) :
      HasBits (.finite sign significand power hpos) sign (exponent * 2 ^ 52 + significand)

/-- Of two finite numbers of one sign, the one with the smaller bits has the smaller exponent, or
the same exponent and no greater significand. -/
theorem compare_isLE_of_bits_le {significand significand' exponent exponent' : Nat}
    {power power' : Int} (hpower : power = exponent - 1074) (hpower' : power' = exponent' - 1074)
    (hsignificand' : significand' < 2 ^ 53) (hleading : exponent = 0 ∨ 2 ^ 52 ≤ significand)
    (hle : exponent * 2 ^ 52 + significand ≤ exponent' * 2 ^ 52 + significand') :
    ((compare power power').then (compare significand significand')).isLE = true := by
  rcases Nat.lt_trichotomy exponent exponent' with hlt | heq | hgt
  · have hcompare : compare power power' = .lt := Int.compare_eq_lt.mpr (by omega)
    rw [hcompare]
    rfl
  · have hcompare : compare power power' = .eq := Int.compare_eq_eq.mpr (by omega)
    rw [hcompare]
    exact Nat.isLE_compare.mpr (by omega)
  · omega

/-- The order of ranks refines the order of numbers. -/
theorem HasBits.le {x y : UnpackedFloat} {sign sign' : Sign} {magnitude magnitude' : Nat}
    (hx : HasBits x sign magnitude) (hy : HasBits y sign' magnitude')
    (hle : signedRank sign magnitude ≤ signedRank sign' magnitude') : x.le y = true := by
  cases hx with
  | infinity =>
    cases hy with
    | infinity => cases sign <;> cases sign' <;> first | rfl | (simp [signedRank] at hle)
    | zero => cases sign <;> cases sign' <;> first | rfl | (simp [signedRank] at hle)
    | finite =>
      cases sign with
      | negative => cases sign' <;> rfl
      | positive => cases sign' <;> simp only [signedRank] at hle <;> omega
  | zero =>
    cases hy with
    | infinity => cases sign <;> cases sign' <;> first | rfl | (simp [signedRank] at hle)
    | zero => rfl
    | finite =>
      cases sign' with
      | negative => cases sign <;> simp only [signedRank] at hle <;> omega
      | positive => cases sign <;> rfl
  | finite _ significand exponent power _ hpower hsignificand _ hleading =>
    cases hy with
    | infinity =>
      cases sign' with
      | negative => cases sign <;> simp only [signedRank] at hle <;> omega
      | positive => cases sign <;> rfl
    | zero =>
      cases sign with
      | negative => cases sign' <;> rfl
      | positive => cases sign' <;> simp only [signedRank] at hle <;> omega
    | finite _ significand' exponent' power' _ hpower' hsignificand' _ hleading' =>
      cases sign with
      | negative =>
        cases sign' with
        | negative =>
          -- of two negative numbers the smaller one has the greater bits
          simp only [signedRank] at hle
          change ((compare power power').then (compare significand significand')).swap.isLE = true
          rw [Ordering.swap_then, Int.compare_swap, Nat.compare_swap]
          exact compare_isLE_of_bits_le hpower' hpower hsignificand hleading' (by omega)
        | positive => rfl
      | positive =>
        cases sign' with
        | negative => simp only [signedRank] at hle; omega
        | positive =>
          simp only [signedRank] at hle
          exact compare_isLE_of_bits_le hpower hpower' hsignificand' hleading (by omega)

/-! ## Reading bits

A double is unpacked into sign, exponent and mantissa, and packed again. Ranks are taken from the
bits, so the bits of what is unpacked have to be those that were there. -/

variable (bits : BitVec Format.binary64.numBits)

theorem toNat_unpackMantissa :
    (UnpackedFloat.unpackMantissa bits).toNat = bits.toNat % 2 ^ 52 := by
  simp [UnpackedFloat.unpackMantissa, BitVec.extractLsb, BitVec.extractLsb'_toNat]

theorem toNat_unpackExponent :
    (UnpackedFloat.unpackExponent bits).toNat = bits.toNat / 2 ^ 52 % 2 ^ 11 := by
  simp [UnpackedFloat.unpackExponent, BitVec.extractLsb, BitVec.extractLsb'_toNat,
    Nat.shiftRight_eq_div_pow]

theorem ofBitVec_unpackSign :
    Sign.ofBitVec (UnpackedFloat.unpackSign bits) =
      if bits.toNat / 2 ^ 63 = 1 then .negative else .positive := by
  have hbits : bits.toNat < 2 ^ 64 := bits.isLt
  have hsign : (UnpackedFloat.unpackSign bits).toNat = bits.toNat / 2 ^ 63 := by
    change (BitVec.extractLsb 63 63 bits).toNat = bits.toNat / 2 ^ 63
    rw [BitVec.extractLsb, BitVec.extractLsb'_toNat, Nat.shiftRight_eq_div_pow]
    omega
  unfold Sign.ofBitVec
  simp only [← BitVec.toNat_inj, hsign, BitVec.toNat_ofNat]
  split
  · rw [if_neg (by omega)]
  · rw [if_pos (by omega)]

/-- What is read from bits that stand for a number has these bits. -/
theorem hasBits_unpack (hnumber : (UnpackedFloat.unpack Format.binary64 bits).isNaN = false) :
    HasBits (UnpackedFloat.unpack Format.binary64 bits)
      (if bits.toNat / 2 ^ 63 = 1 then .negative else .positive) (bits.toNat % 2 ^ 63) := by
  have hmantissa := toNat_unpackMantissa bits
  have hexponent := toNat_unpackExponent bits
  have hbits : bits.toNat % 2 ^ 63 =
      bits.toNat / 2 ^ 52 % 2 ^ 11 * 2 ^ 52 + bits.toNat % 2 ^ 52 := by
    omega
  have hbias : Format.binary64.exponentBias = 1023 := rfl
  rw [hbits, ← hmantissa, ← hexponent]
  unfold UnpackedFloat.unpack at hnumber ⊢
  dsimp only at hnumber ⊢
  rw [ofBitVec_unpackSign] at hnumber ⊢
  by_cases hlargest : UnpackedFloat.unpackExponent bits = -1#11
  · rw [if_pos hlargest] at hnumber ⊢
    by_cases hzero : UnpackedFloat.unpackMantissa bits = 0#52
    · rw [if_pos hzero, hlargest, hzero]
      exact .infinity _
    · rw [if_neg hzero] at hnumber
      cases hnumber
  rw [if_neg hlargest]
  rw [← BitVec.toNat_inj] at hlargest
  by_cases hsmallest : UnpackedFloat.unpackExponent bits = 0#11
  · rw [if_pos hsmallest]
    by_cases hzero : UnpackedFloat.unpackMantissa bits = 0#52
    · rw [dif_pos hzero, hsmallest, hzero]
      exact .zero _
    · rw [dif_neg hzero, hsmallest]
      refine .finite _ _ 0 _ _ ?_ ?_ (by omega) (Or.inl rfl)
      · rw [hbias]
        rfl
      · omega
  · rw [if_neg hsmallest]
    rw [← BitVec.toNat_inj] at hsmallest
    -- the leading bit of the significand is not stored
    have hleading : (1#1 ++ UnpackedFloat.unpackMantissa bits).toNat =
        2 ^ 52 + (UnpackedFloat.unpackMantissa bits).toNat := by
      rw [BitVec.toNat_append, ← Nat.shiftLeft_add_eq_or_of_lt (BitVec.isLt _)]
      rfl
    have hlargest' : (UnpackedFloat.unpackExponent bits).toNat ≠ 2047 := hlargest
    have hsmallest' : (UnpackedFloat.unpackExponent bits).toNat ≠ 0 := hsmallest
    have hmagnitude : (UnpackedFloat.unpackExponent bits).toNat * 2 ^ 52 +
        (UnpackedFloat.unpackMantissa bits).toNat =
          ((UnpackedFloat.unpackExponent bits).toNat - 1) * 2 ^ 52 +
            (1#1 ++ UnpackedFloat.unpackMantissa bits).toNat := by
      omega
    rw [hmagnitude]
    refine .finite _ _ _ _ _ ?_ ?_ ?_ (Or.inr ?_)
    · rw [hbias]
      omega
    · omega
    · omega
    · omega

/-- The sign of a double. -/
def signOf (x : Float) : Sign :=
  if x.toBits.toNat / 2 ^ 63 = 1 then .negative else .positive

theorem totalRank_eq (x : Float) :
    totalRank x = signedRank (signOf x) (x.toBits.toNat % 2 ^ 63) := by
  have hsignBit : Decimal.signBit x.toBits = decide (x.toBits.toNat / 2 ^ 63 = 1) := by
    rw [Decimal.signBit, Nat.shiftRight_eq_div_pow]
  have hmagnitude : (1 <<< 63 : Nat) = 2 ^ 63 := rfl
  rw [totalRank, hsignBit, hmagnitude, signOf]
  by_cases hsign : x.toBits.toNat / 2 ^ 63 = 1
  · rw [if_pos (decide_eq_true hsign), if_pos hsign]
    rfl
  · rw [if_neg (by rwa [decide_eq_true_iff]), if_neg hsign]
    rfl

/-- **The order of ranks refines the order of numbers.** -/
theorem le_of_totalRank_le {x y : Float} (hx : x.isNaN = false) (hy : y.isNaN = false)
    (hle : totalRank x ≤ totalRank y) : x ≤ y := by
  rw [totalRank_eq, totalRank_eq] at hle
  exact decide_eq_true ((hasBits_unpack _ hx).le (hasBits_unpack _ hy) hle)

end MemoryHierarchy
