import Mathlib.Order.Compare
import Skaidb.Types.Decimal

/-!
# The order of decimals

Decimals are compared in 128-bit arithmetic: the mantissa of the smaller scale is
multiplied up to the larger one, and where that leaves the 128 bits the sign decides. An
operation that can overflow or divide by zero has no result there, so a comparison that has
one met neither.
-/

namespace Skaidb

open Codec

/-! ## 128-bit arithmetic -/

namespace I128

/-- A result of 128-bit arithmetic, or nothing when it does not fit, as the checked operations
return it. -/
def check (z : ℤ) : Option ℤ := if -2 ^ 127 ≤ z ∧ z < 2 ^ 127 then some z else none

/-- `i128::checked_mul`: the product, or none when it does not fit in 128 bits. -/
def checkedMul (a b : ℤ) : Option ℤ := check (a * b)

/-- `i128::checked_add`: the sum, or none when it does not fit in 128 bits. -/
def checkedAdd (a b : ℤ) : Option ℤ := check (a + b)

/-- `i128::checked_pow`: the power, or none when it does not fit in 128 bits. -/
def checkedPow (base : ℤ) (exponent : ℕ) : Option ℤ := check (base ^ exponent)

/-- The quotient toward zero; nothing for a panic. -/
def div (a b : ℤ) : Option ℤ := if b = 0 then none else check (a.tdiv b)

/-- The remainder with the sign of the dividend; nothing for a panic. -/
def rem (a b : ℤ) : Option ℤ := if b = 0 then none else (check (a.tdiv b)).map fun _ => a.tmod b

/-- A result within the 128-bit range passes the check unchanged. -/
theorem check_of_fits {z : ℤ} (hlower : -2 ^ 127 ≤ z) (hupper : z < 2 ^ 127) :
    check z = some z := if_pos ⟨hlower, hupper⟩

/-- A natural number fits into 128 signed bits exactly when it is below the upper end. -/
theorem check_natCast (n : ℕ) : check n = if n < 2 ^ 127 then some (n : ℤ) else none := by
  unfold check
  split
  · next hfits =>
    have hlt : n < 2 ^ 127 := by omega
    rw [if_pos hlt]
  · next hfits =>
    have hle : ¬ n < 2 ^ 127 := by omega
    rw [if_neg hle]

/-- A power of ten fits when it has at most 38 zeros. -/
theorem checkedPow_ten (n : ℕ) :
    checkedPow 10 n = some (10 ^ n) ∧ n ≤ 38 ∨ checkedPow 10 n = none ∧ 39 ≤ n := by
  by_cases hn : n ≤ 38
  · left
    have hpos : (0 : ℤ) < 10 ^ n := by positivity
    have hle : (10 : ℤ) ^ n ≤ 10 ^ 38 := pow_le_pow_right₀ (by norm_num) hn
    exact ⟨check_of_fits (by linarith) (by linarith), hn⟩
  · right
    have hle : (10 : ℤ) ^ 39 ≤ 10 ^ n := pow_le_pow_right₀ (by norm_num) (by omega)
    have hbig : (2 : ℤ) ^ 127 ≤ 10 ^ 39 := by norm_num
    have hout : ¬ (-(2 : ℤ) ^ 127 ≤ 10 ^ n ∧ (10 : ℤ) ^ n < 2 ^ 127) := by
      intro hfits
      exact absurd (hbig.trans hle) (not_le.mpr hfits.2)
    exact ⟨by rw [checkedPow, check, if_neg hout], by omega⟩

/-- A quotient by a positive number fits when the dividend does. -/
theorem tdiv_fits {a b : ℤ} (hlower : -2 ^ 127 ≤ a) (hupper : a < 2 ^ 127) (hb : 0 < b) :
    -2 ^ 127 ≤ a.tdiv b ∧ a.tdiv b < 2 ^ 127 := by
  have habs : (a.tdiv b).natAbs ≤ a.natAbs := Int.natAbs_tdiv_le_natAbs a b
  constructor
  · omega
  · rcases Int.lt_or_le a 0 with hneg | hpos
    · have hnonneg : 0 ≤ (-a).tdiv b := Int.tdiv_nonneg (by omega) hb.le
      rw [Int.neg_tdiv] at hnonneg
      omega
    · omega

end I128

/-- The difference of two 32-bit numbers; nothing for a panic. -/
def subU32 (a b : UInt32) : Option UInt32 := if b ≤ a then some (a - b) else none

/-! ## The comparisons -/

/-- The whole part and the fraction at a power of ten, both truncated toward zero; nothing for
a panic. -/
def wholeAndFrac (mantissa : ℤ) : Option ℤ → Option (ℤ × ℤ)
  | some pow =>
    (I128.div mantissa pow).bind fun whole =>
      (I128.rem mantissa pow).map fun frac => (whole, frac)
  -- A scale past 38 digits leaves no whole part.
  | none => some (0, mantissa)

/-- Exact comparison of a 64-bit integer with a decimal; nothing for a panic. -/
def cmpI64Decimal (i : Int64) (d : Decimal) : Option Ordering :=
  (wholeAndFrac d.mantissa (I128.checkedPow 10 d.scale.toNat)).map fun (whole, frac) =>
    match compare i.toInt whole with
    | .eq => compare 0 frac
    | other => other

/-- The order of a decimal and one of a larger scale; nothing for a panic. -/
def cmpAligned (small large : Decimal) : Option Ordering :=
  (subU32 large.scale small.scale).map fun delta =>
    match (I128.checkedPow 10 delta.toNat).bind (I128.checkedMul small.mantissa) with
    | some m => compare m large.mantissa
    -- The power itself overflowed: a zero is still zero.
    | none => if small.mantissa = 0 then compare 0 large.mantissa else compare small.mantissa 0

/-- Exact comparison of two decimals; nothing for a panic. -/
def cmpDecimal (a b : Decimal) : Option Ordering :=
  if a.scale = b.scale then some (compare a.mantissa b.mantissa)
  -- The mantissa of the smaller scale is scaled up, and the result flipped back.
  else if a.scale < b.scale then cmpAligned a b
  else (cmpAligned b a).map Ordering.swap

/-! ## What they compare -/

/-- Two fractions over the same power of ten compare as their numerators do. -/
theorem compare_div_pow (m n : ℤ) (scale : ℕ) :
    compare ((m : ℚ) / 10 ^ scale) ((n : ℚ) / 10 ^ scale) = compare m n := by
  have hmono : StrictMono fun z : ℤ => (z : ℚ) / 10 ^ scale := by
    intro x y hxy
    have hpow : (0 : ℚ) < 10 ^ scale := by positivity
    exact div_lt_div_of_pos_right (by exact_mod_cast hxy) hpow
  have hcmp := hmono.cmp_map_eq m n
  rwa [cmp_eq_compare, cmp_eq_compare] at hcmp

/-- A decimal fraction does not change when mantissa and denominator get the same number of
zeros. -/
theorem div_pow_eq (m : ℤ) (scale k : ℕ) :
    (m : ℚ) / 10 ^ scale = ((m * 10 ^ k : ℤ) : ℚ) / 10 ^ (scale + k) := by
  have hk : (10 : ℚ) ^ k ≠ 0 := by positivity
  push_cast
  rw [pow_add, mul_div_mul_right _ _ hk]

/-- The order of two decimals is that of their mantissas at the larger scale. -/
theorem compare_toRat_of_le {a b : Decimal} {k : ℕ} (h : b.scale.toNat = a.scale.toNat + k) :
    compare a.toRat b.toRat = compare (a.mantissa * 10 ^ k) b.mantissa := by
  unfold Decimal.toRat
  rw [div_pow_eq a.mantissa a.scale.toNat k, h, compare_div_pow]

/-- The order of an integer and a decimal is that of the mantissas at the decimal's scale. -/
theorem compare_intCast_toRat (i : ℤ) (d : Decimal) :
    compare (i : ℚ) d.toRat = compare (i * 10 ^ d.scale.toNat) d.mantissa := by
  have hint : (i : ℚ) = (i : ℚ) / 10 ^ 0 := by simp
  unfold Decimal.toRat
  rw [hint, div_pow_eq i 0 d.scale.toNat, Nat.zero_add, compare_div_pow]

/-- Comparing two numbers the other way round gives the swapped verdict. -/
theorem swap_compare (x y : ℚ) : (compare x y).swap = compare y x := by
  rw [← cmp_eq_compare, ← cmp_eq_compare, cmp_swap]

/-! ## An integer and a decimal -/

/-- The whole part decides unless it is the integer, and then the fraction does. -/
theorem compare_mul_add {i whole frac pow : ℤ} (hlower : -pow < frac) (hupper : frac < pow) :
    compare (i * pow) (pow * whole + frac) = (compare i whole).then (compare 0 frac) := by
  have hpow : 0 < pow := by omega
  have hcomm : pow * whole = whole * pow := Int.mul_comm pow whole
  rcases lt_trichotomy i whole with hlt | rfl | hgt
  · have hstep : (i + 1) * pow ≤ whole * pow := Int.mul_le_mul_of_nonneg_right hlt hpow.le
    rw [Int.add_mul, Int.one_mul] at hstep
    rw [compare_lt_iff_lt.mpr hlt, Ordering.lt_then, compare_lt_iff_lt]
    omega
  · rw [compare_eq_iff_eq.mpr rfl, Ordering.eq_then]
    rcases lt_trichotomy 0 frac with hfrac | rfl | hfrac
    · rw [compare_lt_iff_lt.mpr hfrac, compare_lt_iff_lt]
      omega
    · rw [compare_eq_iff_eq.mpr rfl, compare_eq_iff_eq]
      omega
    · rw [compare_gt_iff_gt.mpr hfrac, compare_gt_iff_gt]
      omega
  · have hstep : (whole + 1) * pow ≤ i * pow := Int.mul_le_mul_of_nonneg_right hgt hpow.le
    rw [Int.add_mul, Int.one_mul] at hstep
    rw [compare_gt_iff_gt.mpr hgt, Ordering.gt_then, compare_gt_iff_gt]
    omega

/-- The parts make up the mantissa, and the fraction is below one. -/
theorem wholeAndFrac_spec (d : Decimal) : ∃ whole frac,
    wholeAndFrac d.mantissa (I128.checkedPow 10 d.scale.toNat) = some (whole, frac) ∧
      d.mantissa = 10 ^ d.scale.toNat * whole + frac ∧
      -10 ^ d.scale.toNat < frac ∧ frac < 10 ^ d.scale.toNat := by
  have hlower := d.lower
  have hupper := d.upper
  have hpos : (0 : ℤ) < 10 ^ d.scale.toNat := by positivity
  rcases I128.checkedPow_ten d.scale.toNat with ⟨hpow, -⟩ | ⟨hpow, hscale⟩
  · have hne : ¬ (10 : ℤ) ^ d.scale.toNat = 0 := hpos.ne'
    obtain ⟨hdlower, hdupper⟩ := I128.tdiv_fits hlower hupper hpos
    have hdiv : I128.div d.mantissa (10 ^ d.scale.toNat) =
        some (d.mantissa.tdiv (10 ^ d.scale.toNat)) := by
      rw [I128.div, if_neg hne, I128.check_of_fits hdlower hdupper]
    have hrem : I128.rem d.mantissa (10 ^ d.scale.toNat) =
        some (d.mantissa.tmod (10 ^ d.scale.toNat)) := by
      rw [I128.rem, if_neg hne, I128.check_of_fits hdlower hdupper, Option.map_some]
    have hparts : wholeAndFrac d.mantissa (some (10 ^ d.scale.toNat)) =
        some (d.mantissa.tdiv (10 ^ d.scale.toNat), d.mantissa.tmod (10 ^ d.scale.toNat)) := by
      rw [wholeAndFrac, hdiv, Option.bind_some, hrem, Option.map_some]
    rw [hpow]
    exact ⟨_, _, hparts, (Int.mul_tdiv_add_tmod _ _).symm, Int.lt_tmod_of_pos _ hpos,
      Int.tmod_lt_of_pos _ hpos⟩
  · have hlarge : (10 : ℤ) ^ 39 ≤ 10 ^ d.scale.toNat := pow_le_pow_right₀ (by norm_num) hscale
    rw [hpow]
    exact ⟨0, d.mantissa, rfl, by ring, by linarith, by linarith⟩

/-- The comparison with an integer is the order of the numbers. -/
theorem cmpI64Decimal_eq (i : Int64) (d : Decimal) :
    cmpI64Decimal i d = some (compare (i.toInt : ℚ) d.toRat) := by
  obtain ⟨whole, frac, hparts, hmantissa, hlower, hupper⟩ := wholeAndFrac_spec d
  rw [compare_intCast_toRat, hmantissa, compare_mul_add hlower hupper, cmpI64Decimal, hparts,
    Option.map_some]
  cases h : compare i.toInt whole <;> simp [h]

/-! ## Two decimals -/

/-- The mantissa at the larger scale decides when it fits, and its sign when it does not. -/
theorem compare_scaled (m : ℤ) {n : ℤ} (hlower : -2 ^ 127 ≤ n) (hupper : n < 2 ^ 127) (k : ℕ) :
    (I128.checkedPow 10 k).bind (I128.checkedMul m) = some (m * 10 ^ k) ∨
      (I128.checkedPow 10 k).bind (I128.checkedMul m) = none ∧
        (if m = 0 then compare 0 n else compare m 0) = compare (m * 10 ^ k) n := by
  have hpos : (0 : ℤ) < 10 ^ k := by positivity
  -- Out of range, the product exceeds every mantissa in the direction of its sign.
  have hsign : m ≠ 0 → (2 ^ 127 ≤ m * 10 ^ k ∨ m * 10 ^ k < -2 ^ 127) →
      compare m 0 = compare (m * 10 ^ k) n := by
    intro hne hout
    rcases lt_or_gt_of_ne hne with hneg | hgt
    · have hprod : m * 10 ^ k < 0 := mul_neg_of_neg_of_pos hneg hpos
      rw [compare_lt_iff_lt.mpr hneg, eq_comm, compare_lt_iff_lt]
      omega
    · have hprod : 0 < m * 10 ^ k := mul_pos hgt hpos
      rw [compare_gt_iff_gt.mpr hgt, eq_comm, compare_gt_iff_gt]
      omega
  rcases I128.checkedPow_ten k with ⟨hpow, -⟩ | ⟨hpow, hk⟩
  · rw [hpow, Option.bind_some, I128.checkedMul]
    by_cases hfits : -2 ^ 127 ≤ m * 10 ^ k ∧ m * 10 ^ k < 2 ^ 127
    · exact .inl (I128.check_of_fits hfits.1 hfits.2)
    · have hne : m ≠ 0 := by
        rintro rfl
        rw [Int.zero_mul] at hfits
        exact hfits ⟨by norm_num, by norm_num⟩
      have hout : 2 ^ 127 ≤ m * 10 ^ k ∨ m * 10 ^ k < -2 ^ 127 := by omega
      rw [I128.check, if_neg hfits, if_neg hne]
      exact .inr ⟨rfl, hsign hne hout⟩
  · rw [hpow, Option.bind_none]
    right
    refine ⟨rfl, ?_⟩
    by_cases hzero : m = 0
    · rw [if_pos hzero, hzero, Int.zero_mul]
    · rw [if_neg hzero]
      have hlarge : (10 : ℤ) ^ 39 ≤ 10 ^ k := pow_le_pow_right₀ (by norm_num) hk
      apply hsign hzero
      rcases lt_or_gt_of_ne hzero with hneg | hgt
      · right
        have hprod : m * 10 ^ k ≤ -1 * 10 ^ k := Int.mul_le_mul_of_nonneg_right (by omega) hpos.le
        linarith
      · left
        have hprod : 1 * 10 ^ k ≤ m * 10 ^ k := Int.mul_le_mul_of_nonneg_right (by omega) hpos.le
        linarith

/-- The difference of the two scales does not wrap when the larger one stands first. -/
theorem subU32_of_lt {a b : UInt32} (h : a < b) :
    subU32 b a = some (b - a) ∧ b.toNat = a.toNat + (b - a).toNat := by
  have hle : a ≤ b := UInt32.le_of_lt h
  have hnat : a.toNat ≤ b.toNat := UInt32.le_iff_toNat_le.mp hle
  refine ⟨if_pos hle, ?_⟩
  rw [UInt32.toNat_sub_of_le b a hle]
  omega

/-- The comparison with a decimal of a larger scale is the order of the numbers. -/
theorem cmpAligned_eq {small large : Decimal} (h : small.scale < large.scale) :
    cmpAligned small large = some (compare small.toRat large.toRat) := by
  obtain ⟨hsub, hnat⟩ := subU32_of_lt h
  rw [compare_toRat_of_le hnat, cmpAligned, hsub, Option.map_some]
  rcases compare_scaled small.mantissa large.lower large.upper (large.scale - small.scale).toNat
    with hscaled | ⟨hscaled, hsign⟩
  · rw [hscaled]
  · rw [hscaled, ← hsign]

/-- The comparison of decimals is the order of the numbers. -/
theorem cmpDecimal_eq (a b : Decimal) : cmpDecimal a b = some (compare a.toRat b.toRat) := by
  unfold cmpDecimal
  split
  · next hscale =>
    have hnat : b.scale.toNat = a.scale.toNat + 0 := by rw [hscale, Nat.add_zero]
    rw [compare_toRat_of_le hnat, pow_zero, Int.mul_one]
  · next hscale =>
    split
    · next hlt => exact cmpAligned_eq hlt
    · next hlt =>
      have hgt : b.scale < a.scale := by
        rw [UInt32.lt_iff_toNat_lt] at hlt ⊢
        have hne : a.scale.toNat ≠ b.scale.toNat := fun h => hscale (UInt32.toNat_inj.mp h)
        omega
      rw [cmpAligned_eq hgt, Option.map_some, swap_compare]

/-- **Exact comparison.** The comparison of two decimals is the order of their numbers, and so
is that of an integer and a decimal; neither overflows or divides by zero. -/
theorem decimal_comparison_exact (a b : Decimal) (i : Int64) :
    cmpDecimal a b = some (compare a.toRat b.toRat) ∧
      cmpI64Decimal i a = some (compare (i.toInt : ℚ) a.toRat) :=
  ⟨cmpDecimal_eq a b, cmpI64Decimal_eq i a⟩

/-- **Canonical decimals.** Normalising keeps the number and is done once, and the
canonical bytes of two decimals are the same exactly when they compare equal and exactly when
they denote the same number. -/
theorem decimal_normalized_canonical (a b : Decimal) :
    a.normalized.toRat = a.toRat ∧ a.normalized.normalized = a.normalized ∧
      (a.exactBytes = b.exactBytes ↔ cmpDecimal a b = some .eq) ∧
      (cmpDecimal a b = some .eq ↔ a.toRat = b.toRat) := by
  have hcmp : cmpDecimal a b = some .eq ↔ a.toRat = b.toRat := by
    rw [cmpDecimal_eq, Option.some.injEq, compare_eq_iff_eq]
  refine ⟨Decimal.toRat_normalized a, ?_, ?_, hcmp⟩
  · rw [Decimal.normalized_eq_iff, Decimal.toRat_normalized]
  · rw [hcmp, Decimal.exactBytes_eq_iff]

end Skaidb
