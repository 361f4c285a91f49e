import Skaidb.Data.Binary64
import Skaidb.Types.KeyOrder

/-!
# The order of integers and doubles

An integer and a double are compared with no rounding of the integer: beyond the range of
the integers the double decides, and inside it the double is split into its integer part
and the rest, both without loss.
-/

namespace Skaidb

open Binary64 Float.Model Float.Model.UnpackedFloat

/-! ## Doubles -/

/-- A double as a point of the extended line; nothing for a NaN. -/
def f64Value (f : Float) : Option (WithBot (WithTop ℚ)) := extended f.toModel.unpack

/-- The comparison of two doubles; nothing when one is a NaN. -/
def f64PartialCmp (a b : Float) : Option Ordering := a.toModel.compare b.toModel

/-- The integer part of a double, toward zero. -/
def f64Trunc (f : Float) : Float := .ofModel (.pack (trunc f.toModel.unpack))

/-- A double cut to a 64-bit integer, clamped to its range. -/
def f64AsI64 (f : Float) : Int64 := f.toModel.toInt64

/-- The double has the form of the format. -/
theorem canonical_toModel (f : Float) : Canonical f.toModel.unpack := canonical_unpack _

/-- What is packed in the form of the format is read back. -/
theorem unpack_modelPack {u : UnpackedFloat} (h : Canonical u) :
    (Float.Model.pack u).unpack = u := unpack_pack h

/-- Two doubles compare as the numbers they denote, and not at all when one is not a number. -/
theorem f64PartialCmp_eq (a b : Float) :
    f64PartialCmp a b = (f64Value a).bind fun x => (f64Value b).map fun y => compare x y :=
  compare_eq (canonical_toModel a) (canonical_toModel b)

/-- The `≤` of doubles holds exactly when `partial_cmp` finds the first one less or equal. -/
theorem le_iff_partialCmp (a b : Float) :
    a ≤ b ↔ (f64PartialCmp a b).any (·.isLE) = true := by
  show decide (_ = true) = true ↔ _
  rw [decide_eq_true_iff]
  rfl

/-- The `<` of doubles holds exactly when `partial_cmp` finds the first one less. -/
theorem lt_iff_partialCmp (a b : Float) : a < b ↔ f64PartialCmp a b = some .lt := by
  show decide ((_ == _) = true) = true ↔ _
  rw [decide_eq_true_iff, beq_iff_eq]
  rfl

/-! ## The comparison -/

/-- Exact comparison of a 64-bit integer with a double; nothing when it is a NaN. -/
def cmpI64F64 (i : Int64) (f : Float) : Option Ordering :=
  if f.isNaN then none
  else if 9223372036854775808.0 ≤ f then some .lt
  else if f < -9223372036854775808.0 then some .gt
  else
    some (match compare i.toInt (f64AsI64 (f64Trunc f)).toInt with
      -- The same integer part: the rest decides, with the sign of the double.
      | .eq => (f64PartialCmp 0.0 (f - f64Trunc f)).getD .eq
      | other => other)

/-- A point between two integers is a number. -/
theorem exists_rat_of_between {a b : ℤ} {x : WithBot (WithTop ℚ)} (hlower : intPoint a ≤ x)
    (hupper : x < intPoint b) : ∃ q : ℚ, x = (q : WithTop ℚ) ∧ a ≤ q ∧ q < b := by
  induction x with
  | bot => exact absurd hlower (WithBot.not_coe_le_bot _)
  | coe x =>
    have hlower' := WithBot.coe_le_coe.mp hlower
    have hupper' := WithBot.coe_lt_coe.mp hupper
    induction x with
    | top => exact absurd hupper' not_top_lt
    | coe q => exact ⟨q, rfl, WithTop.coe_le_coe.mp hlower', WithTop.coe_lt_coe.mp hupper'⟩

/-- The constant that the source compares with from above denotes two to the power of 63. -/
theorem f64Value_upper : f64Value 9223372036854775808.0 = some (intPoint (2 ^ 63)) := by
  have hnumber : number .positive (2 ^ 52) 11 = ((2 ^ 63 : ℤ) : ℚ) := by
    rw [number_positive]
    norm_num
  show some ((number .positive (2 ^ 52) 11 : WithTop ℚ) : WithBot (WithTop ℚ)) = _
  rw [hnumber]
  rfl

/-- The constant that the source compares with from below denotes minus two to the power of 63. -/
theorem f64Value_lower : f64Value (-9223372036854775808.0) = some (intPoint (-2 ^ 63)) := by
  have hnumber : number .negative (2 ^ 52) 11 = ((-2 ^ 63 : ℤ) : ℚ) := by
    rw [number_negative]
    norm_num
  show some ((number .negative (2 ^ 52) 11 : WithTop ℚ) : WithBot (WithTop ℚ)) = _
  rw [hnumber]
  rfl

/-- A double is a NaN when it has no point. -/
theorem isNaN_eq (f : Float) : f.isNaN = (f64Value f).isNone := by
  show f.toModel.unpack.isNaN = (extended f.toModel.unpack).isNone
  cases f.toModel.unpack with
  | notANumber => rfl
  | infinity s => cases s <;> rfl
  | zero s => rfl
  | finite s m e hpos => rfl

/-- A double is at least the upper end of the 64-bit integers exactly when its point is. -/
theorem upper_le_iff {f : Float} {x : WithBot (WithTop ℚ)} (hx : f64Value f = some x) :
    9223372036854775808.0 ≤ f ↔ intPoint (2 ^ 63) ≤ x := by
  rw [le_iff_partialCmp, f64PartialCmp_eq, f64Value_upper, hx]
  show (compare _ _).isLE = true ↔ _
  rw [← compare_le_iff_le]
  cases compare (intPoint (2 ^ 63)) x <;> simp

/-- A double is below the lower constant exactly when what it denotes is below every 64-bit
integer. -/
theorem lt_lower_iff {f : Float} {x : WithBot (WithTop ℚ)} (hx : f64Value f = some x) :
    f < -9223372036854775808.0 ↔ x < intPoint (-2 ^ 63) := by
  rw [lt_iff_partialCmp, f64PartialCmp_eq, f64Value_lower, hx, ← compare_lt_iff_lt]
  exact Option.some_inj

/-- The integer part decides unless it is the integer, and then the rest does. -/
theorem compare_whole_add (i whole : ℤ) {rest : ℚ} (h : |rest| < 1) :
    compare (i : ℚ) (whole + rest) = (compare i whole).then (compare 0 rest) := by
  obtain ⟨hlower, hupper⟩ := abs_lt.mp h
  rcases lt_trichotomy i whole with hlt | rfl | hgt
  · have hstep : (i : ℚ) + 1 ≤ whole := by exact_mod_cast hlt
    rw [compare_lt_iff_lt.mpr hlt, Ordering.lt_then, compare_lt_iff_lt]
    linarith
  · rw [compare_eq_iff_eq.mpr rfl, Ordering.eq_then]
    rcases lt_trichotomy 0 rest with hrest | rfl | hrest
    · rw [compare_lt_iff_lt.mpr hrest, compare_lt_iff_lt]
      linarith
    · rw [compare_eq_iff_eq.mpr rfl, compare_eq_iff_eq, add_zero]
    · rw [compare_gt_iff_gt.mpr hrest, compare_gt_iff_gt]
      linarith
  · have hstep : (whole : ℚ) + 1 ≤ i := by exact_mod_cast hgt
    rw [compare_gt_iff_gt.mpr hgt, Ordering.gt_then, compare_gt_iff_gt]
    linarith

/-- A double less its integer part denotes the exact difference, when that is canonical. -/
theorem f64Value_sub_trunc {f : Float} (h : Canonical (UnpackedFloat.sub Format.binary64
    f.toModel.unpack (trunc f.toModel.unpack))) :
    f64Value (f - f64Trunc f) = extended (UnpackedFloat.sub Format.binary64 f.toModel.unpack
      (trunc f.toModel.unpack)) := by
  show extended (Float.Model.pack (UnpackedFloat.sub Format.binary64 f.toModel.unpack
    (Float.Model.pack (trunc f.toModel.unpack)).unpack)).unpack = _
  rw [unpack_modelPack (canonical_trunc (canonical_toModel f)), unpack_modelPack h]

/-- Converting the integer part of a double is converting what it unpacks to. -/
theorem f64AsI64_trunc (f : Float) :
    f64AsI64 (f64Trunc f) = (trunc f.toModel.unpack).toInt64 := by
  show (Float.Model.pack (trunc f.toModel.unpack)).unpack.toInt64 = _
  rw [unpack_modelPack (canonical_trunc (canonical_toModel f))]

/-- A double in the range of the integers is its integer part, which is converted with no
loss, and a rest below one. -/
theorem trunc_spec {f : Float} {q : ℚ} (hq : f64Value f = some (q : WithTop ℚ))
    (hlower : -2 ^ 63 ≤ q) (hupper : q < 2 ^ 63) :
    ∃ rest : ℚ, q = (f64AsI64 (f64Trunc f)).toInt + rest ∧ |rest| < 1 ∧
      f64Value (f - f64Trunc f) = some (rest : WithTop ℚ) := by
  have hcanonical := canonical_toModel f
  have hsub := f64Value_sub_trunc (f := f)
  rw [f64AsI64_trunc]
  unfold f64Value at hq
  cases hu : f.toModel.unpack with
  | notANumber =>
    rw [hu] at hq
    cases hq
  | infinity s =>
    rw [hu] at hq
    cases s <;> cases hq
  | zero s =>
    rw [hu] at hq hsub
    have hzero : UnpackedFloat.sub Format.binary64 (.zero s) (.zero s) = .zero .positive := by
      cases s <;> rfl
    rw [show trunc (.zero s) = .zero s from rfl, hzero] at hsub
    obtain rfl : 0 = q := by simpa [extended, eq_comm] using hq
    have hcut : (trunc (.zero s)).toInt64.toInt = 0 := rfl
    refine ⟨0, ?_, by simp, hsub trivial⟩
    rw [hcut, Int.cast_zero, add_zero]
  | finite s m e hpos =>
    rw [hu] at hq hsub hcanonical
    obtain ⟨hform, hrest⟩ := sub_trunc s hpos hcanonical
    obtain rfl : number s m e = q := by simpa [extended] using hq
    have hbelow := abs_number_below s m e
    have hsplit := number_eq_whole_add s m e
    have hfits : (trunc (.finite s m e hpos)).toInt64.toInt = whole s m e := by
      have hlt := whole_lt (by norm_num) hupper
      rw [hsplit] at hlower
      have hge : -(2 ^ 63 : ℚ) - 1 < whole s m e := by linarith [(abs_lt.mp hbelow).2]
      have hlt' : whole s m e < 2 ^ 63 := by exact_mod_cast hlt
      have hge' : -2 ^ 63 - 1 < whole s m e := by exact_mod_cast hge
      unfold UnpackedFloat.toInt64
      rw [toInt_trunc, Int64.toInt_ofIntClamp]
      · have hmin : Int64.minValue.toInt = -2 ^ 63 := rfl
        omega
      · have hmax : Int64.maxValue.toInt = 2 ^ 63 - 1 := rfl
        omega
    refine ⟨_, ?_, hbelow, (hsub hform).trans hrest⟩
    rw [hfits]
    exact hsplit

/-- A double of the range is compared by its integer part and then by the rest. -/
theorem compare_trunc (i : ℤ) {f : Float} {q : ℚ} (hq : f64Value f = some (q : WithTop ℚ))
    (hlower : -2 ^ 63 ≤ q) (hupper : q < 2 ^ 63) :
    (match compare i (f64AsI64 (f64Trunc f)).toInt with
      | .eq => (f64PartialCmp 0.0 (f - f64Trunc f)).getD .eq
      | other => other) = compare (i : ℚ) q := by
  obtain ⟨rest, hsplit, hrest, hvalue⟩ := trunc_spec hq hlower hupper
  have hcmp : f64PartialCmp 0.0 (f - f64Trunc f) = some (compare 0 rest) := by
    rw [f64PartialCmp_eq, hvalue]
    exact congrArg some (compare_coe 0 rest)
  rw [hcmp, hsplit, compare_whole_add _ _ hrest]
  cases compare i (f64AsI64 (f64Trunc f)).toInt <;> rfl

/-- The comparison of an integer with a double is the order of the two numbers, infinities
included, with no rounding of the integer; nothing exactly when the double is a NaN. -/
theorem cmpI64F64_exact (i : Int64) (f : Float) :
    cmpI64F64 i f = (f64Value f).map fun x => compare (intPoint i.toInt) x := by
  have hmin : -2 ^ 63 ≤ i.toInt := i.minValue_le_toInt
  have hmax : i.toInt < 2 ^ 63 := i.toInt_lt
  unfold cmpI64F64
  rw [isNaN_eq]
  cases hx : f64Value f with
  | none => rfl
  | some x =>
    rw [if_neg (by simp)]
    by_cases hupper : intPoint (2 ^ 63) ≤ x
    · have hlt : intPoint i.toInt < x := (intPoint_strictMono hmax).trans_le hupper
      rw [if_pos ((upper_le_iff hx).mpr hupper), Option.map_some, compare_lt_iff_lt.mpr hlt]
    · rw [if_neg (mt (upper_le_iff hx).mp hupper)]
      by_cases hlower : x < intPoint (-2 ^ 63)
      · have hgt : x < intPoint i.toInt :=
          hlower.trans_le (intPoint_strictMono.monotone hmin)
        rw [if_pos ((lt_lower_iff hx).mpr hlower), Option.map_some, compare_gt_iff_gt.mpr hgt]
      · rw [if_neg (mt (lt_lower_iff hx).mp hlower), Option.map_some]
        obtain ⟨q, rfl, hge, hlt⟩ :=
          exists_rat_of_between (not_lt.mp hlower) (not_le.mp hupper)
        rw [compare_trunc i.toInt hx (by exact_mod_cast hge) (by exact_mod_cast hlt)]
        exact congrArg some (compare_coe _ _).symm

/-! ## Integers that are doubles -/

/-- An integer as a double, rounded to the nearest. -/
def i64AsF64 (i : Int64) : Float := .ofModel (.ofInt64 i)

/-- A double cut to a 128-bit integer, clamped to its range. -/
def f64AsI128 (f : Float) : ℤ :=
  max (-2 ^ 127) (min (f.toModel.unpack.toInt (-2 ^ 127) (2 ^ 127 - 1)) (2 ^ 127 - 1))

/-- Whether an integer is kept by the conversion to a double. -/
def i64IsExactF64 (i : Int64) : Bool := f64AsI128 (i64AsF64 i) == i.toInt

/-- An integer becomes an integral double, and the double of the same integer when there is
one. -/
theorem i64AsF64_spec (i : Int64) :
    ∃ j : ℤ, f64Value (i64AsF64 i) = some (intPoint j) ∧
      ((∃ f : Float, f64Value f = some (intPoint i.toInt)) → j = i.toInt) := by
  have hmin : -2 ^ 63 ≤ i.toInt := i.minValue_le_toInt
  have hmax : i.toInt < 2 ^ 63 := i.toInt_lt
  obtain ⟨j, hcanonical, hvalue, hkept⟩ := ofInt_integer (abs_le.mpr ⟨hmin, hmax.le⟩)
  refine ⟨j, ?_, ?_⟩
  · show extended (Float.Model.pack (UnpackedFloat.ofInt Format.binary64 i.toInt)).unpack = _
    rw [unpack_modelPack hcanonical, hvalue]
  · rintro ⟨f, hf⟩
    exact hkept ⟨f.toModel.unpack, canonical_toModel f, hf⟩

/-- The test for exactness tells exactly the integers that some double denotes, and for these
the conversion gives that double. -/
theorem i64IsExactF64_iff (i : Int64) :
    (i64IsExactF64 i = true ↔ ∃ f : Float, f64Value f = some (intPoint i.toInt)) ∧
      (i64IsExactF64 i = true → f64Value (i64AsF64 i) = some (intPoint i.toInt)) := by
  have hmin : -2 ^ 63 ≤ i.toInt := i.minValue_le_toInt
  have hmax : i.toInt < 2 ^ 63 := i.toInt_lt
  obtain ⟨j, hvalue, hkept⟩ := i64AsF64_spec i
  have hcut := toInt_of_extended (-2 ^ 127) (2 ^ 127 - 1) hvalue
  have hexact : i64IsExactF64 i = true ↔ j = i.toInt := by
    unfold i64IsExactF64 f64AsI128
    rw [beq_iff_eq, hcut]
    omega
  constructor
  · rw [hexact]
    constructor
    · rintro rfl
      exact ⟨_, hvalue⟩
    · exact hkept
  · intro h
    rw [hvalue, hexact.mp h]

/-! ## Keys of doubles -/

/-- The point of a double's pattern; nothing for a NaN. -/
def bitsValue (bits : UInt64) : Option (WithBot (WithTop ℚ)) :=
  extended (unpack Format.binary64 bits.toBitVec)

/-- A pattern that has a point is not that of a NaN. -/
theorem bitsValue_ne_none {bits : UInt64} {x : WithBot (WithTop ℚ)}
    (h : bitsValue bits = some x) : extended (unpack Format.binary64 bits.toBitVec) ≠ none :=
  fun hnone => Option.some_ne_none x (h.symm.trans hnone)

/-- The key order of two doubles is the order of their places. -/
theorem totalCmp_float (toF64 : Decimal → UInt64) (a b : UInt64) :
    (⟨.float a, trivial⟩ : Value).totalCmp toF64 ⟨.float b, trivial⟩ =
      compare (patternPlace a.toBitVec) (patternPlace b.toBitVec) :=
  ((encodeF64_ranks a b).cons KeyTag.float).compare_eq

/-- A NaN and a number: the NaN lies outside all numbers, on the side of its sign. -/
theorem compare_nan {a b : UInt64} {y : WithBot (WithTop ℚ)} (ha : bitsValue a = none)
    (hy : bitsValue b = some y) :
    compare (patternPlace a.toBitVec) (patternPlace b.toBitVec) =
      match signField a.toBitVec with
      | .negative => .lt
      | .positive => .gt := by
  have hb := bitsValue_ne_none hy
  have hrange := place_range (canonical_unpack _) hb
  have hnan := patternPlace_nan ha
  rw [patternPlace_eq hb]
  cases hsign : signField a.toBitVec with
  | negative =>
    rw [hsign] at hnan
    exact compare_lt_iff_lt.mpr (by omega)
  | positive =>
    rw [hsign] at hnan
    exact compare_gt_iff_gt.mpr (by omega)

/-- Keys of doubles are ordered as the numbers, infinities included, with the negative zero
before the positive one. A NaN lies outside all numbers, on the side of its sign, and two NaNs
are ordered by their patterns. -/
theorem float_keys_sorted (toF64 : Decimal → UInt64) (a b : UInt64) :
    (⟨.float a, trivial⟩ : Value).totalCmp toF64 ⟨.float b, trivial⟩ =
      match bitsValue a, bitsValue b with
      | some x, some y =>
        (compare x y).then (compare (signField a.toBitVec) (signField b.toBitVec))
      | none, some _ =>
        match signField a.toBitVec with
        | .negative => .lt
        | .positive => .gt
      | some _, none =>
        match signField b.toBitVec with
        | .negative => .gt
        | .positive => .lt
      | none, none => compare (patternPlace a.toBitVec) (patternPlace b.toBitVec) := by
  rw [totalCmp_float]
  cases hx : bitsValue a with
  | none =>
    cases hy : bitsValue b with
    | none => rfl
    | some y => exact compare_nan hx hy
  | some x =>
    cases hy : bitsValue b with
    | none =>
      rw [Std.OrientedOrd.eq_swap, compare_nan hy hx]
      cases signField b.toBitVec <;> rfl
    | some y =>
      have ha := bitsValue_ne_none hx
      have hb := bitsValue_ne_none hy
      rw [patternPlace_eq ha, patternPlace_eq hb,
        compare_place (canonical_unpack _) (canonical_unpack _) hx hy, signOf_unpack ha,
        signOf_unpack hb]

end Skaidb
