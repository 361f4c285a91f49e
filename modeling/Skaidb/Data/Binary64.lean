import Mathlib

/-!
# Doubles as numbers

A double is unpacked into a sign, a mantissa and an exponent, and most operations on it
are only right for the mantissa and the exponent that the format itself would choose.
Every double unpacks to those, the comparison of two of them is the comparison of the
numbers they denote, and what is packed in that form is read back unchanged.
-/

namespace Skaidb.Binary64

open Float.Model Float.Model.UnpackedFloat

/-! ## The number of a double -/

/-- The number of a sign, a mantissa and an exponent. -/
def number (s : Sign) (m : ℕ) (e : ℤ) : ℚ := (s.apply m : ℤ) * 2 ^ e

/-- A double as a point of the extended line; nothing for a NaN. -/
def extended : UnpackedFloat → Option (WithBot (WithTop ℚ))
  | .notANumber => none
  | .infinity .positive => some ⊤
  | .infinity .negative => some ⊥
  | .zero _ => some ((0 : ℚ) : WithTop ℚ)
  | .finite s m e _ => some (number s m e : WithTop ℚ)

/-- The format holds the mantissa at the exponent, and would choose no other exponent for
it: 53 bits unless the exponent is the least one. -/
structure Fits (m : ℕ) (e : ℤ) : Prop where
  /-- The mantissa has at most 53 bits. -/
  mantissa_lt : m < 2 ^ 53
  /-- The exponent is at least the least one. -/
  least_le : -1074 ≤ e
  /-- The exponent is at most the greatest one. -/
  le_greatest : e ≤ 971
  /-- Only at the least exponent is the leading bit missing. -/
  leading : 2 ^ 52 ≤ m ∨ e = -1074

/-- A finite double carries the mantissa and the exponent of the format. -/
def Canonical : UnpackedFloat → Prop
  | .finite _ m e _ => Fits m e
  | _ => True

/-- A mantissa with its leading bit put back is the stored one and `2 ^ 52`. -/
theorem toNat_leading (v : BitVec 52) : (1#1 ++ v).toNat = 2 ^ 52 + v.toNat := by
  rw [BitVec.toNat_append, ← Nat.shiftLeft_add_eq_or_of_lt v.isLt]
  rfl

/-! ## The fields of a pattern -/

/-- The exponent field of a bit pattern, as a natural number. -/
def exponentField (b : BitVec 64) : ℕ := (@unpackExponent Format.binary64 b).toNat

/-- The mantissa field of a bit pattern, as a natural number. -/
def mantissaField (b : BitVec 64) : ℕ := (@unpackMantissa Format.binary64 b).toNat

/-- The sign of a pattern is its first bit. -/
def signField (b : BitVec 64) : Sign := if b.toNat < 2 ^ 63 then .positive else .negative

/-- A pattern of 64 bits is made up of a sign, an exponent of 11 bits and a mantissa of 52 bits. -/
theorem toNat_eq_fields (b : BitVec 64) :
    b.toNat = b.toNat / 2 ^ 63 * 2 ^ 63 + exponentField b * 2 ^ 52 + mantissaField b ∧
      exponentField b < 2 ^ 11 ∧ mantissaField b < 2 ^ 52 := by
  have hexp : exponentField b = b.toNat / 2 ^ 52 % 2048 := by
    simp [exponentField, unpackExponent, BitVec.extractLsb, Nat.shiftRight_eq_div_pow]
  have hmant : mantissaField b = b.toNat % 2 ^ 52 := by
    simp [mantissaField, unpackMantissa, BitVec.extractLsb]
  omega

/-- The sign that unpacking a pattern gives is that of its highest bit. -/
theorem ofBitVec_unpackSign (b : BitVec 64) :
    Sign.ofBitVec (@unpackSign Format.binary64 b) = signField b := by
  have hlt := b.isLt
  have hsign : (@unpackSign Format.binary64 b).toNat = b.toNat / 2 ^ 63 % 2 := by
    simp [unpackSign, BitVec.extractLsb, Nat.shiftRight_eq_div_pow]
  have hzero : @unpackSign Format.binary64 b = 0#1 ↔ b.toNat < 2 ^ 63 := by
    rw [← BitVec.toNat_inj, hsign, BitVec.toNat_zero]
    omega
  unfold Sign.ofBitVec signField
  simp only [hzero]

/-- What a pattern unpacks to is decided by its fields, in five cases. -/
theorem unpack_cases (b : BitVec 64) :
    (exponentField b = 2047 ∧ mantissaField b = 0 ∧
      unpack Format.binary64 b = .infinity (signField b)) ∨
    (exponentField b = 2047 ∧ mantissaField b ≠ 0 ∧ unpack Format.binary64 b = .notANumber) ∨
    (exponentField b = 0 ∧ mantissaField b = 0 ∧
      unpack Format.binary64 b = .zero (signField b)) ∨
    (exponentField b = 0 ∧ mantissaField b ≠ 0 ∧ ∃ hpos,
      unpack Format.binary64 b = .finite (signField b) (mantissaField b) (-1074) hpos) ∨
    (exponentField b ≠ 0 ∧ exponentField b ≠ 2047 ∧ ∃ hpos,
      unpack Format.binary64 b =
        .finite (signField b) (2 ^ 52 + mantissaField b) (exponentField b - 1075) hpos) := by
  have hones : @unpackExponent Format.binary64 b = -1#_ ↔ exponentField b = 2047 := by
    rw [← BitVec.toNat_inj]
    rfl
  have hzero : @unpackExponent Format.binary64 b = 0#_ ↔ exponentField b = 0 := by
    rw [← BitVec.toNat_inj]
    rfl
  have hnone : @unpackMantissa Format.binary64 b = 0#_ ↔ mantissaField b = 0 := by
    rw [← BitVec.toNat_inj]
    rfl
  have hlead := toNat_leading (@unpackMantissa Format.binary64 b)
  unfold UnpackedFloat.unpack
  simp only [ofBitVec_unpackSign, hones, hzero, hnone]
  by_cases hexp : exponentField b = 2047
  · by_cases hmant : mantissaField b = 0
    · exact Or.inl ⟨hexp, hmant, by rw [if_pos hexp, if_pos hmant]⟩
    · exact Or.inr (Or.inl ⟨hexp, hmant, by rw [if_pos hexp, if_neg hmant]⟩)
  · by_cases hexp' : exponentField b = 0
    · by_cases hmant : mantissaField b = 0
      · right; right; left
        exact ⟨hexp', hmant, by rw [if_neg hexp, if_pos hexp', dif_pos hmant]⟩
      · right; right; right; left
        refine ⟨hexp', hmant, Nat.pos_of_ne_zero hmant, ?_⟩
        rw [if_neg hexp, if_pos hexp', dif_neg hmant]
        have hexponent : ((@unpackExponent Format.binary64 b).toNat : ℤ) = 0 :=
          congrArg Nat.cast hexp'
        simp only [hexponent]
        rfl
    · right; right; right; right
      refine ⟨hexp', hexp, by omega, ?_⟩
      rw [if_neg hexp, if_neg hexp']
      simp only [hlead]
      rfl

/-- Every bit pattern unpacks to a double in canonical form. -/
theorem canonical_unpack (b : BitVec 64) : Canonical (unpack Format.binary64 b) := by
  obtain ⟨-, hexp, hmant⟩ := toNat_eq_fields b
  obtain ⟨-, -, hu⟩ | ⟨-, -, hu⟩ | ⟨-, -, hu⟩ | ⟨-, -, hpos, hu⟩ | ⟨hne, hne', hpos, hu⟩ :=
    unpack_cases b
  · rw [hu]
    trivial
  · rw [hu]
    trivial
  · rw [hu]
    trivial
  · rw [hu]
    exact ⟨by omega, le_rfl, by decide, Or.inr rfl⟩
  · rw [hu]
    exact ⟨by omega, by omega, by omega, Or.inl (by omega)⟩

/-! ## Packing -/

/-- The sign of a pattern that was packed from components is the component. -/
theorem unpackSign_packComponents (s : Sign) (e : BitVec 11) (m : BitVec 52) :
    Sign.ofBitVec (unpackSign (packComponents Format.binary64 s e m)) = s := by
  unfold unpackSign packComponents BitVec.extractLsb
  rw [BitVec.extractLsb'_append_eq_of_le (by decide),
    BitVec.extractLsb'_append_eq_of_le (by decide)]
  cases s with
  | negative => rfl
  | positive => rfl

/-- A normal double is read back from the pattern that it is packed into. -/
theorem unpack_normal (s : Sign) {m : ℕ} {e : ℤ} (hpos : 0 < m) (h : Fits m e)
    (hlead : 2 ^ 52 ≤ m) :
    unpack Format.binary64 (packComponents Format.binary64 s
      (BitVec.ofNat 11 (e + 1023 + 52).toNat) (BitVec.ofNat 52 m)) = .finite s m e hpos := by
  have hlt := h.mantissa_lt
  have hleast := h.least_le
  have hgreatest := h.le_greatest
  have hexp : (BitVec.ofNat 11 (e + 1023 + 52).toNat).toNat = (e + 1023 + 52).toNat := by
    rw [BitVec.toNat_ofNat, Nat.mod_eq_of_lt (by omega)]
  have hones : BitVec.ofNat 11 (e + 1023 + 52).toNat ≠ -1#_ := by
    intro hc
    have heq : (e + 1023 + 52).toNat = 2047 := hexp.symm.trans (congrArg BitVec.toNat hc)
    omega
  have hzero : BitVec.ofNat 11 (e + 1023 + 52).toNat ≠ 0#_ := by
    intro hc
    have heq : (e + 1023 + 52).toNat = 0 := hexp.symm.trans (congrArg BitVec.toNat hc)
    omega
  have hmantissa : (1#1 ++ BitVec.ofNat 52 m).toNat = m := by
    rw [toNat_leading, BitVec.toNat_ofNat]
    omega
  unfold UnpackedFloat.unpack
  simp only [unpackMantissa_packComponents, unpackExponent_packComponents,
    unpackSign_packComponents, if_neg hones, if_neg hzero, hmantissa, hexp]
  congr 1
  dsimp only [Format.exponentBias]
  omega

/-- A subnormal double is read back from the pattern that it is packed into. -/
theorem unpack_subnormal (s : Sign) {m : ℕ} (hpos : 0 < m) (hlt : m < 2 ^ 52) :
    unpack Format.binary64 (packComponents Format.binary64 s 0#_ (BitVec.ofNat 52 m)) =
      .finite s m (-1074) hpos := by
  have hones : (0#11) ≠ -1#_ := by decide
  have hmantissa : (BitVec.ofNat 52 m).toNat = m := by
    rw [BitVec.toNat_ofNat, Nat.mod_eq_of_lt hlt]
  have hzero : BitVec.ofNat 52 m ≠ 0#_ := by
    intro hc
    have heq : m = 0 := hmantissa.symm.trans (congrArg BitVec.toNat hc)
    omega
  unfold UnpackedFloat.unpack
  simp only [unpackMantissa_packComponents, unpackExponent_packComponents,
    unpackSign_packComponents, if_neg hones, if_pos, dif_neg hzero, hmantissa]
  rfl

/-- A finite double is packed by its exponent and the length of its mantissa. -/
theorem pack_finite (s : Sign) (m : ℕ) (e : ℤ) (hpos : 0 < m) :
    pack Format.binary64 (.finite s m e hpos) =
      if 2 ^ 11 ≤ (e + 1023 + 52).toNat + 1 then packedInfinity Format.binary64 s
      else if m.log2 + 1 = 53 then
        packComponents Format.binary64 s (BitVec.ofNat 11 (e + 1023 + 52).toNat)
          (BitVec.ofNat 52 m)
      else packComponents Format.binary64 s 0#_ (BitVec.ofNat 52 m) :=
  rfl

/-- What is packed in the form of the format is read back. -/
theorem unpack_pack {u : UnpackedFloat} (h : Canonical u) :
    unpack Format.binary64 (pack Format.binary64 u) = u := by
  cases u with
  | infinity s => cases s <;> rfl
  | notANumber => rfl
  | zero s => cases s <;> rfl
  | finite s m e hpos =>
    have hleast := h.least_le
    have hgreatest := h.le_greatest
    have hexp : ¬ 2 ^ 11 ≤ (e + 1023 + 52).toNat + 1 := by omega
    by_cases hlead : 2 ^ 52 ≤ m
    · have hlog : m.log2 + 1 = 53 := by
        have hlow := (Nat.le_log2 hpos.ne').mpr hlead
        have hhigh := (Nat.log2_lt hpos.ne').mpr h.mantissa_lt
        omega
      rw [pack_finite, if_neg hexp, if_pos hlog]
      exact unpack_normal s hpos h hlead
    · have hlog : m.log2 + 1 ≠ 53 := by
        have hhigh := (Nat.log2_lt hpos.ne').mpr (Nat.lt_of_not_le hlead)
        omega
      obtain rfl : e = -1074 := h.leading.resolve_left hlead
      rw [pack_finite, if_neg hexp, if_neg hlog]
      exact unpack_subnormal s hpos (Nat.lt_of_not_le hlead)

/-! ## Order -/

/-- With the positive sign, a mantissa and an exponent stand for their product as it is. -/
theorem number_positive (m : ℕ) (e : ℤ) : number .positive m e = m * 2 ^ e := by
  simp [number, Sign.apply]

/-- With the negative sign, a mantissa and an exponent stand for the opposite of their product. -/
theorem number_negative (m : ℕ) (e : ℤ) : number .negative m e = -(m * 2 ^ e) := by
  simp [number, Sign.apply]

/-- The magnitude of a number with a positive mantissa is positive. -/
theorem magnitude_pos {m : ℕ} (hpos : 0 < m) (e : ℤ) : (0 : ℚ) < m * 2 ^ e := by
  have hm : (0 : ℚ) < m := by exact_mod_cast hpos
  positivity

/-- A smaller exponent means a smaller magnitude, whatever the mantissas are. -/
theorem Fits.lt_of_exponent_lt {m₁ m₂ : ℕ} {e₁ e₂ : ℤ} (h₁ : Fits m₁ e₁) (h₂ : Fits m₂ e₂)
    (he : e₁ < e₂) : (m₁ : ℚ) * 2 ^ e₁ < m₂ * 2 ^ e₂ := by
  have hlead : 2 ^ 52 ≤ m₂ := by
    apply h₂.leading.resolve_right
    have := h₁.least_le
    omega
  have hm₁ : (m₁ : ℚ) < 2 ^ 53 := by exact_mod_cast h₁.mantissa_lt
  have hm₂ : (2 ^ 52 : ℚ) ≤ m₂ := by exact_mod_cast hlead
  have hpow : (2 : ℚ) ^ (e₁ + 1) ≤ 2 ^ e₂ := zpow_le_zpow_right₀ (by norm_num) (by omega)
  calc (m₁ : ℚ) * 2 ^ e₁ < 2 ^ 53 * 2 ^ e₁ := by gcongr
    _ = 2 ^ 52 * 2 ^ (e₁ + 1) := by
      rw [zpow_add₀ (by norm_num)]
      ring
    _ ≤ m₂ * 2 ^ e₂ := by gcongr

/-- A strictly increasing function leaves every comparison as it was. -/
theorem compare_map {α β : Type*} [LinearOrder α] [LinearOrder β] {f : α → β}
    (hf : StrictMono f) (x y : α) : compare (f x) (f y) = compare x y := by
  rw [← cmp_eq_compare, ← cmp_eq_compare, hf.cmp_map_eq]

/-- A strictly decreasing function turns every comparison around. -/
theorem compare_map_anti {α β : Type*} [LinearOrder α] [LinearOrder β] {f : α → β}
    (hf : StrictAnti f) (x y : α) : compare (f x) (f y) = (compare x y).swap := by
  rw [← cmp_eq_compare, ← cmp_eq_compare, hf.cmp_map_eq, cmp_swap]

/-- Magnitudes are ordered by the exponents and then by the mantissas. -/
theorem Fits.compare_magnitude {m₁ m₂ : ℕ} {e₁ e₂ : ℤ} (h₁ : Fits m₁ e₁) (h₂ : Fits m₂ e₂) :
    (compare e₁ e₂).then (compare m₁ m₂) =
      compare ((m₁ : ℚ) * 2 ^ e₁) (m₂ * 2 ^ e₂) := by
  obtain he | rfl | he := lt_trichotomy e₁ e₂
  · rw [compare_lt_iff_lt.mpr he, compare_lt_iff_lt.mpr (h₁.lt_of_exponent_lt h₂ he)]
    rfl
  · have hmono : StrictMono fun m : ℕ => (m : ℚ) * 2 ^ e₁ := by
      intro m n hmn
      have hlt : (m : ℚ) < n := by exact_mod_cast hmn
      have hpow : (0 : ℚ) < 2 ^ e₁ := by positivity
      exact mul_lt_mul_of_pos_right hlt hpow
    rw [compare_eq_iff_eq.mpr rfl, compare_map hmono]
    rfl
  · rw [compare_gt_iff_gt.mpr he, compare_gt_iff_gt.mpr (h₂.lt_of_exponent_lt h₁ he)]
    rfl

/-- Two finite numbers of the extended line are compared as numbers. -/
theorem compare_coe (x y : ℚ) :
    compare ((x : WithTop ℚ) : WithBot (WithTop ℚ)) ((y : WithTop ℚ) : WithBot (WithTop ℚ)) =
      compare x y :=
  compare_map (WithBot.coe_strictMono.comp WithTop.coe_strictMono) x y

/-- Two finite doubles are compared as the numbers they denote. -/
theorem compare_finite {s t : Sign} {m n : ℕ} {d e : ℤ} (hm : 0 < m) (hn : 0 < n)
    (h₁ : Fits m d) (h₂ : Fits n e) :
    UnpackedFloat.compare (.finite s m d hm) (.finite t n e hn) =
      some (compare (number s m d) (number t n e)) := by
  have hpos₁ := magnitude_pos hm d
  have hpos₂ := magnitude_pos hn e
  cases s with
  | negative =>
    cases t with
    | negative =>
      have hanti : StrictAnti fun x : ℚ => -x := fun x y hxy => neg_lt_neg hxy
      rw [number_negative, number_negative, compare_map_anti hanti,
        ← h₁.compare_magnitude h₂]
      rfl
    | positive =>
      have hlt : number .negative m d < number .positive n e := by
        rw [number_negative, number_positive]
        linarith
      rw [compare_lt_iff_lt.mpr hlt]
      rfl
  | positive =>
    cases t with
    | negative =>
      have hlt : number .negative n e < number .positive m d := by
        rw [number_negative, number_positive]
        linarith
      rw [compare_gt_iff_gt.mpr hlt]
      rfl
    | positive =>
      rw [number_positive, number_positive, ← h₁.compare_magnitude h₂]
      rfl

/-- Doubles in the form of the format are compared as the numbers they denote. -/
theorem compare_eq {a b : UnpackedFloat} (ha : Canonical a) (hb : Canonical b) :
    a.compare b = (extended a).bind fun x => (extended b).map fun y => compare x y := by
  cases a with
  | notANumber => cases b <;> rfl
  | infinity s =>
    cases b with
    | notANumber => cases s <;> rfl
    | infinity t => cases s <;> cases t <;> rfl
    | zero t => cases s <;> rfl
    | finite t m e hpos => cases s <;> rfl
  | zero s =>
    cases b with
    | notANumber => rfl
    | infinity t => cases t <;> rfl
    | zero t => rfl
    | finite t m e hpos =>
      have hmag := magnitude_pos hpos e
      show _ = some (compare _ _)
      rw [compare_coe]
      cases t with
      | negative =>
        rw [number_negative, compare_gt_iff_gt.mpr (neg_neg_of_pos hmag)]
        rfl
      | positive =>
        rw [number_positive, compare_lt_iff_lt.mpr hmag]
        rfl
  | finite s m e hpos =>
    cases b with
    | notANumber => cases s <;> rfl
    | infinity t => cases s <;> cases t <;> rfl
    | zero t =>
      have hmag := magnitude_pos hpos e
      show _ = some (compare _ _)
      rw [compare_coe]
      cases s with
      | negative =>
        rw [number_negative, compare_lt_iff_lt.mpr (neg_neg_of_pos hmag)]
        rfl
      | positive =>
        rw [number_positive, compare_gt_iff_gt.mpr hmag]
        rfl
    | finite t n d hpos' =>
      show _ = some (compare _ _)
      rw [compare_coe]
      exact compare_finite hpos hpos' ha hb

/-! ## Rounding what needs none -/

/-- Shifting to the right divides the mantissa by a power of two and drops the remainder. -/
theorem mantissa_shiftRight (em : ExtendedMantissa) (k : ℕ) :
    (em >>> k).mantissa = em.mantissa / 2 ^ k := by
  induction k with
  | zero => simp [HShiftRight.hShiftRight, Nat.repeat]
  | succ k ih =>
    have hstep : (em >>> (k + 1)).mantissa = (em >>> k).mantissa / 2 := rfl
    rw [hstep, ih, Nat.div_div_eq_div_mul, pow_succ]

/-- The exponent the format chooses is the exponent of a mantissa that fits. -/
theorem Fits.target_eq {m : ℕ} {e : ℤ} (hpos : 0 < m) (h : Fits m e) :
    Format.binary64.targetExponent (totalExponent m e) = e := by
  have hlog := (Nat.log2_lt hpos.ne').mpr h.mantissa_lt
  have hleast := h.least_le
  have hchoice : (m.log2 : ℤ) = 52 ∨ e = -1074 := by
    apply h.leading.imp_left
    intro hlead
    have := (Nat.le_log2 hpos.ne').mpr hlead
    omega
  show max ((m.log2 : ℤ) + 1 + e - 53) (-1074) = e
  omega

/-- A mantissa that fits the format is not shifted, so that nothing is rounded. -/
theorem Fits.shift_eq {m : ℕ} {e : ℤ} (hpos : 0 < m) (h : Fits m e) :
    shiftToTargetExponent Format.binary64 m e .exact = (⟨m, false, false⟩, e) := by
  simp only [shiftToTargetExponent, shiftToExponent, h.target_eq hpos, sub_self]
  simp [ExtendedMantissa.ofMantissaAndAccuracy, HShiftRight.hShiftRight, Nat.repeat]

/-- A mantissa that fits the format is rounded to itself, so what was not rounded before stays
exact. -/
theorem roundWithAccuracy_fits (s : Sign) {m : ℕ} {e : ℤ} (hpos : 0 < m) (h : Fits m e) :
    roundWithAccuracy Format.binary64 s m e .exact = .finite s m e hpos := by
  have hround : ExtendedMantissa.roundedMantissa ⟨m, false, false⟩ = m := rfl
  unfold roundWithAccuracy
  simp only [h.shift_eq hpos, hround, dif_neg hpos.ne']

/-- A mantissa moved down to the exponent of the format fits there. -/
theorem fits_decreased {m : ℕ} {e : ℤ} (hpos : 0 < m) (hlt : m < 2 ^ 53) (hleast : -1074 ≤ e)
    (hgreatest : e ≤ 971) :
    ∃ (k : ℕ) (t : ℤ), e = t + k ∧ Fits (m * 2 ^ k) t ∧
      decreaseExponent m e (Format.binary64.targetExponent (totalExponent m e)) =
        (m * 2 ^ k, t) := by
  have hlog : m.log2 < 53 := (Nat.log2_lt hpos.ne').mpr hlt
  obtain ⟨t, ht⟩ : ∃ t, t = max ((m.log2 : ℤ) + 1 + e - 53) (-1074) := ⟨_, rfl⟩
  have htarget : Format.binary64.targetExponent (totalExponent m e) = t := ht.symm
  refine ⟨(e - t).toNat, t, by omega, ?_, ?_⟩
  · constructor
    · calc m * 2 ^ (e - t).toNat < 2 ^ (m.log2 + 1) * 2 ^ (e - t).toNat := by
            apply Nat.mul_lt_mul_of_pos_right Nat.lt_log2_self
            positivity
        _ = 2 ^ (m.log2 + 1 + (e - t).toNat) := (pow_add _ _ _).symm
        _ ≤ 2 ^ 53 := Nat.pow_le_pow_right (by decide) (by omega)
    · omega
    · omega
    · by_cases hmin : t = -1074
      · exact Or.inr hmin
      · left
        calc 2 ^ 52 ≤ 2 ^ (m.log2 + (e - t).toNat) := Nat.pow_le_pow_right (by decide) (by omega)
          _ = 2 ^ m.log2 * 2 ^ (e - t).toNat := pow_add _ _ _
          _ ≤ m * 2 ^ (e - t).toNat := Nat.mul_le_mul_right _ (Nat.log2_self_le hpos.ne')
  · have hexp : e - ((e - t).toNat : ℤ) = t := by omega
    simp only [decreaseExponent, htarget, Nat.shiftLeft_eq, hexp]

/-- A mantissa of at most 53 bits is rounded with no loss. -/
theorem round_exact (s : Sign) {m : ℕ} {e : ℤ} (hpos : 0 < m) (hlt : m < 2 ^ 53)
    (hleast : -1074 ≤ e) (hgreatest : e ≤ 971) :
    Canonical (round Format.binary64 s m e) ∧
      extended (round Format.binary64 s m e) = some ((number s m e : ℚ) : WithTop ℚ) := by
  obtain ⟨k, t, rfl, hfits, hdec⟩ := fits_decreased hpos hlt hleast hgreatest
  have hpos' : 0 < m * 2 ^ k := by positivity
  have hround : round Format.binary64 s m (t + k) = .finite s (m * 2 ^ k) t hpos' := by
    unfold UnpackedFloat.round
    simp only [hdec]
    exact roundWithAccuracy_fits s hpos' hfits
  have hnumber : number s (m * 2 ^ k) t = number s m (t + k) := by
    have hmag : ((m * 2 ^ k : ℕ) : ℚ) * 2 ^ t = m * 2 ^ (t + k) := by
      rw [zpow_add₀ (by norm_num), zpow_natCast]
      push_cast
      ring
    cases s with
    | negative => rw [number_negative, number_negative, hmag]
    | positive => rw [number_positive, number_positive, hmag]
  rw [hround]
  constructor
  · exact hfits
  · exact congrArg (fun q : ℚ => some ((q : WithTop ℚ) : WithBot (WithTop ℚ))) hnumber

/-! ## Rounding a long mantissa -/

/-- A mantissa that ends in enough zeros is shifted without a rest, so that nothing is rounded. -/
theorem shiftRight_exact {m k : ℕ} (h : 2 ^ k ∣ m) :
    (⟨m, false, false⟩ : ExtendedMantissa) >>> k = ⟨m / 2 ^ k, false, false⟩ := by
  induction k with
  | zero => simp [HShiftRight.hShiftRight, Nat.repeat]
  | succ k ih =>
    obtain ⟨n, rfl⟩ := h
    have hdvd : 2 ^ k ∣ 2 ^ (k + 1) * n := ⟨2 * n, by ring⟩
    have hquot : 2 ^ (k + 1) * n / 2 ^ k = 2 * n := by
      rw [pow_succ, mul_assoc, Nat.mul_div_cancel_left _ (by positivity)]
    have hstep : (⟨2 ^ (k + 1) * n, false, false⟩ : ExtendedMantissa) >>> (k + 1) =
        ((⟨2 ^ (k + 1) * n, false, false⟩ : ExtendedMantissa) >>> k).shiftRightOne := rfl
    rw [hstep, ih hdvd, hquot, Nat.mul_div_cancel_left _ (by positivity)]
    simp [ExtendedMantissa.shiftRightOne]

/-- Rounding gives the mantissa or the next one. -/
theorem roundedMantissa_bounds (em : ExtendedMantissa) :
    em.mantissa ≤ em.roundedMantissa ∧ em.roundedMantissa ≤ em.mantissa + 1 := by
  obtain ⟨m, round, sticky⟩ := em
  cases round <;> cases sticky <;>
    simp only [ExtendedMantissa.roundedMantissa, ExtendedMantissa.accuracy,
      Accuracy.roundToNearestEven] <;> omega

/-- A rounded mantissa that overflows is the least one of the next exponent. -/
theorem shift_carry {e : ℤ} (hleast : -1074 ≤ e) :
    shiftToTargetExponent Format.binary64 (2 ^ 53) e .exact = (⟨2 ^ 52, false, false⟩, e + 1) := by
  have htarget : Format.binary64.targetExponent (totalExponent (2 ^ 53) e) = e + 1 := by
    show max (((2 ^ 53 : ℕ).log2 : ℤ) + 1 + e - 53) (-1074) = e + 1
    rw [Nat.log2_two_pow]
    omega
  have hshift : (e + 1 - e).toNat = 1 := by omega
  simp only [shiftToTargetExponent, shiftToExponent, htarget, hshift]
  rfl

/-- A long integer gets the exponent that leaves 53 bits of it. -/
theorem target_long {m : ℕ} (hlong : 2 ^ 53 ≤ m) :
    Format.binary64.targetExponent (totalExponent m 0) = (m.log2 - 52 : ℕ) := by
  have hne : m ≠ 0 := by omega
  have hlog : 53 ≤ m.log2 := (Nat.le_log2 hne).mpr hlong
  show max ((m.log2 : ℤ) + 1 + 0 - 53) (-1074) = _
  omega

/-- A long integer keeps its first 53 bits, which make a mantissa with its leading bit set. -/
theorem quotient_long {m : ℕ} (hlong : 2 ^ 53 ≤ m) :
    2 ^ 52 ≤ m / 2 ^ (m.log2 - 52) ∧ m / 2 ^ (m.log2 - 52) < 2 ^ 53 := by
  have hne : m ≠ 0 := by omega
  have hlog : 53 ≤ m.log2 := (Nat.le_log2 hne).mpr hlong
  have hpow : 0 < 2 ^ (m.log2 - 52) := by positivity
  rw [Nat.le_div_iff_mul_le hpow, Nat.div_lt_iff_lt_mul hpow, ← pow_add, ← pow_add]
  constructor
  · rw [show 52 + (m.log2 - 52) = m.log2 by omega]
    exact Nat.log2_self_le hne
  · rw [show 53 + (m.log2 - 52) = m.log2 + 1 by omega]
    exact Nat.lt_log2_self

/-- A long integer is rounded to an integer of the format, and kept when the bits that go
are zeros. -/
theorem round_long (s : Sign) {m : ℕ} (hlong : 2 ^ 53 ≤ m) (hrange : m ≤ 2 ^ 63) :
    ∃ (n k : ℕ) (hpos : 0 < n), Fits n k ∧
      round Format.binary64 s m 0 = .finite s n k hpos ∧
      (2 ^ (m.log2 - 52) ∣ m → n * 2 ^ k = m) := by
  have hne : m ≠ 0 := by omega
  have hlog : 53 ≤ m.log2 := (Nat.le_log2 hne).mpr hlong
  have hlog' : m.log2 < 64 := (Nat.log2_lt hne).mpr (by omega)
  obtain ⟨hlow, hhigh⟩ := quotient_long hlong
  obtain ⟨em, hem⟩ : ∃ em : ExtendedMantissa, em =
      (⟨m, false, false⟩ : ExtendedMantissa) >>> (m.log2 - 52) :=
    ⟨_, rfl⟩
  have hmantissa : em.mantissa = m / 2 ^ (m.log2 - 52) := by rw [hem, mantissa_shiftRight]
  have hbounds := roundedMantissa_bounds em
  have hkept : 2 ^ (m.log2 - 52) ∣ m → em.roundedMantissa * 2 ^ (m.log2 - 52) = m := by
    intro hdvd
    rw [hem, shiftRight_exact hdvd]
    exact Nat.div_mul_cancel hdvd
  have hfirst : shiftToTargetExponent Format.binary64 m 0 .exact =
      (em, ((m.log2 - 52 : ℕ) : ℤ)) := by
    simp only [shiftToTargetExponent, shiftToExponent, target_long hlong, sub_zero,
      Int.toNat_natCast, zero_add]
    rw [hem]
    rfl
  have hround : round Format.binary64 s m 0 =
      roundWithAccuracy Format.binary64 s m 0 .exact := by
    have hshift : (0 - ((m.log2 - 52 : ℕ) : ℤ)).toNat = 0 := by omega
    simp only [UnpackedFloat.round, decreaseExponent, target_long hlong, hshift,
      Nat.shiftLeft_zero, Nat.cast_zero, sub_zero]
  rw [hround]
  unfold roundWithAccuracy
  simp only [hfirst]
  by_cases hcarry : em.roundedMantissa = 2 ^ 53
  · have hfits : Fits (2 ^ 52) ((m.log2 - 52 + 1 : ℕ) : ℤ) :=
      ⟨by decide, by omega, by omega, Or.inl le_rfl⟩
    refine ⟨2 ^ 52, m.log2 - 52 + 1, by decide, hfits, ?_, ?_⟩
    · simp only [hcarry, shift_carry (by omega : (-1074 : ℤ) ≤ ((m.log2 - 52 : ℕ) : ℤ))]
      rfl
    · intro hdvd
      calc 2 ^ 52 * 2 ^ (m.log2 - 52 + 1) = 2 ^ 53 * 2 ^ (m.log2 - 52) := by ring
        _ = em.roundedMantissa * 2 ^ (m.log2 - 52) := by rw [hcarry]
        _ = m := hkept hdvd
  · have hfits : Fits em.roundedMantissa ((m.log2 - 52 : ℕ) : ℤ) :=
      ⟨by omega, by omega, by omega, Or.inl (by omega)⟩
    have hpos : 0 < em.roundedMantissa := by omega
    refine ⟨em.roundedMantissa, m.log2 - 52, hpos, hfits, ?_, hkept⟩
    simp only [hfits.shift_eq hpos, dif_neg hpos.ne']

/-! ## The integer part -/

/-- The mantissa of the integer part: the bits below the point are cleared. -/
def wholeMantissa (m : ℕ) (e : ℤ) : ℕ := (m >>> (-e).toNat) <<< (-e).toNat

/-- The integer part of a double, toward zero and with its sign. -/
def trunc : UnpackedFloat → UnpackedFloat
  | .finite s m e _ =>
    if h : wholeMantissa m e = 0 then .zero s
    else .finite s (wholeMantissa m e) e (Nat.pos_of_ne_zero h)
  | u => u

/-- The integer a finite double is cut to. -/
def whole (s : Sign) (m : ℕ) (e : ℤ) : ℤ := s.apply (m * 2 ^ e.toNat / 2 ^ (-e).toNat : ℕ)

/-- The conversion to an integer cuts toward zero. -/
theorem roundToInt_eq (s : Sign) (m : ℕ) (e : ℤ) : roundToInt s m e = whole s m e := by
  have hexp : (0 - (e - ((e - 0).toNat : ℤ))).toNat = (-e).toNat := by omega
  unfold roundToInt whole
  simp only [decreaseExponent, shiftToExponent, mantissa_shiftRight, hexp]
  rw [Nat.shiftLeft_eq, sub_zero]
  rfl

/-- What is cleared are the bits below the point. -/
theorem wholeMantissa_add (m : ℕ) (e : ℤ) : wholeMantissa m e + m % 2 ^ (-e).toNat = m := by
  unfold wholeMantissa
  rw [Nat.shiftRight_eq_div_pow, Nat.shiftLeft_eq]
  exact Nat.div_add_mod' m _

/-- The integer part is cut to the same integer. -/
theorem whole_wholeMantissa (s : Sign) (m : ℕ) (e : ℤ) :
    whole s (wholeMantissa m e) e = whole s m e := by
  unfold whole wholeMantissa
  rw [Nat.shiftRight_eq_div_pow, Nat.shiftLeft_eq]
  obtain ⟨k, rfl | rfl⟩ := e.eq_nat_or_neg
  · simp
  · simp

/-- The number is its integer part and the bits below the point. -/
theorem number_eq_whole_add (s : Sign) (m : ℕ) (e : ℤ) :
    number s m e = whole s m e + number s (m % 2 ^ (-e).toNat) e := by
  have hmag : (m : ℚ) * 2 ^ e = (m * 2 ^ e.toNat / 2 ^ (-e).toNat : ℕ) +
      (m % 2 ^ (-e).toNat : ℕ) * 2 ^ e := by
    obtain ⟨k, rfl | rfl⟩ := e.eq_nat_or_neg
    · simp [Nat.mod_one]
    · have hsplit : (m : ℚ) = 2 ^ k * (m / 2 ^ k : ℕ) + (m % 2 ^ k : ℕ) := by
        exact_mod_cast (Nat.div_add_mod m (2 ^ k)).symm
      have hpow : (2 : ℚ) ^ (-(k : ℤ)) = (2 ^ k)⁻¹ := by rw [zpow_neg, zpow_natCast]
      simp only [neg_neg, Int.toNat_natCast, Int.toNat_neg_natCast, pow_zero, mul_one, hpow]
      nth_rewrite 1 [hsplit]
      field_simp
  cases s with
  | negative =>
    rw [number_negative, number_negative, hmag]
    simp only [whole, Sign.apply, Int.cast_neg, Int.cast_natCast]
    ring
  | positive =>
    rw [number_positive, number_positive, hmag]
    simp only [whole, Sign.apply, Int.cast_natCast]

/-- The part below the point is smaller than one. -/
theorem abs_number_below (s : Sign) (m : ℕ) (e : ℤ) :
    |number s (m % 2 ^ (-e).toNat) e| < 1 := by
  have hmag : ((m % 2 ^ (-e).toNat : ℕ) : ℚ) * 2 ^ e < 1 := by
    obtain ⟨k, rfl | rfl⟩ := e.eq_nat_or_neg
    · simp [Nat.mod_one]
    · have hlt : ((m % 2 ^ k : ℕ) : ℚ) < 2 ^ k := by
        exact_mod_cast Nat.mod_lt m (by positivity)
      rw [neg_neg, Int.toNat_natCast, zpow_neg, zpow_natCast, ← div_eq_mul_inv,
        div_lt_one (by positivity)]
      exact hlt
  have hnonneg : (0 : ℚ) ≤ ((m % 2 ^ (-e).toNat : ℕ) : ℚ) * 2 ^ e := by positivity
  cases s with
  | negative => rwa [number_negative, abs_neg, abs_of_nonneg hnonneg]
  | positive => rwa [number_positive, abs_of_nonneg hnonneg]

/-- The integer part stays below a positive bound of the number. -/
theorem whole_lt {s : Sign} {m : ℕ} {e : ℤ} {bound : ℚ} (hbound : 0 < bound)
    (h : number s m e < bound) : (whole s m e : ℚ) < bound := by
  cases s with
  | negative =>
    have hle : whole .negative m e ≤ 0 := Int.neg_nonpos_of_nonneg (Int.natCast_nonneg _)
    have hcast : (whole .negative m e : ℚ) ≤ 0 := by exact_mod_cast hle
    linarith
  | positive =>
    have hnonneg : (0 : ℚ) ≤ number .positive (m % 2 ^ (-e).toNat) e := by
      rw [number_positive]
      positivity
    rw [number_eq_whole_add] at h
    linarith

/-- Clearing the bits below the point keeps the leading bit, if it leaves any. -/
theorem leading_wholeMantissa {m : ℕ} {e : ℤ} (hlt : m < 2 ^ 53) (hlead : 2 ^ 52 ≤ m)
    (hne : wholeMantissa m e ≠ 0) : 2 ^ 52 ≤ wholeMantissa m e := by
  unfold wholeMantissa at hne ⊢
  rw [Nat.shiftRight_eq_div_pow, Nat.shiftLeft_eq] at hne ⊢
  have hquot : m / 2 ^ (-e).toNat ≠ 0 := fun hz => hne (by rw [hz, zero_mul])
  have hk : (-e).toNat ≤ 52 := by
    have hle : 2 ^ (-e).toNat ≤ m := (Nat.div_ne_zero_iff.mp hquot).2
    have := (Nat.pow_lt_pow_iff_right (by decide : 1 < 2)).mp (hle.trans_lt hlt)
    omega
  have hsplit : 2 ^ (52 - (-e).toNat) * 2 ^ (-e).toNat = 2 ^ 52 := by
    rw [← pow_add, Nat.sub_add_cancel hk]
  rw [← hsplit]
  apply Nat.mul_le_mul_right
  rw [Nat.le_div_iff_mul_le (by positivity), hsplit]
  exact hlead

/-- The integer part of a finite double keeps its sign and drops the bits behind the point. -/
theorem trunc_finite (s : Sign) (m : ℕ) (e : ℤ) (hpos : 0 < m) :
    trunc (.finite s m e hpos) =
      if h : wholeMantissa m e = 0 then .zero s
      else .finite s (wholeMantissa m e) e (Nat.pos_of_ne_zero h) :=
  rfl

/-- The integer part is cut to the integer of the double. -/
theorem toInt_trunc (lower upper : ℤ) (s : Sign) (m : ℕ) (e : ℤ) (hpos : 0 < m) :
    (trunc (.finite s m e hpos)).toInt lower upper = whole s m e := by
  rw [trunc_finite, ← whole_wholeMantissa]
  by_cases hzero : wholeMantissa m e = 0
  · rw [dif_pos hzero, hzero]
    cases s <;> simp [UnpackedFloat.toInt, whole, Sign.apply]
  · rw [dif_neg hzero]
    exact roundToInt_eq s _ e

/-- The integer part has the form of the format. -/
theorem canonical_trunc {u : UnpackedFloat} (h : Canonical u) : Canonical (trunc u) := by
  cases u with
  | infinity s => trivial
  | notANumber => trivial
  | zero s => trivial
  | finite s m e hpos =>
    rw [trunc_finite]
    by_cases hzero : wholeMantissa m e = 0
    · rw [dif_pos hzero]
      trivial
    · have hadd := wholeMantissa_add m e
      have hlt := h.mantissa_lt
      rw [dif_neg hzero]
      constructor
      · omega
      · exact h.least_le
      · exact h.le_greatest
      · exact h.leading.imp_left fun hlead => leading_wholeMantissa hlt hlead hzero

/-- A signed mantissa is normalised by rounding its magnitude. -/
theorem normalize_apply (s : Sign) {m : ℕ} (hpos : 0 < m) (e : ℤ) :
    UnpackedFloat.normalize Format.binary64 (s.apply m) e .positive =
      round Format.binary64 s m e := by
  unfold UnpackedFloat.normalize
  cases s with
  | negative =>
    have hlt : (-(m : ℤ)) < 0 := by omega
    simp only [Sign.apply, compare_lt_iff_lt.mpr hlt, neg_neg, Int.toNat_natCast]
  | positive =>
    have hgt : (0 : ℤ) < m := by omega
    simp only [Sign.apply, compare_gt_iff_gt.mpr hgt, Int.toNat_natCast]

/-- The difference of a finite double and its integer part is the part below the point. -/
theorem sub_trunc (s : Sign) {m : ℕ} {e : ℤ} (hpos : 0 < m) (h : Fits m e) :
    Canonical (sub Format.binary64 (.finite s m e hpos) (trunc (.finite s m e hpos))) ∧
      extended (sub Format.binary64 (.finite s m e hpos) (trunc (.finite s m e hpos))) =
        some ((number s (m % 2 ^ (-e).toNat) e : ℚ) : WithTop ℚ) := by
  have hadd := wholeMantissa_add m e
  have hlt := h.mantissa_lt
  rw [trunc_finite]
  by_cases hzero : wholeMantissa m e = 0
  · have hbelow : m % 2 ^ (-e).toNat = m := by omega
    rw [dif_pos hzero, hbelow]
    exact ⟨h, rfl⟩
  · have hdiff : s.apply (m : ℤ) - s.apply (wholeMantissa m e : ℤ) =
        s.apply (m % 2 ^ (-e).toNat : ℕ) := by
      cases s with
      | negative =>
        simp only [Sign.apply]
        omega
      | positive =>
        simp only [Sign.apply]
        omega
    have hsub : sub Format.binary64 (.finite s m e hpos)
        (.finite s (wholeMantissa m e) e (Nat.pos_of_ne_zero hzero)) =
          UnpackedFloat.normalize Format.binary64 (s.apply (m % 2 ^ (-e).toNat : ℕ)) e
            .positive := by
      rw [← hdiff]
      simp only [UnpackedFloat.sub, decreaseExponent, min_self, sub_self, Int.toNat_zero,
        Nat.shiftLeft_zero]
    rw [dif_neg hzero, hsub]
    by_cases hbelow : m % 2 ^ (-e).toNat = 0
    · have hnumber : number s 0 e = 0 := by cases s <;> simp [number, Sign.apply]
      have hnormal : UnpackedFloat.normalize Format.binary64 (s.apply (0 : ℕ)) e .positive =
          .zero .positive := by
        cases s <;> rfl
      rw [hbelow, hnumber, hnormal]
      exact ⟨trivial, rfl⟩
    · have hpos' := Nat.pos_of_ne_zero hbelow
      rw [normalize_apply s hpos']
      exact round_exact s hpos' (by omega) h.least_le h.le_greatest

/-! ## Integers -/

/-- An integer as a point of the extended line. -/
def intPoint (i : ℤ) : WithBot (WithTop ℚ) := ((i : ℚ) : WithTop ℚ)

/-- Integers are ordered as their points on the extended line are. -/
theorem intPoint_strictMono : StrictMono intPoint := fun _ _ h =>
  WithBot.coe_strictMono (WithTop.coe_strictMono (Int.cast_lt.mpr h))

/-- A number is the point of an integer when it is the integer. -/
theorem coe_eq_intPoint {q : ℚ} {i : ℤ} :
    some ((q : WithTop ℚ) : WithBot (WithTop ℚ)) = some (intPoint i) ↔ q = i := by
  unfold intPoint
  rw [Option.some_inj, WithBot.coe_inj, WithTop.coe_inj]

/-- The magnitude of a number is that of its mantissa and exponent, whatever its sign. -/
theorem abs_number (s : Sign) (m : ℕ) (e : ℤ) : |number s m e| = m * 2 ^ e := by
  have hnonneg : (0 : ℚ) ≤ m * 2 ^ e := by positivity
  cases s with
  | negative => rw [number_negative, abs_neg, abs_of_nonneg hnonneg]
  | positive => rw [number_positive, abs_of_nonneg hnonneg]

/-- An integral double is converted to its integer. -/
theorem toInt_of_extended {u : UnpackedFloat} {i : ℤ} (lower upper : ℤ)
    (h : extended u = some (intPoint i)) : u.toInt lower upper = i := by
  cases u with
  | notANumber => cases h
  | infinity s => cases s <;> cases h
  | zero s =>
    have hzero : (0 : ℚ) = i := coe_eq_intPoint.mp h
    exact_mod_cast hzero
  | finite s m e hpos =>
    have hnumber : number s m e = i := coe_eq_intPoint.mp h
    have hbelow := abs_number_below s m e
    have hdiff : ((i - whole s m e : ℤ) : ℚ) = number s (m % 2 ^ (-e).toNat) e := by
      rw [Int.cast_sub, ← hnumber, number_eq_whole_add]
      ring
    have hsmall : |i - whole s m e| < 1 := by
      rw [← hdiff] at hbelow
      exact_mod_cast hbelow
    have hwhole : whole s m e = i := by
      have := Int.abs_lt_one_iff.mp hsmall
      omega
    exact (roundToInt_eq s m e).trans hwhole

/-- A long integer of the format ends in zeros. -/
theorem dvd_of_fits {m n : ℕ} {e : ℤ} (hfits : Fits n e) (h : (n : ℚ) * 2 ^ e = m)
    (hlong : 2 ^ 53 ≤ m) : 2 ^ (m.log2 - 52) ∣ m := by
  have hne : m ≠ 0 := by omega
  have hself : 2 ^ m.log2 ≤ m := Nat.log2_self_le hne
  have hlog : 53 ≤ m.log2 := (Nat.le_log2 hne).mpr hlong
  have hexp : ((m.log2 - 52 : ℕ) : ℤ) ≤ e := by
    by_contra hsmall
    have hn : (n : ℚ) < 2 ^ 53 := by exact_mod_cast hfits.mantissa_lt
    have hself' : (2 : ℚ) ^ (m.log2 : ℤ) ≤ m := by
      rw [zpow_natCast]
      exact_mod_cast hself
    have hlt : (m : ℚ) < 2 ^ (m.log2 : ℤ) := by
      calc (m : ℚ) = n * 2 ^ e := h.symm
        _ < 2 ^ 53 * 2 ^ e := by gcongr
        _ = 2 ^ (53 + e) := by
          rw [zpow_add₀ (by norm_num)]
          norm_num
        _ ≤ 2 ^ (m.log2 : ℤ) := zpow_le_zpow_right₀ (by norm_num) (by omega)
    linarith
  obtain ⟨k, rfl⟩ := Int.eq_ofNat_of_zero_le (by omega : 0 ≤ e)
  have hprod : n * 2 ^ k = m := by
    rw [zpow_natCast] at h
    exact_mod_cast h
  have hpow : 2 ^ (m.log2 - 52) ∣ 2 ^ k := pow_dvd_pow 2 (by omega)
  rw [← hprod] at hpow ⊢
  exact hpow.mul_left n

/-- The number of a mantissa at a non-negative exponent is an integer. -/
theorem number_natCast (s : Sign) (m k : ℕ) :
    number s m k = ((s.apply (m * 2 ^ k : ℕ) : ℤ) : ℚ) := by
  cases s with
  | negative =>
    rw [number_negative, zpow_natCast]
    simp only [Sign.apply]
    push_cast
    rfl
  | positive =>
    rw [number_positive, zpow_natCast]
    simp only [Sign.apply]
    push_cast
    rfl

/-- Rounding the magnitude of an integer gives an integral double, and the same integer when
a double denotes it. -/
theorem round_integer (s : Sign) {m : ℕ} (hpos : 0 < m) (hrange : m ≤ 2 ^ 63) :
    ∃ j : ℤ, Canonical (round Format.binary64 s m 0) ∧
      extended (round Format.binary64 s m 0) = some (intPoint j) ∧
      ((∃ u, Canonical u ∧ extended u = some (intPoint (s.apply m))) → j = s.apply m) := by
  by_cases hlong : 2 ^ 53 ≤ m
  · obtain ⟨n, k, hn, hfits, hround, hkept⟩ := round_long s hlong hrange
    rw [hround]
    refine ⟨s.apply (n * 2 ^ k : ℕ), hfits, coe_eq_intPoint.mpr (number_natCast s n k), ?_⟩
    rintro ⟨u, hu, hvalue⟩
    suffices hdvd : 2 ^ (m.log2 - 52) ∣ m by rw [hkept hdvd]
    cases u with
    | notANumber => cases hvalue
    | infinity t => cases t <;> cases hvalue
    | zero t =>
      have hzero : (0 : ℚ) = (s.apply m : ℤ) := coe_eq_intPoint.mp hvalue
      have hint : (0 : ℤ) = s.apply m := by exact_mod_cast hzero
      cases s with
      | negative =>
        simp only [Sign.apply] at hint
        omega
      | positive =>
        simp only [Sign.apply] at hint
        omega
    | finite t n' e hpos' =>
      have hnumber := coe_eq_intPoint.mp hvalue
      have habs : (n' : ℚ) * 2 ^ e = m := by
        have hcongr := congrArg (fun q : ℚ => |q|) hnumber
        rw [abs_number] at hcongr
        rw [hcongr]
        cases s <;> simp [Sign.apply]
      exact dvd_of_fits hu habs hlong
  · obtain ⟨hcanonical, hvalue⟩ :=
      round_exact s hpos (not_le.mp hlong) (by decide : (-1074 : ℤ) ≤ 0) (by decide)
    refine ⟨s.apply m, hcanonical, hvalue.trans (coe_eq_intPoint.mpr ?_), fun _ => rfl⟩
    simp [number]

/-- An integer of at most 63 bits becomes an integral double, and the double of the same
integer when there is one. -/
theorem ofInt_integer {i : ℤ} (hrange : |i| ≤ 2 ^ 63) :
    ∃ j : ℤ, Canonical (UnpackedFloat.ofInt Format.binary64 i) ∧
      extended (UnpackedFloat.ofInt Format.binary64 i) = some (intPoint j) ∧
      ((∃ u, Canonical u ∧ extended u = some (intPoint i)) → j = i) := by
  obtain ⟨s, m, rfl⟩ : ∃ (s : Sign) (m : ℕ), i = s.apply m := by
    obtain ⟨m, rfl | rfl⟩ := i.eq_nat_or_neg
    · exact ⟨.positive, m, rfl⟩
    · exact ⟨.negative, m, rfl⟩
  obtain rfl | hpos := m.eq_zero_or_pos
  · exact ⟨0, by cases s <;> trivial, by cases s <;> rfl, by cases s <;> intro <;> rfl⟩
  · unfold UnpackedFloat.ofInt
    rw [normalize_apply s hpos]
    apply round_integer s hpos
    cases s with
    | negative =>
      rw [Sign.apply, abs_neg] at hrange
      exact_mod_cast hrange
    | positive =>
      rw [Sign.apply] at hrange
      exact_mod_cast hrange

/-! ## The order of the patterns -/

/-- The place of a double in the sign-magnitude order of the patterns, which tells the two
zeros apart. -/
def place : UnpackedFloat → ℤ
  | .notANumber => 2047 * 2 ^ 52 + 1
  | .infinity .positive => 2047 * 2 ^ 52
  | .infinity .negative => -(2047 * 2 ^ 52) - 1
  | .zero .positive => 0
  | .zero .negative => -1
  | .finite .positive m e _ => (e + 1074) * 2 ^ 52 + m
  | .finite .negative m e _ => -((e + 1074) * 2 ^ 52 + m) - 1

/-- The sign of an unpacked double; what is not a number counts as positive. -/
def signOf : UnpackedFloat → Sign
  | .notANumber => .positive
  | .infinity s => s
  | .zero s => s
  | .finite s _ _ _ => s

/-- The place of a finite magnitude lies above that of zero and below that of infinity. -/
theorem Fits.place_bounds {m : ℕ} {e : ℤ} (hpos : 0 < m) (h : Fits m e) :
    0 < (e + 1074) * 2 ^ 52 + m ∧ (e + 1074) * 2 ^ 52 + m < 2047 * 2 ^ 52 := by
  obtain ⟨hlt, hleast, hgreatest, -⟩ := h
  omega

/-- Magnitudes are placed by the exponents and then by the mantissas. -/
theorem Fits.place_lt {m n : ℕ} {d e : ℤ} (h₁ : Fits m d) (h₂ : Fits n e)
    (h : (compare d e).then (compare m n) = .lt) :
    (d + 1074) * 2 ^ 52 + m < (e + 1074) * 2 ^ 52 + n := by
  obtain ⟨hlt₁, hleast₁, -, -⟩ := h₁
  obtain ⟨-, -, -, hlead₂⟩ := h₂
  obtain he | ⟨rfl, hlt⟩ : d < e ∨ d = e ∧ m < n := by
    obtain he | ⟨he, hlt⟩ := Ordering.then_eq_lt.mp h
    · exact Or.inl (compare_lt_iff_lt.mp he)
    · exact Or.inr ⟨compare_eq_iff_eq.mp he, compare_lt_iff_lt.mp hlt⟩
  · omega
  · omega

/-- Of two doubles in canonical form, one that compares as smaller comes before in the order of
patterns. -/
theorem place_lt {a b : UnpackedFloat} (ha : Canonical a) (hb : Canonical b)
    (h : a.compare b = some .lt) : place a < place b := by
  cases a with
  | notANumber => cases b <;> cases h
  | infinity s =>
    cases s with
    | negative =>
      cases b with
      | notANumber => cases h
      | infinity t =>
        cases t with
        | negative => cases h
        | positive => decide
      | zero t => cases t <;> decide
      | finite t n e hn =>
        have hbounds := hb.place_bounds hn
        cases t <;> simp only [place] <;> omega
    | positive =>
      cases b with
      | notANumber => cases h
      | infinity t => cases t <;> cases h
      | zero t => cases h
      | finite t n e hn => cases t <;> cases h
  | zero s =>
    cases b with
    | notANumber => cases h
    | infinity t =>
      cases t with
      | negative => cases h
      | positive => cases s <;> decide
    | zero t => cases h
    | finite t n e hn =>
      have hbounds := hb.place_bounds hn
      cases t with
      | negative => cases h
      | positive => cases s <;> simp only [place] <;> omega
  | finite s m d hm =>
    have hbounds := ha.place_bounds hm
    cases b with
    | notANumber => cases s <;> cases h
    | infinity t =>
      cases t with
      | negative => cases s <;> cases h
      | positive => cases s <;> simp only [place] <;> omega
    | zero t =>
      cases s with
      | negative => cases t <;> simp only [place] <;> omega
      | positive => cases h
    | finite t n e hn =>
      have hbounds' := hb.place_bounds hn
      cases s with
      | negative =>
        cases t with
        | negative =>
          have horder : (compare e d).then (compare n m) = .lt := by
            rw [Std.OrientedOrd.eq_swap (a := e) (b := d),
              Std.OrientedOrd.eq_swap (a := n) (b := m), ← Ordering.swap_then]
            exact Option.some_inj.mp h
          have hlt := hb.place_lt ha horder
          simp only [place]
          omega
        | positive =>
          simp only [place]
          omega
      | positive =>
        cases t with
        | negative => cases h
        | positive =>
          have hlt := ha.place_lt hb (Option.some_inj.mp h)
          simp only [place]
          omega

/-- Finite magnitudes that compare as equal have the same exponent and the same mantissa. -/
theorem magnitude_of_compare_eq {m n : ℕ} {d e : ℤ}
    (h : (compare d e).then (compare m n) = .eq) : d = e ∧ m = n := by
  obtain ⟨he, hm⟩ := Ordering.then_eq_eq.mp h
  exact ⟨compare_eq_iff_eq.mp he, compare_eq_iff_eq.mp hm⟩

/-- Doubles that compare as equal are equal, but for two zeros. -/
theorem eq_of_compare_eq {a b : UnpackedFloat} (h : a.compare b = some .eq) :
    (∃ s t, a = .zero s ∧ b = .zero t) ∨ a = b := by
  cases a with
  | notANumber => cases b <;> cases h
  | infinity s =>
    cases b with
    | notANumber => cases s <;> cases h
    | infinity t =>
      right
      cases s <;> cases t <;> first | rfl | cases h
    | zero t => cases s <;> cases h
    | finite t n e hn => cases s <;> cases h
  | zero s =>
    cases b with
    | notANumber => cases h
    | infinity t => cases t <;> cases h
    | zero t => exact Or.inl ⟨s, t, rfl, rfl⟩
    | finite t n e hn => cases t <;> cases h
  | finite s m d hm =>
    right
    cases b with
    | notANumber => cases s <;> cases h
    | infinity t => cases s <;> cases t <;> cases h
    | zero t => cases s <;> cases h
    | finite t n e hn =>
      cases s with
      | negative =>
        cases t with
        | negative =>
          have horder : (compare d e).then (compare m n) = .eq :=
            Ordering.swap_eq_eq.mp (Option.some_inj.mp h)
          obtain ⟨rfl, rfl⟩ := magnitude_of_compare_eq horder
          rfl
        | positive => cases h
      | positive =>
        cases t with
        | negative => cases h
        | positive =>
          obtain ⟨rfl, rfl⟩ := magnitude_of_compare_eq (Option.some_inj.mp h)
          rfl

/-- Places are ordered as the numbers, and the negative zero comes before the positive one. -/
theorem compare_place {a b : UnpackedFloat} {x y : WithBot (WithTop ℚ)} (ha : Canonical a)
    (hb : Canonical b) (hx : extended a = some x) (hy : extended b = some y) :
    compare (place a) (place b) = (compare x y).then (compare (signOf a) (signOf b)) := by
  have hcmp : a.compare b = some (compare x y) := by
    rw [compare_eq ha hb, hx, hy]
    rfl
  have hcmp' : b.compare a = some (compare y x) := by
    rw [compare_eq hb ha, hx, hy]
    rfl
  obtain hlt | rfl | hgt := lt_trichotomy x y
  · rw [compare_lt_iff_lt.mpr hlt] at hcmp ⊢
    exact compare_lt_iff_lt.mpr (place_lt ha hb hcmp)
  · rw [compare_eq_iff_eq.mpr rfl] at hcmp ⊢
    obtain ⟨s, t, rfl, rfl⟩ | rfl := eq_of_compare_eq hcmp
    · cases s <;> cases t <;> decide
    · rw [compare_eq_iff_eq.mpr rfl]
      cases signOf a <;> rfl
  · rw [compare_lt_iff_lt.mpr hgt] at hcmp'
    rw [compare_gt_iff_gt.mpr hgt]
    exact compare_gt_iff_gt.mpr (place_lt hb ha hcmp')

/-- The place of a pattern in sign-magnitude order. -/
def patternPlace (b : BitVec 64) : ℤ :=
  if b.toNat < 2 ^ 63 then b.toNat else 2 ^ 63 - 1 - b.toNat

/-- A pattern that is no NaN has the place of its double. -/
theorem patternPlace_eq {b : BitVec 64} (h : extended (unpack Format.binary64 b) ≠ none) :
    patternPlace b = place (unpack Format.binary64 b) := by
  have hlt := b.isLt
  obtain ⟨htotal, hexpLt, hmantLt⟩ := toNat_eq_fields b
  unfold patternPlace
  obtain ⟨hexp, hmant, hu⟩ | ⟨hexp, hmant, hu⟩ | ⟨hexp, hmant, hu⟩ | ⟨hexp, -, hpos, hu⟩ |
    ⟨hexp, hexp', hpos, hu⟩ := unpack_cases b
  · rw [hu]
    unfold signField
    split_ifs <;> simp only [place] <;> omega
  · exact absurd (by rw [hu]; rfl) h
  · rw [hu]
    unfold signField
    split_ifs <;> simp only [place] <;> omega
  · rw [hu]
    unfold signField
    split_ifs <;> simp only [place] <;> omega
  · rw [hu]
    unfold signField
    split_ifs <;> simp only [place] <;> omega

/-- A NaN lies outside all numbers, on the side of its sign. -/
theorem patternPlace_nan {b : BitVec 64} (h : extended (unpack Format.binary64 b) = none) :
    match signField b with
    | .negative => patternPlace b < -(2047 * 2 ^ 52) - 1
    | .positive => 2047 * 2 ^ 52 < patternPlace b := by
  have hlt := b.isLt
  obtain ⟨htotal, hexpLt, hmantLt⟩ := toNat_eq_fields b
  unfold patternPlace
  obtain ⟨hexp, hmant, hu⟩ | ⟨hexp, hmant, hu⟩ | ⟨hexp, hmant, hu⟩ | ⟨hexp, -, hpos, hu⟩ |
    ⟨hexp, hexp', hpos, hu⟩ := unpack_cases b
  · rw [hu] at h
    unfold signField at h
    split_ifs at h <;> cases h
  · unfold signField
    split_ifs <;> dsimp only <;> omega
  · rw [hu] at h
    cases h
  · rw [hu] at h
    cases h
  · rw [hu] at h
    cases h

/-- Doubles that denote numbers lie between the two infinities in the order of patterns. -/
theorem place_range {u : UnpackedFloat} (hu : Canonical u) (h : extended u ≠ none) :
    -(2047 * 2 ^ 52) - 1 ≤ place u ∧ place u ≤ 2047 * 2 ^ 52 := by
  cases u with
  | notANumber => exact absurd rfl h
  | infinity s => cases s <;> decide
  | zero s => cases s <;> decide
  | finite s m e hpos =>
    have hbounds := hu.place_bounds hpos
    cases s <;> simp only [place] <;> omega

/-- The sign of what a pattern unpacks to is that of its sign bit. -/
theorem signOf_unpack {b : BitVec 64} (h : extended (unpack Format.binary64 b) ≠ none) :
    signOf (unpack Format.binary64 b) = signField b := by
  obtain ⟨-, -, hu⟩ | ⟨-, -, hu⟩ | ⟨-, -, hu⟩ | ⟨-, -, hpos, hu⟩ | ⟨-, -, hpos, hu⟩ :=
    unpack_cases b
  · rw [hu]
    rfl
  · exact absurd (by rw [hu]; rfl) h
  · rw [hu]
    rfl
  · rw [hu]
    rfl
  · rw [hu]
    rfl

end Skaidb.Binary64
