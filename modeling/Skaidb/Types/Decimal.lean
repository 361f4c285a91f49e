import Mathlib.Tactic.FieldSimp
import Mathlib.Tactic.Linarith
import Skaidb.Codec.Endian
import Skaidb.Types.Value

/-!
# Canonical decimals

Dropping the trailing zeros of a mantissa gives every decimal number one
representation. The bytes of that representation are the decimal's part of an
equality key, so they have to tell apart exactly the numbers that differ.
-/

namespace Skaidb

open Codec

namespace Decimal

/-- The loop of `normalized`: drop trailing zeros while the scale allows it. -/
def dropZeros : ℕ → ℤ → ℤ × ℕ
  | 0, mantissa => (mantissa, 0)
  | scale + 1, mantissa =>
    if mantissa.tmod 10 = 0 then dropZeros scale (mantissa.tdiv 10) else (mantissa, scale + 1)

/-- Dropping zeros keeps the mantissa in range and never raises the scale. -/
theorem dropZeros_bounds (scale : ℕ) {mantissa : ℤ} (hlower : -2 ^ 127 ≤ mantissa)
    (hupper : mantissa < 2 ^ 127) :
    -2 ^ 127 ≤ (dropZeros scale mantissa).1 ∧ (dropZeros scale mantissa).1 < 2 ^ 127 ∧
      (dropZeros scale mantissa).2 ≤ scale := by
  induction scale generalizing mantissa with
  | zero => exact ⟨hlower, hupper, le_rfl⟩
  | succ scale ih =>
    unfold dropZeros
    split
    · next hzero =>
      have hten : mantissa = 10 * mantissa.tdiv 10 :=
        (Int.mul_tdiv_cancel_of_tmod_eq_zero hzero).symm
      have hlower' : -2 ^ 127 ≤ mantissa.tdiv 10 := by omega
      obtain ⟨h1, h2, h3⟩ := ih hlower' (by omega)
      exact ⟨h1, h2, by omega⟩
    · exact ⟨hlower, hupper, le_rfl⟩

/-- The same number with no trailing zeros in its mantissa. -/
def normalized (d : Decimal) : Decimal :=
  if d.mantissa = 0 then ⟨0, 0, by decide, by decide⟩
  else
    ⟨(dropZeros d.scale.toNat d.mantissa).1, UInt32.ofNat (dropZeros d.scale.toNat d.mantissa).2,
      (dropZeros_bounds _ d.lower d.upper).1, (dropZeros_bounds _ d.lower d.upper).2.1⟩

/-- The canonical bytes of the number: big-endian mantissa and scale of the
normalised form. -/
def exactBytes (d : Decimal) : List UInt8 :=
  beBytes 16 (d.normalized.mantissa % 2 ^ 128).toNat ++ beBytes 4 d.normalized.scale.toNat

/-- Dropping trailing zeros from the mantissa and the scale together keeps the number that is
denoted. -/
theorem dropZeros_value (scale : ℕ) (mantissa : ℤ) :
    ((dropZeros scale mantissa).1 : ℚ) / 10 ^ (dropZeros scale mantissa).2 =
      mantissa / 10 ^ scale := by
  induction scale generalizing mantissa with
  | zero => rfl
  | succ scale ih =>
    unfold dropZeros
    split
    · next hzero =>
      have hten : mantissa = 10 * mantissa.tdiv 10 :=
        (Int.mul_tdiv_cancel_of_tmod_eq_zero hzero).symm
      have hcast : (mantissa : ℚ) = 10 * (mantissa.tdiv 10 : ℤ) := by exact_mod_cast hten
      rw [ih, hcast, pow_succ]
      field_simp
    · rfl

/-- After dropping zeros the scale is zero or the mantissa has no trailing zero. -/
theorem dropZeros_normal (scale : ℕ) (mantissa : ℤ) :
    (dropZeros scale mantissa).2 = 0 ∨ ¬ (10 : ℤ) ∣ (dropZeros scale mantissa).1 := by
  induction scale generalizing mantissa with
  | zero => exact Or.inl rfl
  | succ scale ih =>
    unfold dropZeros
    split
    · exact ih _
    · next hzero => exact Or.inr fun hdvd => hzero (Int.tmod_eq_zero_of_dvd hdvd)

/-- The mantissa of a nonzero number stays nonzero when trailing zeros are dropped. -/
theorem dropZeros_ne_zero {scale : ℕ} {mantissa : ℤ} (hne : mantissa ≠ 0) :
    (dropZeros scale mantissa).1 ≠ 0 := by
  intro hzero
  have hvalue := dropZeros_value scale mantissa
  rw [hzero, Int.cast_zero, zero_div] at hvalue
  have hpow : (10 : ℚ) ^ scale ≠ 0 := by positivity
  exact hne (by exact_mod_cast (div_eq_zero_iff.mp hvalue.symm).resolve_right hpow)

/-- A decimal in normal form: zero has scale zero, and a positive scale needs a
mantissa without a trailing zero. -/
def Normal (d : Decimal) : Prop :=
  (d.mantissa = 0 → d.scale = 0) ∧ (d.scale = 0 ∨ ¬ (10 : ℤ) ∣ d.mantissa)

/-- Normalising a decimal that is not zero takes from its scale the zeros it takes from its
mantissa. -/
theorem toNat_scale_normalized {d : Decimal} (hne : d.mantissa ≠ 0) :
    d.normalized.scale.toNat = (dropZeros d.scale.toNat d.mantissa).2 := by
  have hle := (dropZeros_bounds d.scale.toNat d.lower d.upper).2.2
  rw [normalized, if_neg hne]
  exact UInt32.toNat_ofNat_of_lt' (lt_of_le_of_lt hle d.scale.toNat_lt)

/-- `Decimal::normalized` denotes the number of the decimal it was given. -/
theorem toRat_normalized (d : Decimal) : d.normalized.toRat = d.toRat := by
  by_cases hzero : d.mantissa = 0
  · simp [normalized, toRat, hzero]
  · have hscale := toNat_scale_normalized hzero
    unfold toRat
    rw [hscale, ← dropZeros_value d.scale.toNat d.mantissa]
    simp only [normalized, if_neg hzero]

/-- What `Decimal::normalized` returns has no trailing zero left that it could drop. -/
theorem normal_normalized (d : Decimal) : d.normalized.Normal := by
  by_cases hzero : d.mantissa = 0
  · simp [normalized, Normal, hzero]
  · refine ⟨fun h => ?_, ?_⟩
    · rw [normalized, if_neg hzero] at h
      exact absurd h (dropZeros_ne_zero hzero)
    · rcases dropZeros_normal d.scale.toNat d.mantissa with h | h
      · left
        rw [← toNat_scale_normalized hzero] at h
        exact UInt32.toNat_inj.mp h
      · right
        rwa [normalized, if_neg hzero]

/-- The scale of a normal form is determined by its number: a larger scale would
need a trailing zero in the mantissa. -/
theorem Normal.scale_le {a b : Decimal} (hb : b.Normal) (h : a.toRat = b.toRat) :
    b.scale.toNat ≤ a.scale.toNat := by
  by_contra hlt
  have hcross : (a.mantissa : ℚ) * 10 ^ b.scale.toNat = b.mantissa * 10 ^ a.scale.toNat := by
    have ha : (10 : ℚ) ^ a.scale.toNat ≠ 0 := by positivity
    have hb : (10 : ℚ) ^ b.scale.toNat ≠ 0 := by positivity
    exact (div_eq_div_iff ha hb).mp h
  have hint : a.mantissa * 10 ^ b.scale.toNat = b.mantissa * 10 ^ a.scale.toNat := by
    exact_mod_cast hcross
  obtain ⟨k, hk⟩ : ∃ k, b.scale.toNat = a.scale.toNat + (k + 1) :=
    ⟨b.scale.toNat - a.scale.toNat - 1, by omega⟩
  have hmantissa : b.mantissa = 10 * (a.mantissa * 10 ^ k) := by
    have hpow : (10 : ℤ) ^ a.scale.toNat ≠ 0 := by positivity
    apply mul_right_cancel₀ hpow
    rw [← hint, hk, pow_add, pow_succ]
    ring
  rcases hb.2 with hzero | hdvd
  · rw [hzero] at hlt
    exact hlt (Nat.zero_le _)
  · exact hdvd ⟨_, hmantissa⟩

/-- Two normal forms that denote one number are the same decimal. -/
theorem Normal.eq_of_toRat_eq {a b : Decimal} (ha : a.Normal) (hb : b.Normal)
    (h : a.toRat = b.toRat) : a = b := by
  have hscale : a.scale = b.scale :=
    UInt32.toNat_inj.mp (le_antisymm (ha.scale_le h.symm) (hb.scale_le h))
  have hmantissa : a.mantissa = b.mantissa := by
    have hpow : (10 : ℚ) ^ b.scale.toNat ≠ 0 := by positivity
    unfold toRat at h
    rw [hscale] at h
    exact_mod_cast (div_left_inj' hpow).mp h
  cases a
  cases b
  simp only [Decimal.mk.injEq]
  exact ⟨hmantissa, hscale⟩

/-- Two decimals denote one number exactly when they normalise to one form. -/
theorem normalized_eq_iff {a b : Decimal} : a.normalized = b.normalized ↔ a.toRat = b.toRat := by
  constructor
  · intro h
    rw [← toRat_normalized a, h, toRat_normalized]
  · intro h
    apply (normal_normalized a).eq_of_toRat_eq (normal_normalized b)
    rw [toRat_normalized, toRat_normalized, h]

/-- Decimals with the same mantissa and scale bytes are equal. -/
theorem eq_of_bytes_eq {a b : Decimal}
    (hmantissa : beBytes 16 (a.mantissa % 2 ^ 128).toNat = beBytes 16 (b.mantissa % 2 ^ 128).toNat)
    (hscale : beBytes 4 a.scale.toNat = beBytes 4 b.scale.toNat) : a = b := by
  have hpattern := beBytes_injective (by omega) (by omega) hmantissa
  have ha := a.lower
  have ha' := a.upper
  have hb := b.lower
  have hb' := b.upper
  have hnat := beBytes_injective (show a.scale.toNat < 256 ^ 4 from a.scale.toNat_lt)
    (show b.scale.toNat < 256 ^ 4 from b.scale.toNat_lt) hscale
  cases a
  cases b
  simp only [Decimal.mk.injEq]
  exact ⟨by dsimp only at *; omega, UInt32.toNat_inj.mp hnat⟩

/-- **Canonical bytes.** Two decimals have the same canonical bytes exactly when
they denote the same number. -/
theorem exactBytes_eq_iff {a b : Decimal} : a.exactBytes = b.exactBytes ↔ a.toRat = b.toRat := by
  rw [← normalized_eq_iff]
  constructor
  · intro h
    obtain ⟨hmantissa, hscale⟩ := List.append_inj h (by simp)
    exact eq_of_bytes_eq hmantissa hscale
  · intro h
    rw [exactBytes, h, exactBytes]

end Decimal

end Skaidb
