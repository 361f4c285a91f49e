import Mathlib.Data.List.Basic
import Skaidb.Codec.Comparison
import Skaidb.Codec.Text
import Skaidb.Codec.Utf8

/-!
# Digits of a fixed width

A number written with a given number of digits has zeros in front of its own digits. Texts of
one width are read as the numbers are ordered, which is why dates are written this way.
-/

namespace Codec

/-- The decimal digits of a number, with zeros in front where they are fewer than `width`. -/
def padded (width n : ℕ) : List Char := List.leftpad width '0' (Nat.toDigits 10 n)

/-- The last `width` decimal digits of a number. -/
def fixedDigits : ℕ → ℕ → List Char
  | 0, _ => []
  | width + 1, n => fixedDigits width (n / 10) ++ [Nat.digitChar (n % 10)]

/-- A number has as many digits as the width says. -/
@[simp] theorem length_fixedDigits (width n : ℕ) : (fixedDigits width n).length = width := by
  induction width generalizing n with
  | zero => rfl
  | succ width ih => simp [fixedDigits, ih]

/-- Zeros are put in front of all digits but the last. -/
theorem leftpad_append_singleton (width : ℕ) (a b : Char) (front : List Char) :
    List.leftpad (width + 1) a (front ++ [b]) = List.leftpad width a front ++ [b] := by
  simp [List.leftpad]

/-- A number below the range of the width has no other digits. -/
theorem padded_eq_fixedDigits {width n : ℕ} (hwidth : 0 < width) (h : n < 10 ^ width) :
    padded width n = fixedDigits width n := by
  unfold padded
  induction width, hwidth using Nat.le_induction generalizing n with
  | base =>
    have hn : n < 10 := h
    simp [fixedDigits, Nat.toDigits_of_lt_base hn, Nat.mod_eq_of_lt hn, List.leftpad]
  | succ width hpos ih =>
    have hdiv : n / 10 < 10 ^ width := Nat.div_lt_of_lt_mul (by rwa [pow_succ'] at h)
    rw [fixedDigits, ← ih hdiv]
    by_cases hn : n < 10
    · -- The only digit is behind a zero that stands for the quotient.
      have hzero : List.leftpad width '0' ['0'] = List.replicate width '0' := by
        rw [List.leftpad, List.length_singleton, ← List.replicate_succ',
          Nat.sub_add_cancel hpos]
      rw [Nat.toDigits_of_lt_base hn, Nat.div_eq_of_lt hn, Nat.mod_eq_of_lt hn,
        Nat.toDigits_zero, hzero]
      simp [List.leftpad]
    · rw [Nat.toDigits_of_base_le (by decide) (Nat.not_lt.mp hn), leftpad_append_singleton]

/-- Digits of a fixed width begin with the leading one, and the others have a width less. -/
theorem fixedDigits_succ (width n : ℕ) :
    fixedDigits (width + 1) n = Nat.digitChar (n / 10 ^ width % 10) :: fixedDigits width n := by
  induction width generalizing n with
  | zero => simp [fixedDigits]
  | succ width ih =>
    have hlast : fixedDigits width (n / 10) ++ [Nat.digitChar (n % 10)] =
        fixedDigits (width + 1) n := rfl
    rw [fixedDigits, ih, Nat.div_div_eq_div_mul, ← pow_succ', List.cons_append, hlast]

/-- A decimal digit lies in Unicode as far behind `0` as its value says. -/
theorem toNat_digitChar {d : ℕ} (hd : d < 10) : d.digitChar.toNat = 48 + d := by
  have h : ∀ k < 10, k.digitChar.toNat = 48 + k := by decide
  exact h d hd

/-- Numbers keep their order when another one is added. -/
theorem compare_add_left (k m n : ℕ) : compare (k + m) (k + n) = compare m n := by
  rcases lt_trichotomy m n with h | h | h
  · rw [Nat.compare_eq_lt.mpr h, Nat.compare_eq_lt.mpr (by omega)]
  · rw [Nat.compare_eq_eq.mpr h, Nat.compare_eq_eq.mpr (by omega)]
  · rw [Nat.compare_eq_gt.mpr h, Nat.compare_eq_gt.mpr (by omega)]

/-- The character of a decimal digit takes one byte, which is above that of zero by the digit. -/
theorem utf8Bytes_digitChar {d : ℕ} (hd : d < 10) :
    utf8Bytes [d.digitChar] = [UInt8.ofNat (48 + d)] := by
  have hchar := toNat_digitChar hd
  rw [utf8Bytes_cons, utf8Bytes_nil, List.append_nil, utf8EncodeChar_of_lt (by omega), hchar]

/-- **Numbers of one width are ordered as their digits are.** -/
theorem Ranks.fixedDigits {width m n : ℕ} (hm : m < 10 ^ width) (hn : n < 10 ^ width) :
    Ranks (utf8Bytes (fixedDigits width m)) (utf8Bytes (fixedDigits width n)) (compare m n) := by
  induction width generalizing m n with
  | zero =>
    obtain ⟨rfl, rfl⟩ : m = 0 ∧ n = 0 := by simpa using And.intro hm hn
    exact Ranks.nil
  | succ width ih =>
    have hdiv {k : ℕ} (hk : k < 10 ^ (width + 1)) : k / 10 < 10 ^ width :=
      Nat.div_lt_of_lt_mul (by rwa [pow_succ'] at hk)
    have hdigit : compare (UInt8.ofNat (48 + m % 10)) (UInt8.ofNat (48 + n % 10)) =
        compare (m % 10) (n % 10) := by
      rw [compare_ofNat (by omega) (by omega)]
      exact compare_add_left 48 _ _
    rw [Codec.fixedDigits, Codec.fixedDigits, utf8Bytes_append, utf8Bytes_append,
      utf8Bytes_digitChar (Nat.mod_lt m (by decide)),
      utf8Bytes_digitChar (Nat.mod_lt n (by decide)),
      compare_eq_div_then_mod m n 10 (by decide), ← hdigit]
    exact (ih (hdiv hm) (hdiv hn)).append (Ranks.symbol _ _)

/-- A number of a fixed width, a separator and what follows are ordered one after another. -/
theorem Ranks.padded {width m n : ℕ} (hwidth : 0 < width) (hm : m < 10 ^ width)
    (hn : n < 10 ^ width) (sep : Char) {x y : List Char} {o : Ordering}
    (h : Ranks (utf8Bytes x) (utf8Bytes y) o) :
    Ranks (utf8Bytes (padded width m ++ sep :: x)) (utf8Bytes (padded width n ++ sep :: y))
      ((compare m n).then o) := by
  have hsep : Ranks (String.utf8EncodeChar sep) (String.utf8EncodeChar sep) .eq := by
    have hself := Ranks.of_length_eq (rfl : (String.utf8EncodeChar sep).length = _)
    rwa [Std.ReflOrd.compare_self] at hself
  rw [padded_eq_fixedDigits hwidth hm, padded_eq_fixedDigits hwidth hn, utf8Bytes_append,
    utf8Bytes_append, utf8Bytes_cons, utf8Bytes_cons]
  exact (Ranks.fixedDigits hm hn).append (hsep.append h)

end Codec
