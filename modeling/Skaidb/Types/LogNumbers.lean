import Skaidb.Types.LogTimestamp

/-!
# Numbers in log lines

The hot log lines push their numbers digit by digit instead of formatting them. Short numbers are
pushed from the front by dividing by powers of ten, the others fill a buffer from the back. What
is pushed is what the formatter writes, but for a negative number that is padded: the formatter
counts its sign as one of the places.
-/

namespace Skaidb

open Codec

namespace LogTimestamp

/-! ## The functions -/

/-- `push_u64`: push the decimal digits of a number through a buffer of twenty bytes. -/
def pushU64 (out : List Char) (n : ℕ) : Option (List Char) := do
  let (i, buf) ← fillDigits 20 n (List.replicate 20 '0')
  some (out ++ buf.drop i)

/-- What the formatter writes of a number with zeros up to a width; the sign counts. -/
def formatPadded (width : ℕ) (n : ℤ) : List Char :=
  if n < 0 then '-' :: padded (width - 1) n.natAbs else padded width n.natAbs

/-- What is pushed in front of the digits. -/
def signPushed (n : ℤ) : List Char := if n < 0 then ['-'] else []

/-! ## The buffer -/

/-- The digits of a number that fits are no more than the places. -/
theorem length_toDigits_le {width n : ℕ} (hwidth : 0 < width) (h : n < 10 ^ width) :
    (Nat.toDigits 10 n).length ≤ width := by
  have hpad := congrArg List.length (padded_eq_fixedDigits hwidth h)
  rw [padded, List.length_leftpad, length_fixedDigits] at hpad
  omega

/-- The end of the buffer is the number with its padding. -/
theorem drop_padded {width n : ℕ} (hwidth : width ≤ 20) (h : n < 10 ^ 20) :
    (padded 20 n).drop (min (20 - (Nat.toDigits 10 n).length) (20 - width)) = padded width n := by
  have hlen := length_toDigits_le (by decide) h
  rw [padded, List.leftpad, List.drop_append_of_le_length (by simp), List.drop_replicate,
    padded, List.leftpad]
  congr 2
  omega

/-- The buffer of `push_u64` once it is filled: zeros in front, then the digits of the number. -/
theorem fillDigits_zeros {n : ℕ} (h : n < 10 ^ 20) :
    fillDigits 20 n (List.replicate 20 '0') =
      some (20 - (Nat.toDigits 10 n).length, padded 20 n) := by
  have hbuf := fillDigits_eq (by decide : 0 < 20) h []
  rwa [List.append_nil, List.append_nil] at hbuf

/-- What `push_u64` pushes are the decimal digits of its number and nothing else. -/
theorem pushU64_eq (out : List Char) {n : ℕ} (h : n < 10 ^ 20) :
    pushU64 out n = some (out ++ Nat.toDigits 10 n) := by
  have hlen := length_toDigits_le (by decide) h
  have hdrop := drop_padded (Nat.zero_le 20) h
  have hzero : padded 0 n = Nat.toDigits 10 n := by simp [padded, List.leftpad]
  rw [Nat.min_eq_left (by omega), hzero] at hdrop
  rw [pushU64, fillDigits_zeros h]
  simp only [Option.bind_eq_bind, Option.bind_some, hdrop]

/-- A number is pushed with its sign and with zeros in front of its digits. -/
theorem pushPadded_eq (out : List Char) {n : ℤ} {width : ℕ} (hwidth : width ≤ 20)
    (h : n.natAbs < 10 ^ 20) :
    pushPadded out n width = some (out ++ (signPushed n ++ padded width n.natAbs)) := by
  by_cases hfast : 0 ≤ n ∧ 0 < width
  · have hcast : ((n.natAbs : ℕ) : ℤ) = n := Int.natAbs_of_nonneg hfast.1
    have hpush := pushPadded_natCast out ⟨hfast.2, hwidth⟩ h
    rw [hcast] at hpush
    rw [hpush, signPushed, if_neg (by omega), List.nil_append]
  · have hslow : ¬ (0 ≤ n ∧ (1 ≤ width ∧ width ≤ 4) ∧
        n.toNat < [1, 10, 100, 1000, 10000].getD width 0) := by omega
    have hout : (if n < 0 then out ++ ['-'] else out) = out ++ signPushed n := by
      unfold signPushed
      split
      · rfl
      · exact (List.append_nil out).symm
    rw [pushPadded, if_neg hslow, fillDigits_zeros h, hout]
    simp only [Option.bind_eq_bind, Option.bind_some, if_neg (Nat.not_lt.mpr hwidth),
      drop_padded hwidth h, List.append_assoc]

/-- One place more or less makes a difference unless the digits take all places. -/
theorem padded_pred_eq_iff {width n : ℕ} :
    padded width n = padded (width - 1) n ↔ width ≤ (Nat.toDigits 10 n).length := by
  constructor
  · intro h
    have hlen := congrArg List.length h
    rw [padded, padded, List.length_leftpad, List.length_leftpad] at hlen
    have hpos := Nat.length_toDigits_pos (b := 10) (n := n)
    omega
  · intro h
    unfold padded List.leftpad
    congr 2
    omega

/-- **Pushed numbers.** A number without padding is pushed as its digits. A number with padding is
pushed as the formatter writes it exactly when it is not negative or its digits take all the
places. -/
theorem pushed_as_formatted (out : List Char) :
    (∀ n : UInt64, pushU64 out n.toNat = some (out ++ Nat.toDigits 10 n.toNat)) ∧
    ∀ (n : Int64) (width : ℕ), width ≤ 20 →
      (pushPadded out n.toInt width = some (out ++ formatPadded width n.toInt) ↔
        0 ≤ n.toInt ∨ width ≤ (Nat.toDigits 10 n.toInt.natAbs).length) := by
  constructor
  · intro n
    have hlt := n.toNat_lt
    exact pushU64_eq out (by omega)
  · intro n width hwidth
    have hlower := n.le_toInt
    have hupper := n.toInt_lt
    generalize n.toInt = i at hlower hupper
    rw [pushPadded_eq out hwidth (by omega), Option.some_inj, List.append_cancel_left_eq]
    unfold signPushed formatPadded
    by_cases hneg : i < 0
    · rw [if_pos hneg, if_pos hneg, List.singleton_append, List.cons_inj_right,
        padded_pred_eq_iff]
      omega
    · rw [if_neg hneg, if_neg hneg, List.nil_append]
      exact iff_of_true rfl (Or.inl (Int.not_lt.mp hneg))

example : pushPadded [] (-7) 3 = some "-007".toList ∧ formatPadded 3 (-7) = "-07".toList := by
  decide

end LogTimestamp

end Skaidb
