import Mathlib.Data.List.Basic
import Mathlib.Tactic.Ring

/-!
# Fixed-width integers as bytes

A natural number becomes exactly `width` bytes, least or most significant byte
first. Digits above the width are dropped, which is what a narrowing cast
followed by a byte conversion does. The big-endian form is the one whose byte
order is the numeric order.
-/

namespace Codec

/-- The `width` little-endian bytes of `n`, the first one the lowest. -/
def leBytes : ℕ → ℕ → List UInt8
  | 0, _ => []
  | width + 1, n => UInt8.ofNat (n % 256) :: leBytes width (n / 256)

/-- The number whose little-endian bytes are given, whatever their count. -/
def ofLeBytes : List UInt8 → ℕ
  | [] => 0
  | b :: bytes => b.toNat + 256 * ofLeBytes bytes

/-- The `width` big-endian bytes of `n`, the last one the lowest. -/
def beBytes : ℕ → ℕ → List UInt8
  | 0, _ => []
  | width + 1, n => beBytes width (n / 256) ++ [UInt8.ofNat (n % 256)]

/-- The number whose big-endian bytes are given, as the source folds them. -/
def ofBeBytes (bytes : List UInt8) : ℕ := bytes.foldl (fun n b => 256 * n + b.toNat) 0

/-- A little-endian field always has its full width. -/
@[simp] theorem length_leBytes (width n : ℕ) : (leBytes width n).length = width := by
  induction width generalizing n with
  | zero => rfl
  | succ width ih => simp [leBytes, ih]

/-- A big-endian field always has its full width. -/
@[simp] theorem length_beBytes (width n : ℕ) : (beBytes width n).length = width := by
  induction width generalizing n with
  | zero => rfl
  | succ width ih => simp [beBytes, ih]

/-- Reading a written field returns the number modulo the field's range. -/
theorem ofLeBytes_leBytes (width n : ℕ) : ofLeBytes (leBytes width n) = n % 256 ^ width := by
  induction width generalizing n with
  | zero => simp [leBytes, ofLeBytes, Nat.mod_one]
  | succ width ih =>
    have hdigit : (UInt8.ofNat (n % 256)).toNat = n % 256 := by
      simp [Nat.mod_eq_of_lt (Nat.mod_lt n (by decide : 0 < 256))]
    rw [leBytes, ofLeBytes, ih, hdigit, pow_succ', Nat.mod_mul]

/-- A number that fits the field is read back exactly. -/
theorem ofLeBytes_leBytes_of_lt {width n : ℕ} (hn : n < 256 ^ width) :
    ofLeBytes (leBytes width n) = n := by
  rw [ofLeBytes_leBytes, Nat.mod_eq_of_lt hn]

/-- The number read from a field lies in the field's range. -/
theorem ofLeBytes_lt (bytes : List UInt8) : ofLeBytes bytes < 256 ^ bytes.length := by
  induction bytes with
  | nil => simp [ofLeBytes]
  | cons b bytes ih =>
    have hb : b.toNat < 256 := b.toNat_lt
    rw [ofLeBytes, List.length_cons, pow_succ]
    omega

/-- The last byte read in big-endian order is the least significant digit. -/
theorem ofBeBytes_append_singleton (bytes : List UInt8) (b : UInt8) :
    ofBeBytes (bytes ++ [b]) = 256 * ofBeBytes bytes + b.toNat := by
  simp [ofBeBytes, List.foldl_append]

/-- Reading a big-endian field returns the number modulo the field's range. -/
theorem ofBeBytes_beBytes (width n : ℕ) : ofBeBytes (beBytes width n) = n % 256 ^ width := by
  induction width generalizing n with
  | zero => simp [beBytes, ofBeBytes, Nat.mod_one]
  | succ width ih =>
    have hdigit : (UInt8.ofNat (n % 256)).toNat = n % 256 := by
      simp [Nat.mod_eq_of_lt (Nat.mod_lt n (by decide : 0 < 256))]
    rw [beBytes, ofBeBytes_append_singleton, ih, hdigit, pow_succ', Nat.mod_mul]
    ring

/-- Two numbers that fit a big-endian field and have the same bytes are equal. -/
theorem beBytes_injective {width m n : ℕ} (hm : m < 256 ^ width) (hn : n < 256 ^ width)
    (heq : beBytes width m = beBytes width n) : m = n := by
  have h := congrArg ofBeBytes heq
  rwa [ofBeBytes_beBytes, ofBeBytes_beBytes, Nat.mod_eq_of_lt hm, Nat.mod_eq_of_lt hn] at h

end Codec
