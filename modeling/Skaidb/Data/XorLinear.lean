import Mathlib.Data.FinEnum
import Mathlib.Algebra.Ring.Parity
import Mathlib.Tactic.Common

/-!
# Maps that are linear in exclusive or

Bit vectors are a vector space over two elements with exclusive or as the addition, and the
shifts are linear on it. A linear map with a trivial kernel is a bijection, and it is known
from its values on the single bits; that makes an equation between polynomials in a linear map
a finite check. An xorshift step is three exclusive ors with a shift, each of which is undone
because a vector that equals its own shift is zero.
-/

namespace XorLinear

variable {w : ℕ}

/-- The map sends exclusive ors to exclusive ors. -/
def Linear (f : BitVec w → BitVec w) : Prop := ∀ x y, f (x ^^^ y) = f x ^^^ f y

/-! ## Linear maps -/

section Rules

variable {f g : BitVec w → BitVec w}

/-- A linear map takes zero to zero, as it takes a vector's exclusive or with itself there. -/
theorem Linear.zero (h : Linear f) : f 0#w = 0#w := by
  have hself := h 0#w 0#w
  rwa [BitVec.xor_self, BitVec.xor_self] at hself

/-- The map that takes everything to zero is linear. -/
theorem Linear.const_zero : Linear fun _ : BitVec w => 0#w := fun _ _ => BitVec.xor_self.symm

/-- The identity is linear, so that a vector may be combined with a shift of itself. -/
theorem Linear.id : Linear fun x : BitVec w => x := fun _ _ => rfl

/-- One linear map after another is linear, such as the steps of the generator. -/
theorem Linear.comp (hg : Linear g) (hf : Linear f) : Linear fun x => g (f x) := by
  intro x y
  dsimp only
  rw [hf x y, hg (f x) (f y)]

/-- The exclusive or of two linear maps is linear, such as a vector and its shift. -/
theorem Linear.xor (hf : Linear f) (hg : Linear g) : Linear fun x => f x ^^^ g x := by
  intro x y
  dsimp only
  rw [hf x y, hg x y]
  ac_rfl

/-- A shift to the left by a fixed number of bits is linear. -/
theorem Linear.shiftLeft (k : ℕ) : Linear fun x : BitVec w => x <<< k :=
  fun x y => BitVec.shiftLeft_xor_distrib x y k

/-- A shift to the right by a fixed number of bits is linear. -/
theorem Linear.shiftRight (k : ℕ) : Linear fun x : BitVec w => x >>> k :=
  fun x y => BitVec.ushiftRight_xor_distrib x y k

/-- A linear map with a trivial kernel is injective: two words with one image differ by a word of
the kernel. -/
theorem Linear.injective (h : Linear f) (hkernel : ∀ x, f x = 0#w → x = 0#w) :
    Function.Injective f := by
  intro x y hxy
  apply BitVec.xor_eq_zero_iff.mp
  apply hkernel
  rw [h x y, hxy, BitVec.xor_self]

/-- A map with a trivial kernel is a bijection. -/
theorem Linear.bijective (h : Linear f) (hkernel : ∀ x, f x = 0#w → x = 0#w) :
    Function.Bijective f := Finite.injective_iff_bijective.mp (h.injective hkernel)

/-- Linear maps that agree on the single bits agree on the vectors whose bits are all below a
position. -/
theorem Linear.agree_below (hf : Linear f) (hg : Linear g)
    (h : ∀ i < w, f (BitVec.twoPow w i) = g (BitVec.twoPow w i)) (n : ℕ) (hn : n ≤ w)
    (x : BitVec w) (hx : ∀ i, n ≤ i → x.getLsbD i = false) : f x = g x := by
  induction n generalizing x with
  | zero =>
    have hzero : x = 0#w := by
      apply BitVec.eq_of_getLsbD_eq
      intro i _
      rw [hx i (Nat.zero_le i), BitVec.getLsbD_zero]
    rw [hzero, hf.zero, hg.zero]
  | succ n ih =>
    by_cases hbit : x.getLsbD n = true
    · -- without its highest bit the vector is one the induction is about
      have hrest : f (x ^^^ BitVec.twoPow w n) = g (x ^^^ BitVec.twoPow w n) := by
        apply ih (by omega)
        intro i hi
        rw [BitVec.getLsbD_xor, BitVec.getLsbD_twoPow]
        by_cases hin : i = n
        · subst hin
          simp [hbit, show i < w by omega]
        · simp [hx i (by omega), Ne.symm hin]
      rw [hf, hg, h n (by omega)] at hrest
      exact (BitVec.xor_left_inj _).mp hrest
    · apply ih (by omega)
      intro i hi
      by_cases hin : i = n
      · subst hin
        simpa using hbit
      · exact hx i (by omega)

/-- A linear map is known from its values on the single bits. -/
theorem Linear.ext (hf : Linear f) (hg : Linear g)
    (h : ∀ i < w, f (BitVec.twoPow w i) = g (BitVec.twoPow w i)) : f = g := by
  funext x
  exact hf.agree_below hg h w le_rfl x fun i hi => BitVec.getLsbD_of_ge x i hi

end Rules

/-! ## Polynomials in a linear map -/

/-- The polynomial with the coefficients, the constant one first, in a map. -/
def eval (f : BitVec w → BitVec w) : List Bool → BitVec w → BitVec w
  | [], _ => 0#w
  | c :: cs, x => (if c then x else 0#w) ^^^ eval f cs (f x)

section Polynomials

variable {f : BitVec w → BitVec w}

/-- A polynomial in a linear map is linear. -/
theorem Linear.eval (h : Linear f) (cs : List Bool) : Linear (eval f cs) := by
  induction cs with
  | nil => exact Linear.const_zero
  | cons c cs ih =>
    have hhead : Linear fun x : BitVec w => if c then x else 0#w := by
      cases c
      · exact Linear.const_zero
      · exact Linear.id
    exact hhead.xor (ih.comp h)

/-- At a fixed point a polynomial counts its coefficients modulo two. -/
theorem eval_fixed {x : BitVec w} (hx : f x = x) (cs : List Bool) :
    eval f cs x = if Odd (cs.count true) then x else 0#w := by
  induction cs with
  | nil => simp [eval]
  | cons c cs ih =>
    rw [eval, hx, ih]
    cases c with
    | false => simp
    | true =>
      simp only [List.count_cons_self, Nat.odd_add_one]
      by_cases hodd : Odd (cs.count true) <;> simp [hodd]

/-- A linear map that is a zero of a polynomial with an odd number of terms fixes zero only. -/
theorem Linear.eq_zero_of_fixed (h : Linear f) {cs : List Bool} (hodd : Odd (cs.count true))
    (hroot : ∀ i < w, XorLinear.eval f cs (BitVec.twoPow w i) = 0#w) {x : BitVec w}
    (hx : f x = x) : x = 0#w := by
  have hzero : XorLinear.eval f cs = fun _ => 0#w := (h.eval cs).ext Linear.const_zero hroot
  have hfixed := eval_fixed hx cs
  rw [if_pos hodd, hzero] at hfixed
  exact hfixed.symm

end Polynomials

/-! ## Xorshift -/

/-- A vector that equals its shift to the left is zero. -/
theorem eq_zero_of_shiftLeft {k : ℕ} (hk : 0 < k) {x : BitVec w} (h : x <<< k = x) : x = 0#w := by
  have hmany (n : ℕ) : x <<< (n * k) = x := by
    induction n with
    | zero => simp
    | succ n ih => rw [Nat.succ_mul, BitVec.shiftLeft_add, ih, h]
  rw [← hmany w]
  exact BitVec.shiftLeft_eq_zero (Nat.le_mul_of_pos_right w hk)

/-- A vector that equals its shift to the right is zero. -/
theorem eq_zero_of_shiftRight {k : ℕ} (hk : 0 < k) {x : BitVec w} (h : x >>> k = x) :
    x = 0#w := by
  have hmany (n : ℕ) : x >>> (n * k) = x := by
    induction n with
    | zero => simp
    | succ n ih => rw [Nat.succ_mul, BitVec.shiftRight_add, ih, h]
  rw [← hmany w]
  exact BitVec.ushiftRight_eq_zero (Nat.le_mul_of_pos_right w hk)

/-- The exclusive or with the shift to the left. -/
def addLeft (k : ℕ) (x : BitVec w) : BitVec w := x ^^^ (x <<< k)

/-- The exclusive or with the shift to the right. -/
def addRight (k : ℕ) (x : BitVec w) : BitVec w := x ^^^ (x >>> k)

/-- Three exclusive ors with a shift: left, right and left again. -/
def xorshift (a b c : ℕ) (x : BitVec w) : BitVec w := addLeft c (addRight b (addLeft a x))

/-- The exclusive or with the shift to the left is linear. -/
theorem linear_addLeft (k : ℕ) : Linear (addLeft k : BitVec w → BitVec w) :=
  Linear.id.xor (Linear.shiftLeft k)

/-- The exclusive or with the shift to the right is linear. -/
theorem linear_addRight (k : ℕ) : Linear (addRight k : BitVec w → BitVec w) :=
  Linear.id.xor (Linear.shiftRight k)

/-- A step of an xorshift generator is linear, as it is made of shifts and exclusive ors. -/
theorem linear_xorshift (a b c : ℕ) : Linear (xorshift a b c : BitVec w → BitVec w) :=
  (linear_addLeft c).comp ((linear_addRight b).comp (linear_addLeft a))

/-- The exclusive or with the shift to the left is a bijection. -/
theorem bijective_addLeft {k : ℕ} (hk : 0 < k) :
    Function.Bijective (addLeft k : BitVec w → BitVec w) := by
  apply (linear_addLeft k).bijective
  intro x hx
  exact eq_zero_of_shiftLeft hk (BitVec.xor_eq_zero_iff.mp hx).symm

/-- The exclusive or with the shift to the right is a bijection. -/
theorem bijective_addRight {k : ℕ} (hk : 0 < k) :
    Function.Bijective (addRight k : BitVec w → BitVec w) := by
  apply (linear_addRight k).bijective
  intro x hx
  exact eq_zero_of_shiftRight hk (BitVec.xor_eq_zero_iff.mp hx).symm

/-- An xorshift step by positive distances is a bijection. -/
theorem bijective_xorshift {a b c : ℕ} (ha : 0 < a) (hb : 0 < b) (hc : 0 < c) :
    Function.Bijective (xorshift a b c : BitVec w → BitVec w) :=
  (bijective_addLeft hc).comp ((bijective_addRight hb).comp (bijective_addLeft ha))

end XorLinear
