import Mathlib.Data.List.Infix
import Skaidb.Codec.Endian

/-!
# Comparing encodings symbol by symbol

Keys are compared as strings of symbols, so an encoding is good when the
comparison of two encodings is decided inside them, whatever follows. `Ranks`
states this for the lexicographic order and `Separates` for equality. Both
are stated for a pair of strings and closed under concatenation, which is what an
induction over nested data needs.
-/

namespace Codec

variable {β : Type}

section Order

variable [Ord β]

/-- The order of any two strings starting with `x` and `y` is `o`, and where `o`
is equality it is the order of what follows. -/
def Ranks (x y : List β) (o : Ordering) : Prop :=
  ∀ s t, compare (x ++ s) (y ++ t) = o.then (compare s t)

/-- Two empty strings are equal and decide nothing for what follows them. -/
theorem Ranks.nil : Ranks ([] : List β) [] .eq := fun _ _ => rfl

/-- The order of concatenations is decided by the first part that differs. -/
theorem Ranks.append {x y x' y' : List β} {o o' : Ordering} (h : Ranks x y o)
    (h' : Ranks x' y' o') : Ranks (x ++ x') (y ++ y') (o.then o') := by
  intro s t
  rw [List.append_assoc, List.append_assoc, h, h', Ordering.then_assoc]

/-- A decided order is not affected by what is appended. -/
theorem Ranks.append_of_ne {x y : List β} {o : Ordering} (h : Ranks x y o) (ho : o ≠ .eq)
    (x' y' : List β) : Ranks (x ++ x') (y ++ y') o := by
  intro s t
  rw [List.append_assoc, List.append_assoc, h]
  cases o with
  | eq => exact absurd rfl ho
  | lt | gt => rfl

/-- Two strings of one symbol decide as their symbols compare. -/
theorem Ranks.symbol (a b : β) : Ranks [a] [b] (compare a b) := by
  intro s t
  exact List.compare_cons_cons

/-- A first symbol in common leaves the decision to what follows it. -/
theorem Ranks.cons [Std.ReflOrd β] (a : β) {x y : List β} {o : Ordering} (h : Ranks x y o) :
    Ranks (a :: x) (a :: y) o := by
  have ha := (Ranks.symbol a a).append h
  rwa [Std.ReflOrd.compare_self] at ha

/-- Different first symbols decide by their own order. -/
theorem Ranks.cons_of_ne {a b : β} (hne : compare a b ≠ .eq) (x y : List β) :
    Ranks (a :: x) (b :: y) (compare a b) :=
  (Ranks.symbol a b).append_of_ne hne x y

/-- Two strings exchanged are ranked the other way round. -/
theorem Ranks.swap [Std.OrientedOrd β] {x y : List β} {o : Ordering} (h : Ranks x y o) :
    Ranks y x o.swap := by
  intro s t
  rw [Std.OrientedOrd.eq_swap, h, Ordering.swap_then, ← Std.OrientedOrd.eq_swap]

/-- Strings of one length decide by their own lexicographic order. -/
theorem Ranks.of_length_eq {x y : List β} (hlen : x.length = y.length) :
    Ranks x y (compare x y) := by
  induction x generalizing y with
  | nil =>
    obtain rfl : y = [] := List.length_eq_zero_iff.mp hlen.symm
    exact Ranks.nil
  | cons a x ih =>
    cases y with
    | nil => cases hlen
    | cons b y =>
      rw [List.compare_cons_cons]
      exact (Ranks.symbol a b).append (ih (by simpa using hlen))

/-- Two strings compare as they are ranked, with nothing behind them. -/
theorem Ranks.compare_eq {x y : List β} {o : Ordering} (h : Ranks x y o) : compare x y = o := by
  have h' := h [] []
  rwa [List.append_nil, List.append_nil, List.compare_nil_nil, Ordering.then_eq] at h'

/-- **Terminated sequences.** Parts that are ordered by `cmp` and lie above the
terminator give sequences in lexicographic order, a proper prefix first. -/
theorem Ranks.terminated [Std.OrientedOrd β] {α : Type} {cmp : α → α → Ordering} {f : α → List β}
    {stop : List β} (hstop : Ranks stop stop .eq) {as bs : List α}
    (has : ∀ a ∈ as, Ranks stop (f a) .lt) (hbs : ∀ b ∈ bs, Ranks stop (f b) .lt)
    (hparts : ∀ a ∈ as, ∀ b ∈ bs, Ranks (f a) (f b) (cmp a b)) :
    Ranks (as.flatMap f ++ stop) (bs.flatMap f ++ stop) (List.compareLex cmp as bs) := by
  have hshort {b : α} (hb : Ranks stop (f b) .lt) (rest : List β) :
      Ranks stop (f b ++ rest) .lt := by
    have h := hb.append_of_ne (by decide) [] rest
    rwa [List.append_nil] at h
  induction as generalizing bs with
  | nil =>
    cases bs with
    | nil => exact hstop
    | cons b bs =>
      rw [List.flatMap_cons, List.append_assoc]
      exact hshort (hbs b List.mem_cons_self) _
  | cons a as ih =>
    cases bs with
    | nil =>
      rw [List.flatMap_cons, List.append_assoc]
      exact (hshort (has a List.mem_cons_self) _).swap
    | cons b bs =>
      rw [List.flatMap_cons, List.flatMap_cons, List.append_assoc, List.append_assoc,
        List.compareLex_cons_cons]
      refine (hparts a List.mem_cons_self b List.mem_cons_self).append ?_
      exact ih (fun u hu => has u (List.mem_cons_of_mem a hu))
        (fun u hu => hbs u (List.mem_cons_of_mem b hu))
        (fun u hu u' hu' => hparts u (List.mem_cons_of_mem a hu) u' (List.mem_cons_of_mem b hu'))

end Order

/-- Two strings starting with `x` and `y` are equal only if `P` holds and what
follows is equal too. -/
def Separates (x y : List β) (P : Prop) : Prop := ∀ s t, x ++ s = y ++ t → P ∧ s = t

/-- What two separated strings have in common may be weakened, which is how a separation is carried
to a larger value. -/
theorem Separates.mono {x y : List β} {P Q : Prop} (h : Separates x y P) (hPQ : P → Q) :
    Separates x y Q := fun s t heq => ⟨hPQ (h s t heq).1, (h s t heq).2⟩

/-- Two concatenations separate, when the first parts do and the second parts do for equal
firsts. -/
theorem Separates.append {x y x' y' : List β} {P Q : Prop} (h : Separates x y P)
    (h' : P → Separates x' y' Q) : Separates (x ++ x') (y ++ y') (P ∧ Q) := by
  intro s t heq
  rw [List.append_assoc, List.append_assoc] at heq
  obtain ⟨hP, hrest⟩ := h _ _ heq
  obtain ⟨hQ, hst⟩ := h' hP _ _ hrest
  exact ⟨⟨hP, hQ⟩, hst⟩

/-- Of two strings of one length neither is a proper prefix of the other, so a difference of them is
decided before the end of either. -/
theorem Separates.of_length_eq {x y : List β} (hlen : x.length = y.length) :
    Separates x y (x = y) := fun _ _ heq => List.append_inj heq hlen

/-- A first symbol in common can be dropped from two strings that are to be separated. -/
theorem Separates.cons (a : β) {x y : List β} {P : Prop} (h : Separates x y P) :
    Separates (a :: x) (a :: y) P := by
  intro s t heq
  exact h s t (List.cons.inj heq).2

/-- Two strings whose first symbols differ are separated, whatever is behind these. -/
theorem Separates.of_head_ne {a b : β} (hne : a ≠ b) (x y : List β) (P : Prop) :
    Separates (a :: x) (b :: y) P := by
  intro s t heq
  exact absurd (List.cons.inj heq).1 hne

/-- Separated strings are equal only if the property holds for which they are not told apart. -/
theorem Separates.of_eq {x y : List β} {P : Prop} (h : Separates x y P) (heq : x = y) : P :=
  (h [] [] (by simpa using heq)).1

/-- A separated string that starts another one is all of it. -/
theorem Separates.eq_of_isPrefix {x y : List β} {P : Prop} (h : Separates x y P) (hp : x <+: y) :
    x = y := by
  obtain ⟨s, hs⟩ := hp
  obtain ⟨-, hnil⟩ := h s [] (by simpa using hs)
  simpa [hnil] using hs

/-- Separation does not depend on the order of the two strings. -/
theorem Separates.symm {x y : List β} {P : Prop} (h : Separates x y P) : Separates y x P :=
  fun s t heq => ⟨(h t s heq.symm).1, (h t s heq.symm).2.symm⟩

/-- A ranking separates: strings are equal only if they are ranked equal. -/
theorem Ranks.separates [Ord β] [Std.LawfulEqOrd β] {x y : List β} {o : Ordering}
    (h : Ranks x y o) : Separates x y (o = .eq) := by
  intro s t heq
  have hcompare : compare (x ++ s) (y ++ t) = .eq := by
    rw [heq]
    exact Std.ReflOrd.compare_self
  rw [h, Ordering.then_eq_eq] at hcompare
  exact ⟨hcompare.1, Std.LawfulEqOrd.eq_of_compare hcompare.2⟩

/-! ## Big-endian numbers -/

/-- The order of two numbers is that of their quotients, then that of their digits. -/
theorem compare_eq_div_then_mod (m n k : ℕ) (hk : 0 < k) :
    compare m n = (compare (m / k) (n / k)).then (compare (m % k) (n % k)) := by
  have hm := Nat.div_add_mod m k
  have hn := Nat.div_add_mod n k
  have hmk := Nat.mod_lt m hk
  have hnk := Nat.mod_lt n hk
  rcases lt_trichotomy (m / k) (n / k) with hlt | heq | hgt
  · have hmul : k * (m / k) + k ≤ k * (n / k) := by
      rw [← Nat.mul_succ]
      exact Nat.mul_le_mul_left k hlt
    rw [Nat.compare_eq_lt.mpr (show m < n by omega), Nat.compare_eq_lt.mpr hlt]
    rfl
  · rw [heq, Nat.compare_eq_eq.mpr rfl, Ordering.eq_then]
    rw [heq] at hm
    rcases lt_trichotomy (m % k) (n % k) with h | h | h
    · rw [Nat.compare_eq_lt.mpr h, Nat.compare_eq_lt.mpr (by omega)]
    · rw [Nat.compare_eq_eq.mpr h, Nat.compare_eq_eq.mpr (by omega)]
    · rw [Nat.compare_eq_gt.mpr h, Nat.compare_eq_gt.mpr (by omega)]
  · have hmul : k * (n / k) + k ≤ k * (m / k) := by
      rw [← Nat.mul_succ]
      exact Nat.mul_le_mul_left k hgt
    rw [Nat.compare_eq_gt.mpr (show n < m by omega), Nat.compare_eq_gt.mpr hgt]
    rfl

/-- Digits compare as the bytes that hold them, since a byte holds any number below 256. -/
theorem compare_ofNat {m n : ℕ} (hm : m < 256) (hn : n < 256) :
    compare (UInt8.ofNat m) (UInt8.ofNat n) = compare m n := by
  have hm' : (UInt8.ofNat m).toNat = m := by simpa using hm
  have hn' : (UInt8.ofNat n).toNat = n := by simpa using hn
  change compareOfLessAndEq _ _ = compareOfLessAndEq _ _
  simp only [compareOfLessAndEq, UInt8.lt_iff_toNat_lt, ← UInt8.toNat_inj, hm', hn']

/-- Big-endian fields of one width compare as the numbers they hold. -/
theorem Ranks.beBytes {width m n : ℕ} (hm : m < 256 ^ width) (hn : n < 256 ^ width) :
    Ranks (beBytes width m) (beBytes width n) (compare m n) := by
  induction width generalizing m n with
  | zero =>
    obtain ⟨rfl, rfl⟩ : m = 0 ∧ n = 0 := by simpa using And.intro hm hn
    exact Ranks.nil
  | succ width ih =>
    have hdiv {k : ℕ} (hk : k < 256 ^ (width + 1)) : k / 256 < 256 ^ width :=
      Nat.div_lt_of_lt_mul (by rwa [pow_succ'] at hk)
    rw [compare_eq_div_then_mod m n 256 (by decide),
      ← compare_ofNat (Nat.mod_lt m (by decide)) (Nat.mod_lt n (by decide))]
    exact (ih (hdiv hm) (hdiv hn)).append (Ranks.symbol _ _)

end Codec
