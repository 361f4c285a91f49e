import Mathlib.Algebra.Order.Field.Rat
import Mathlib.Data.List.DropRight
import Mathlib.Data.Rat.Cast.Defs
import Skaidb.Codec.Text

/-!
# Decimal numerals

A numeral is a sign, digits with an optional fraction, and an optional power of ten. It
stands for a coefficient, which is the number its digits spell, and an exponent, which is the
power less the number of digits after the point.
-/

namespace Codec

/-! ## Cutting a text -/

/-- Cut a text at the first place of a character. -/
def splitOnce (sep : Char) : List Char → Option (List Char × List Char)
  | [] => none
  | c :: text =>
    if c = sep then some ([], text)
    else (splitOnce sep text).map fun parts => (c :: parts.1, parts.2)

/-- The cut is at the first place of the character. -/
theorem splitOnce_eq_some_iff {sep : Char} {text front back : List Char} :
    splitOnce sep text = some (front, back) ↔ text = front ++ sep :: back ∧ sep ∉ front := by
  induction text generalizing front with
  | nil => simp [splitOnce]
  | cons c text ih =>
    by_cases hc : c = sep
    · subst hc
      cases front with
      | nil => simp [splitOnce]
      | cons d front => simp +contextual [splitOnce]
    · cases front with
      | nil => simp [splitOnce, hc]
      | cons d front =>
        simp only [splitOnce, if_neg hc, Option.map_eq_some_iff, Prod.mk.injEq, List.cons.injEq,
          Prod.exists, List.cons_append, List.mem_cons, not_or]
        constructor
        · rintro ⟨a, b, hab, ⟨rfl, rfl⟩, rfl⟩
          obtain ⟨rfl, hfree⟩ := ih.mp hab
          exact ⟨⟨rfl, rfl⟩, Ne.symm hc, hfree⟩
        · rintro ⟨⟨rfl, rfl⟩, -, hfree⟩
          exact ⟨front, back, ih.mpr ⟨rfl, hfree⟩, ⟨rfl, rfl⟩, rfl⟩

/-- A text is cut where the character is put. -/
theorem splitOnce_append {sep : Char} {front : List Char} (hfree : sep ∉ front)
    (back : List Char) : splitOnce sep (front ++ sep :: back) = some (front, back) :=
  splitOnce_eq_some_iff.mpr ⟨rfl, hfree⟩

/-- A text without the character is not cut. -/
theorem splitOnce_eq_none_iff {sep : Char} {text : List Char} :
    splitOnce sep text = none ↔ sep ∉ text := by
  induction text with
  | nil => simp [splitOnce]
  | cons c text ih =>
    by_cases hc : c = sep
    · simp [splitOnce, hc]
    · simp [splitOnce, hc, ih, Ne.symm hc]

/-- The characters that Unicode counts as white space, which `trim` takes off. -/
def isWhitespace (c : Char) : Bool :=
  (0x9 ≤ c.toNat && c.toNat ≤ 0xD) || c.toNat == 0x20 || c.toNat == 0x85 || c.toNat == 0xA0 ||
    c.toNat == 0x1680 || (0x2000 ≤ c.toNat && c.toNat ≤ 0x200A) || c.toNat == 0x2028 ||
    c.toNat == 0x2029 || c.toNat == 0x202F || c.toNat == 0x205F || c.toNat == 0x3000

/-- A text without the white space at its ends. -/
def trim (text : List Char) : List Char := (text.dropWhile isWhitespace).rdropWhile isWhitespace

/-- A text without white space is kept as it is. -/
theorem trim_of_forall {text : List Char} (h : ∀ c ∈ text, isWhitespace c = false) :
    trim text = text := by
  have hfront : text.dropWhile isWhitespace = text := by
    cases text with
    | nil => rfl
    | cons c text =>
      have hc := h c List.mem_cons_self
      exact List.dropWhile_cons_of_neg (by simp [hc])
  rw [trim, hfront, List.rdropWhile_eq_self_iff]
  intro hne
  rw [h _ (List.getLast_mem hne)]
  exact Bool.false_ne_true

/-! ## Digits -/

/-- Every character of the text is a decimal digit; the empty text counts. -/
def IsDigits (text : List Char) : Prop := ∀ c ∈ text, c.isDigit = true

/-- The number that a text of decimal digits spells, with the most significant digit first. -/
def digitsValue (digits : List Char) : ℕ := Nat.ofDigitChars 10 digits 0

/-- The characters that a number is printed as are decimal digits. -/
theorem isDigits_toDigits (n : ℕ) : IsDigits (Nat.toDigits 10 n) :=
  fun _ hc => Nat.isDigit_of_mem_toDigits (by decide) (by decide) hc

/-- The digits that a number is printed as have that number as their value. -/
theorem digitsValue_toDigits (n : ℕ) : digitsValue (Nat.toDigits 10 n) = n :=
  Nat.ofDigitChars_ten_toDigits

/-- What digits followed by others spell: the ones in front are shifted by the number of those
behind. -/
theorem digitsValue_append (front back : List Char) :
    digitsValue (front ++ back) = digitsValue front * 10 ^ back.length + digitsValue back := by
  unfold digitsValue
  rw [Nat.ofDigitChars_append, Nat.ofDigitChars_eq_ofDigitChars_zero, Nat.mul_comm]

/-- Zeros in front of digits do not change their value. -/
theorem digitsValue_replicate_zero_append (n : ℕ) (digits : List Char) :
    digitsValue (List.replicate n '0' ++ digits) = digitsValue digits := by
  have hzeros : digitsValue (List.replicate n '0') = 0 := by
    unfold digitsValue
    rw [Nat.ofDigitChars_replicate_zero, Nat.mul_zero]
  rw [digitsValue_append, hzeros, Nat.zero_mul, Nat.zero_add]

/-- A row of zeros, with which a numeral is filled up, consists of digits. -/
theorem isDigits_replicate_zero (n : ℕ) : IsDigits (List.replicate n '0') := by
  intro c hc
  rw [List.eq_of_mem_replicate hc]
  rfl

/-- A text that is put together consists of digits exactly when both parts do. -/
theorem isDigits_append {front back : List Char} :
    IsDigits (front ++ back) ↔ IsDigits front ∧ IsDigits back := by
  unfold IsDigits
  simp only [List.mem_append, or_imp, forall_and]

/-- A text of digits holds no character that is not a digit, such as a sign or a point. -/
theorem IsDigits.notMem {text : List Char} (h : IsDigits text) {c : Char}
    (hc : c.isDigit = false) : c ∉ text := by
  intro hmem
  rw [h c hmem] at hc
  cases hc

/-- A digit is no white space, so that trimming stops at it. -/
theorem isWhitespace_of_isDigit {c : Char} (hc : c.isDigit = true) : isWhitespace c = false := by
  have hbounds : 48 ≤ c.toNat ∧ c.toNat ≤ 57 := Char.isDigit_iff_toNat.mp hc
  obtain ⟨hlower, hupper⟩ := hbounds
  unfold isWhitespace
  simp only [Bool.or_eq_false_iff, Bool.and_eq_false_iff, decide_eq_false_iff_not,
    beq_eq_false_iff_ne]
  omega

/-! ## Numerals -/

/-- A coefficient and a power of ten, which a text such as `1.5E-3` stands for. -/
structure Numeral where
  /-- The coefficient. -/
  coefficient : ℤ
  /-- The exponent of ten. -/
  exponent : ℤ
  deriving DecidableEq

/-- The number that a numeral stands for, its coefficient times its power of ten. -/
def Numeral.toRat (n : Numeral) : ℚ := n.coefficient * 10 ^ n.exponent

/-- The integer that a magnitude stands for under a sign. -/
def signed (neg : Bool) (n : ℕ) : ℤ := if neg then -n else n

/-- The sign of a number, if it is written. -/
def signText (neg : Bool) : List Char := if neg then ['-'] else []

/-- Take a sign off a text; a text without one counts as positive. -/
def splitSign : List Char → Bool × List Char
  | '-' :: text => (true, text)
  | '+' :: text => (false, text)
  | text => (false, text)

/-- Read a text of digits as a number; an empty text is not one. -/
def readDigits (text : List Char) : Option ℕ :=
  if text ≠ [] ∧ text.all Char.isDigit then some (digitsValue text) else none

/-- Read the exponent of a numeral, which may have a sign of its own. -/
def readPower (text : List Char) : Option ℤ :=
  (readDigits (splitSign text).2).map (signed (splitSign text).1)

/-- Read a numeral: a sign, digits with an optional fraction, an optional power of ten. -/
def Numeral.read (text : List Char) : Option Numeral := do
  let (neg, body) := splitSign text
  let (plain, power) := (splitOnce 'E' body).getD (body, ['0'])
  let (int, frac) := (splitOnce '.' plain).getD (plain, [])
  let coefficient ← readDigits (int ++ frac)
  let exponent ← readPower power
  some ⟨signed neg coefficient, exponent - frac.length⟩

/-- `readDigits` returns the value of every text of digits that is not empty. -/
theorem readDigits_of_isDigits {text : List Char} (hne : text ≠ []) (h : IsDigits text) :
    readDigits text = some (digitsValue text) := if_pos ⟨hne, List.all_eq_true.mpr h⟩

/-- The ways to write a sign: a minus for negative, a plus or nothing for the others. -/
def signs (neg : Bool) : List (List Char) := if neg then [['-']] else [[], ['+']]

/-- The sign that is printed in front of a number is one of the ways to write it. -/
theorem signText_mem_signs (neg : Bool) : signText neg ∈ signs neg := by
  cases neg <;> decide

/-- A sign, however it is written, has no other characters than a minus or a plus. -/
theorem mem_of_mem_signs : ∀ neg, ∀ sign ∈ signs neg, ∀ c ∈ sign, c = '-' ∨ c = '+' := by
  intro neg sign hsign c hc
  cases neg with
  | true =>
    obtain rfl : sign = ['-'] := by simpa [signs] using hsign
    exact .inl (List.mem_singleton.mp hc)
  | false =>
    obtain rfl | rfl : sign = [] ∨ sign = ['+'] := by simpa [signs] using hsign
    · exact absurd hc List.not_mem_nil
    · exact .inr (List.mem_singleton.mp hc)

/-- A sign is taken off what does not begin with one. -/
theorem splitSign_append {neg : Bool} {sign : List Char} (hsign : sign ∈ signs neg) {c : Char}
    (hminus : c ≠ '-') (hplus : c ≠ '+') (text : List Char) :
    splitSign (sign ++ c :: text) = (neg, c :: text) := by
  cases neg with
  | true =>
    obtain rfl := List.mem_singleton.mp hsign
    rfl
  | false =>
    rcases List.mem_pair.mp hsign with rfl | rfl
    · change splitSign (c :: text) = (false, c :: text)
      unfold splitSign
      split <;> simp_all
    · rfl

/-- A text is the sign taken off it and the rest. -/
theorem exists_sign (text : List Char) :
    ∃ sign ∈ signs (splitSign text).1, text = sign ++ (splitSign text).2 := by
  unfold splitSign
  split
  · exact ⟨['-'], signText_mem_signs true, rfl⟩
  · exact ⟨['+'], by simp [signs], rfl⟩
  · exact ⟨[], signText_mem_signs false, rfl⟩

/-- A digit is neither of the signs that a numeral may begin with. -/
theorem ne_sign_of_isDigit {c : Char} (hc : c.isDigit = true) : c ≠ '-' ∧ c ≠ '+' := by
  constructor
  · rintro rfl
    exact absurd hc (by decide)
  · rintro rfl
    exact absurd hc (by decide)

/-- A sign that was printed in front of digits is taken off them again. -/
theorem splitSign_signText (neg : Bool) {c : Char} (hc : c.isDigit = true) (text : List Char) :
    splitSign (signText neg ++ c :: text) = (neg, c :: text) :=
  splitSign_append (signText_mem_signs neg) (ne_sign_of_isDigit hc).1 (ne_sign_of_isDigit hc).2
    text

section Read

variable {int frac power : List Char} (neg : Bool)

/-- A text of digits that is not empty begins with a digit, and so not with a sign. -/
theorem IsDigits.exists_cons {text : List Char} (h : IsDigits text) (hne : text ≠ []) :
    ∃ c rest, text = c :: rest ∧ c.isDigit = true := by
  obtain ⟨c, rest, rfl⟩ := List.exists_cons_of_ne_nil hne
  exact ⟨c, rest, rfl, h c List.mem_cons_self⟩

/-- What `Numeral.read` makes of a numeral without a point: its digits, scaled by nothing. -/
theorem Numeral.read_integer (hint : IsDigits int) (hne : int ≠ []) :
    Numeral.read (signText neg ++ int) = some ⟨signed neg (digitsValue int), 0⟩ := by
  obtain ⟨c, rest, rfl, hc⟩ := hint.exists_cons hne
  have hE : splitOnce 'E' (c :: rest) = none :=
    splitOnce_eq_none_iff.mpr (hint.notMem (by decide))
  have hpoint : splitOnce '.' (c :: rest) = none :=
    splitOnce_eq_none_iff.mpr (hint.notMem (by decide))
  have hzero : readPower ['0'] = some 0 := rfl
  unfold Numeral.read
  rw [splitSign_signText neg hc]
  simp [hE, hpoint, readDigits_of_isDigits hne hint, hzero]

/-- What `Numeral.read` makes of a numeral with a point: all its digits, scaled by the number of
those behind it. -/
theorem Numeral.read_fraction (hint : IsDigits int) (hne : int ≠ []) (hfrac : IsDigits frac) :
    Numeral.read (signText neg ++ (int ++ '.' :: frac)) =
      some ⟨signed neg (digitsValue (int ++ frac)), -frac.length⟩ := by
  obtain ⟨c, rest, rfl, hc⟩ := hint.exists_cons hne
  have hE : splitOnce 'E' (c :: rest ++ '.' :: frac) = none := by
    refine splitOnce_eq_none_iff.mpr fun hmem => ?_
    rcases List.mem_append.mp hmem with hmem | hmem
    · exact hint.notMem (by decide) hmem
    · rcases List.mem_cons.mp hmem with heq | hmem
      · exact absurd heq (by decide)
      · exact hfrac.notMem (by decide) hmem
  have hpoint : splitOnce '.' (c :: rest ++ '.' :: frac) = some (c :: rest, frac) :=
    splitOnce_append (hint.notMem (by decide)) frac
  have hdigits : readDigits (c :: rest ++ frac) = some (digitsValue (c :: rest ++ frac)) :=
    readDigits_of_isDigits (by simp) (isDigits_append.mpr ⟨hint, hfrac⟩)
  have hzero : readPower ['0'] = some 0 := rfl
  unfold Numeral.read
  rw [List.cons_append, splitSign_signText neg hc, ← List.cons_append]
  simp only [hE, hpoint, Option.getD_none, Option.getD_some, hdigits, hzero]
  simp

/-- Digits behind the point are read with the zeros before them, which count in the exponent. -/
theorem Numeral.read_padded (hfrac : IsDigits frac) (zeros : ℕ) :
    Numeral.read (signText neg ++ ('0' :: '.' :: (List.replicate zeros '0' ++ frac))) =
      some ⟨signed neg (digitsValue frac), -(zeros + frac.length : ℕ)⟩ := by
  have hpadded := isDigits_append.mpr ⟨isDigits_replicate_zero zeros, hfrac⟩
  have hread := Numeral.read_fraction neg (isDigits_replicate_zero 1) (by simp) hpadded
  rw [digitsValue_replicate_zero_append, digitsValue_replicate_zero_append, List.length_append,
    List.length_replicate] at hread
  exact hread

/-- What `Numeral.read` makes of digits into which a point is put: the same digits, scaled by where
it is. -/
theorem Numeral.read_split {digits : List Char} (hdigits : IsDigits digits) {scale : ℕ}
    (hscale : scale < digits.length) :
    Numeral.read (signText neg ++ (digits.take (digits.length - scale) ++
      '.' :: digits.drop (digits.length - scale))) =
        some ⟨signed neg (digitsValue digits), -scale⟩ := by
  have hboth : IsDigits (digits.take (digits.length - scale) ++
      digits.drop (digits.length - scale)) := by rwa [List.take_append_drop]
  have hne : digits.take (digits.length - scale) ≠ [] := by
    apply List.ne_nil_of_length_pos
    rw [List.length_take]
    omega
  have hlength : digits.length - (digits.length - scale) = scale := by omega
  have hread := Numeral.read_fraction neg (isDigits_append.mp hboth).1 hne
    (isDigits_append.mp hboth).2
  rwa [List.take_append_drop, List.length_drop, hlength] at hread

/-- Digits with a negative power of ten behind them are read as that numeral. -/
theorem Numeral.read_power (hint : IsDigits int) (hne : int ≠ []) (hpower : IsDigits power)
    (hne' : power ≠ []) :
    Numeral.read (signText neg ++ (int ++ 'E' :: '-' :: power)) =
      some ⟨signed neg (digitsValue int), -digitsValue power⟩ := by
  obtain ⟨c, rest, rfl, hc⟩ := hint.exists_cons hne
  have hE : splitOnce 'E' (c :: rest ++ 'E' :: '-' :: power) = some (c :: rest, '-' :: power) :=
    splitOnce_append (hint.notMem (by decide)) _
  have hpoint : splitOnce '.' (c :: rest) = none :=
    splitOnce_eq_none_iff.mpr (hint.notMem (by decide))
  have hexponent : readPower ('-' :: power) = some (-digitsValue power : ℤ) := by
    simp [readPower, splitSign, readDigits_of_isDigits hne' hpower, signed]
  unfold Numeral.read
  rw [List.cons_append, splitSign_signText neg hc, ← List.cons_append]
  simp only [hE, Option.getD_some, hpoint, Option.getD_none, List.append_nil,
    readDigits_of_isDigits hne hint, hexponent]
  simp

end Read

end Codec
