import Skaidb.Types.DecimalOrder
import Skaidb.Types.DecimalText

/-!
# Decimals as text in the C interface

The C interface writes and reads decimals with functions of its own. Its writer is always
positional, so it agrees with the text form of the value model only up to the scale where
that one switches to a power of ten. Its reader builds the magnitude of the mantissa in
128-bit arithmetic and negates it at the end, so the least mantissa, whose magnitude does not
fit, is never read.
-/

namespace Skaidb.Ffi

open Codec

/-! ## The functions -/

/-- The characters that `decimal_text` writes for a decimal, always positional. -/
def decimalChars (d : Decimal) : List Char :=
  let neg := d.mantissa < 0
  let digits := Nat.toDigits 10 d.mantissa.natAbs
  let scale := d.scale.toNat
  let body :=
    if scale = 0 then digits
    else if digits.length > scale then
      digits.take (digits.length - scale) ++ '.' :: digits.drop (digits.length - scale)
    else '0' :: '.' :: (List.replicate (scale - digits.length) '0' ++ digits)
  signText neg ++ body

/-- The text that the interface gives for a decimal. -/
def decimalText (d : Decimal) : String := String.ofList (decimalChars d)

/-- Add digits to a mantissa, in 128-bit arithmetic. -/
def accumulate : List Char → ℤ → Option ℤ
  | [], mantissa => some mantissa
  | c :: digits, mantissa =>
    (I128.checkedMul mantissa 10).bind fun scaled =>
      (I128.checkedAdd scaled (c.toNat - '0'.toNat : ℕ)).bind (accumulate digits)

/-- A length as a scale, if it fits. -/
def scaleOf (length : ℕ) : Option UInt32 :=
  if length < 2 ^ 32 then some (UInt32.ofNat length) else none

/-- Digits that are read after a number make it no smaller, so a mantissa that fits in the end has
fitted all along. -/
theorem le_ofDigitChars (digits : List Char) (n : ℕ) : n ≤ Nat.ofDigitChars 10 digits n := by
  have hpos : 0 < 10 ^ digits.length := Nat.pow_pos (by decide)
  have hle : n ≤ 10 ^ digits.length * n := Nat.le_mul_of_pos_left n hpos
  rw [Nat.ofDigitChars_eq_ofDigitChars_zero]
  omega

/-- Reading one more digit succeeds exactly when the mantissa still fits 128 bits with it. -/
theorem accumulate_cons (c : Char) (digits : List Char) (n : ℕ) :
    accumulate (c :: digits) n =
      if 10 * n + (c.toNat - '0'.toNat) < 2 ^ 127 then
        accumulate digits (10 * n + (c.toNat - '0'.toNat) : ℕ)
      else none := by
  have hmul : I128.checkedMul n 10 = if n * 10 < 2 ^ 127 then some ((n * 10 : ℕ) : ℤ) else none :=
    I128.check_natCast (n * 10)
  have hadd : I128.checkedAdd (n * 10 : ℕ) (c.toNat - '0'.toNat : ℕ) =
      if n * 10 + (c.toNat - '0'.toNat) < 2 ^ 127 then
        some ((n * 10 + (c.toNat - '0'.toNat) : ℕ) : ℤ) else none :=
    I128.check_natCast (n * 10 + (c.toNat - '0'.toNat))
  rw [accumulate, hmul, Nat.mul_comm 10 n]
  by_cases hscaled : n * 10 < 2 ^ 127
  · rw [if_pos hscaled, Option.bind_some, hadd]
    split <;> rfl
  · have hsum : ¬ n * 10 + (c.toNat - '0'.toNat) < 2 ^ 127 := by omega
    rw [if_neg hscaled, if_neg hsum, Option.bind_none]

/-- Digits added to a mantissa are those of a number, while it fits. -/
theorem accumulate_eq (digits : List Char) {n : ℕ} (hn : n < 2 ^ 127) :
    accumulate digits n =
      if Nat.ofDigitChars 10 digits n < 2 ^ 127 then some (Nat.ofDigitChars 10 digits n : ℤ)
      else none := by
  induction digits generalizing n with
  | nil => rw [Nat.ofDigitChars_nil, if_pos hn, accumulate]
  | cons c digits ih =>
    rw [accumulate_cons, Nat.ofDigitChars_cons]
    split
    · next hfits => exact ih hfits
    · next hfits =>
      have hle := le_ofDigitChars digits (10 * n + (c.toNat - '0'.toNat))
      rw [if_neg (by omega)]

/-- Adding up the digits of a text gives its value exactly when that fits 128 bits. -/
theorem accumulate_zero (digits : List Char) :
    accumulate digits 0 =
      if digitsValue digits < 2 ^ 127 then some (digitsValue digits : ℤ) else none :=
  accumulate_eq digits (n := 0) (by norm_num)

/-- What has been added up can be negated in 128-bit arithmetic, so the sign of a decimal never
overflows. -/
theorem accumulate_bounds {digits : List Char} {mantissa : ℤ}
    (h : accumulate digits 0 = some mantissa) (neg : Bool) :
    -2 ^ 127 ≤ (if neg then -mantissa else mantissa) ∧
      (if neg then -mantissa else mantissa) < 2 ^ 127 := by
  rw [accumulate_zero] at h
  split at h
  · next hfits =>
    have hmantissa : (digitsValue digits : ℤ) = mantissa := Option.some.inj h
    cases neg with
    | true =>
      rw [if_pos rfl]
      omega
    | false =>
      rw [if_neg Bool.false_ne_true]
      omega
  · cases h

/-- The decimal of a sign and the digits before and after the point, if there is one. -/
def decimalOfParts (neg : Bool) (intPart fracPart : List Char) : Option Decimal :=
  if intPart = [] ∧ fracPart = [] then none
  else if ¬ intPart.all Char.isDigit ∨ ¬ fracPart.all Char.isDigit then none
  else
    (accumulate (intPart ++ fracPart) 0).pbind fun mantissa h =>
      (scaleOf fracPart.length).map fun scale =>
        ⟨if neg then -mantissa else mantissa, scale, (accumulate_bounds h neg).1,
          (accumulate_bounds h neg).2⟩

/-- Read a decimal from a text; there is none when the text is no numeral or the number does not
fit. -/
def parseDecimal (text : String) : Option Decimal :=
  let (neg, digits) := splitSign (trim text.toList)
  let (intPart, fracPart) := (splitOnce '.' digits).getD (digits, [])
  decimalOfParts neg intPart fracPart

/-! ## What is read -/

/-- The text is an optional sign and digits with at most one point, at least one of them; the
sign and the digits before and after the point. -/
structure Spells (text : List Char) (neg : Bool) (int frac : List Char) : Prop where
  /-- Digits stand before the point. -/
  int_digits : IsDigits int
  /-- Digits stand after the point. -/
  frac_digits : IsDigits frac
  /-- There is a digit. -/
  some_digit : int ++ frac ≠ []
  /-- The sign is left out or is written, and so is the point when no digit follows it. -/
  text_eq : ∃ sign ∈ signs neg,
    text = sign ++ (int ++ '.' :: frac) ∨ text = sign ++ int ∧ frac = []

/-- The number of digits behind the point is the scale exactly when it fits 32 bits. -/
theorem scaleOf_eq_some_iff {length : ℕ} {scale : UInt32} :
    scaleOf length = some scale ↔ length < 2 ^ 32 ∧ scale.toNat = length := by
  unfold scaleOf
  split
  · next hfits =>
    have hnat : (UInt32.ofNat length).toNat = length := UInt32.toNat_ofNat_of_lt' hfits
    rw [Option.some.injEq, ← UInt32.toNat_inj, hnat, eq_comm]
    exact (and_iff_right hfits).symm
  · next hlarge =>
    have hnot : ¬ (length < 2 ^ 32 ∧ scale.toNat = length) := fun h => hlarge h.1
    simp only [hnot, reduceCtorEq]

/-- The decimal of the parts has the number of the digits and the length of the fraction. -/
theorem decimalOfParts_eq_some_iff {neg : Bool} {int frac : List Char} {d : Decimal} :
    decimalOfParts neg int frac = some d ↔
      (int ++ frac ≠ [] ∧ IsDigits int ∧ IsDigits frac) ∧
        digitsValue (int ++ frac) < 2 ^ 127 ∧ frac.length < 2 ^ 32 ∧
        d.mantissa = signed neg (digitsValue (int ++ frac)) ∧ d.scale.toNat = frac.length := by
  unfold decimalOfParts
  have hempty : (int = [] ∧ frac = []) ↔ ¬ int ++ frac ≠ [] := by simp
  have hdigits : (¬ int.all Char.isDigit ∨ ¬ frac.all Char.isDigit) ↔
      ¬ (IsDigits int ∧ IsDigits frac) := by
    rw [List.all_eq_true, List.all_eq_true, not_and_or]
    rfl
  split
  · next h => simp only [hempty.mp h, false_and, reduceCtorEq]
  · split
    · next h => simp only [hdigits.mp h, and_false, false_and, reduceCtorEq]
    · next hne hall =>
      have hsome : int ++ frac ≠ [] := by tauto
      have hboth : IsDigits int ∧ IsDigits frac := by tauto
      have hsigned (m : ℕ) : (if neg then -(m : ℤ) else m) = signed neg m := rfl
      simp only [Option.pbind_eq_some_iff, Option.map_eq_some_iff, scaleOf_eq_some_iff,
        accumulate_zero]
      constructor
      · rintro ⟨mantissa, hm, scale, ⟨hlength, hscale⟩, rfl⟩
        split at hm
        · next hfits =>
          obtain rfl := Option.some.inj hm
          exact ⟨⟨hsome, hboth⟩, hfits, hlength, hsigned _, hscale⟩
        · cases hm
      · rintro ⟨-, hfits, hlength, hmantissa, hscale⟩
        obtain ⟨mantissa, scale, lower, upper⟩ := d
        obtain rfl : mantissa = signed neg (digitsValue (int ++ frac)) := hmantissa
        exact ⟨digitsValue (int ++ frac), if_pos hfits, scale, ⟨hlength, hscale⟩, rfl⟩

/-- Digits with a point begin with no sign, so taking a sign off the text takes the one that was put
before them. -/
theorem splitSign_point {neg : Bool} {sign int : List Char} (hsign : sign ∈ signs neg)
    (hint : IsDigits int) (frac : List Char) :
    splitSign (sign ++ (int ++ '.' :: frac)) = (neg, int ++ '.' :: frac) := by
  cases int with
  | nil => exact splitSign_append hsign (by decide) (by decide) frac
  | cons c int =>
    obtain ⟨hminus, hplus⟩ := ne_sign_of_isDigit (hint c List.mem_cons_self)
    exact splitSign_append hsign hminus hplus (int ++ '.' :: frac)

/-- A text is cut into the parts it spells. -/
theorem Spells.parts {text : List Char} {neg : Bool} {int frac : List Char}
    (h : Spells text neg int frac) :
    (splitSign text).1 = neg ∧
      (splitOnce '.' (splitSign text).2).getD ((splitSign text).2, []) = (int, frac) := by
  have hfree : '.' ∉ int := h.int_digits.notMem (by decide)
  obtain ⟨sign, hsign, rfl | ⟨rfl, rfl⟩⟩ := h.text_eq
  · rw [splitSign_point hsign h.int_digits, splitOnce_append hfree]
    exact ⟨rfl, rfl⟩
  · have hne : int ≠ [] := by simpa using h.some_digit
    have hnone : splitOnce '.' int = none := splitOnce_eq_none_iff.mpr hfree
    obtain ⟨c, rest, hcons, hc⟩ := h.int_digits.exists_cons hne
    have hsplit : splitSign (sign ++ int) = (neg, int) := by
      rw [hcons]
      exact splitSign_append hsign (ne_sign_of_isDigit hc).1 (ne_sign_of_isDigit hc).2 rest
    rw [hsplit, hnone]
    exact ⟨rfl, rfl⟩

/-- The parts a text is cut into are spelt by it, if they are digits. -/
theorem spells_parts {text int frac : List Char}
    (hparts : (splitOnce '.' (splitSign text).2).getD ((splitSign text).2, []) = (int, frac))
    (hsome : int ++ frac ≠ []) (hint : IsDigits int) (hfrac : IsDigits frac) :
    Spells text (splitSign text).1 int frac := by
  obtain ⟨sign, hsign, htext⟩ := exists_sign text
  refine ⟨hint, hfrac, hsome, sign, hsign, ?_⟩
  cases hcut : splitOnce '.' (splitSign text).2 with
  | none =>
    rw [hcut, Option.getD_none, Prod.mk.injEq] at hparts
    right
    rw [← hparts.1]
    exact ⟨htext, hparts.2.symm⟩
  | some cut =>
    rw [hcut, Option.getD_some] at hparts
    subst hparts
    left
    rw [← (splitOnce_eq_some_iff.mp hcut).1]
    exact htext

/-- A decimal is read from a text exactly when the text spells it and its mantissa and its scale fit
their fields. -/
theorem parseDecimal_eq_some_iff {text : String} {d : Decimal} :
    parseDecimal text = some d ↔ ∃ neg int frac, Spells (trim text.toList) neg int frac ∧
      digitsValue (int ++ frac) < 2 ^ 127 ∧ frac.length < 2 ^ 32 ∧
      d.mantissa = signed neg (digitsValue (int ++ frac)) ∧ d.scale.toNat = frac.length := by
  unfold parseDecimal
  dsimp only
  rw [decimalOfParts_eq_some_iff]
  constructor
  · rintro ⟨⟨hsome, hint, hfrac⟩, hrest⟩
    exact ⟨_, _, _, spells_parts rfl hsome hint hfrac, hrest⟩
  · rintro ⟨neg, int, frac, hspells, hrest⟩
    obtain ⟨rfl, hparts⟩ := hspells.parts
    rw [hparts]
    exact ⟨⟨hspells.some_digit, hspells.int_digits, hspells.frac_digits⟩, hrest⟩

/-! ## What is written -/

/-- The text of a decimal spells its magnitude, with its scale as the length of the fraction. -/
theorem spells_decimalChars (d : Decimal) :
    ∃ int frac, Spells (decimalChars d) (d.mantissa < 0) int frac ∧
      digitsValue (int ++ frac) = d.mantissa.natAbs ∧ frac.length = d.scale.toNat := by
  have hdigits := isDigits_toDigits d.mantissa.natAbs
  have hvalue := digitsValue_toDigits d.mantissa.natAbs
  have hne : Nat.toDigits 10 d.mantissa.natAbs ≠ [] := Nat.toDigits_ne_nil
  have hsign := signText_mem_signs (decide (d.mantissa < 0))
  unfold decimalChars
  dsimp only
  generalize Nat.toDigits 10 d.mantissa.natAbs = digits at hdigits hvalue hne ⊢
  split
  · next hzero =>
    refine ⟨digits, [], ⟨hdigits, by simp [IsDigits], by simpa using hne, _, hsign, ?_⟩, ?_, ?_⟩
    · exact .inr ⟨rfl, rfl⟩
    · rw [List.append_nil, hvalue]
    · rw [hzero, List.length_nil]
  · split
    · next hlonger =>
      have hcut := List.take_append_drop (digits.length - d.scale.toNat) digits
      have hboth : IsDigits (digits.take (digits.length - d.scale.toNat) ++
          digits.drop (digits.length - d.scale.toNat)) := by rwa [hcut]
      obtain ⟨hint, hfrac⟩ := isDigits_append.mp hboth
      refine ⟨_, _, ⟨hint, hfrac, by rwa [hcut], _, hsign, .inl rfl⟩, by rw [hcut, hvalue], ?_⟩
      rw [List.length_drop]
      omega
    · next hshorter =>
      have hfrac := isDigits_append.mpr
        ⟨isDigits_replicate_zero (d.scale.toNat - digits.length), hdigits⟩
      refine ⟨['0'], _, ⟨isDigits_replicate_zero 1, hfrac, by simp, _, hsign, .inl rfl⟩, ?_, ?_⟩
      · rw [← hvalue, ← digitsValue_replicate_zero_append (d.scale.toNat - digits.length) digits]
        exact digitsValue_replicate_zero_append 1 _
      · rw [List.length_append, List.length_replicate]
        omega

/-- What is spelt has signs, points and digits only. -/
theorem Spells.char_cases {text : List Char} {neg : Bool} {int frac : List Char}
    (h : Spells text neg int frac) {c : Char} (hc : c ∈ text) :
    c ∈ ['-', '+', '.'] ∨ c.isDigit = true := by
  have hsigns {sign : List Char} (hsign : sign ∈ signs neg) (hmem : c ∈ sign) :
      c ∈ ['-', '+', '.'] := by
    rcases mem_of_mem_signs neg sign hsign c hmem with rfl | rfl <;> decide
  obtain ⟨sign, hsign, rfl | ⟨rfl, -⟩⟩ := h.text_eq
  · rcases List.mem_append.mp hc with hmem | hmem
    · exact .inl (hsigns hsign hmem)
    · rcases List.mem_append.mp hmem with hmem | hmem
      · exact .inr (h.int_digits c hmem)
      · rcases List.mem_cons.mp hmem with rfl | hmem
        · exact .inl (by decide)
        · exact .inr (h.frac_digits c hmem)
  · rcases List.mem_append.mp hc with hmem | hmem
    · exact .inl (hsigns hsign hmem)
    · exact .inr (h.int_digits c hmem)

/-- What is spelt has no white space to trim. -/
theorem Spells.trim_eq {text : List Char} {neg : Bool} {int frac : List Char}
    (h : Spells text neg int frac) : trim text = text := by
  apply trim_of_forall
  intro c hc
  rcases h.char_cases hc with hmem | hdigit
  · rcases List.mem_cons.mp hmem with rfl | hmem
    · decide
    · rcases List.mem_pair.mp hmem with rfl | rfl <;> decide
  · exact isWhitespace_of_isDigit hdigit

/-! ## The two text forms -/

/-- Up to the largest positional scale the characters are those of the value model. -/
theorem decimalChars_of_le {d : Decimal} (h : d.scale.toNat ≤ Decimal.maxPlainScale) :
    decimalChars d = d.displayText := by
  have hplain : ¬ d.scale.toNat > Decimal.maxPlainScale := Nat.not_lt.mpr h
  unfold decimalChars Decimal.displayText
  dsimp only
  by_cases hzero : d.scale = 0
  · have hnat : d.scale.toNat = 0 := by rw [hzero, UInt32.toNat_zero]
    rw [if_pos hnat, if_pos hzero, intText]
  · have hnat : d.scale.toNat ≠ 0 := fun hnat => hzero (UInt32.toNat_inj.mp hnat)
    rw [if_neg hnat, if_neg hzero, if_neg hplain]
    by_cases hlonger : (Nat.toDigits 10 d.mantissa.natAbs).length > d.scale.toNat
    · rw [if_pos hlonger, if_neg (Nat.not_le.mpr hlonger)]
    · rw [if_neg hlonger, if_pos (Nat.not_lt.mp hlonger)]

/-- Beyond it the value model writes a power of ten, and the characters differ. -/
theorem decimalChars_ne_of_lt {d : Decimal} (h : Decimal.maxPlainScale < d.scale.toNat) :
    decimalChars d ≠ d.displayText := by
  have hzero : d.scale ≠ 0 := by
    rintro hzero
    rw [hzero] at h
    exact absurd h (by decide)
  have hpower : 'E' ∈ d.displayText := by
    rw [Decimal.displayText, if_neg hzero]
    dsimp only
    rw [if_pos h]
    simp
  obtain ⟨int, frac, hspells, -⟩ := spells_decimalChars d
  intro heq
  rw [← heq] at hpower
  rcases hspells.char_cases hpower with hmem | hdigit
  · exact absurd hmem (by decide)
  · exact absurd hdigit (by decide)

/-- The texts are the same when the characters are. -/
theorem decimalText_eq_display {d : Decimal} :
    decimalText d = d.display ↔ decimalChars d = d.displayText := by
  rw [decimalText, Decimal.display, String.ofList_inj]

/-- **The renderers.** The C interface writes a decimal as the value model does exactly when its
scale is at most a thousand. -/
theorem decimal_renderers_agree_iff (d : Decimal) :
    decimalText d = d.display ↔ d.scale.toNat ≤ 1000 := by
  rw [decimalText_eq_display]
  constructor
  · intro heq
    by_contra hlarge
    exact decimalChars_ne_of_lt (Nat.not_le.mp hlarge) heq
  · exact decimalChars_of_le

/-- At the least scale that is written with a power of ten the renderers differ. -/
theorem decimal_renderers_differ :
    ∃ d : Decimal, d.mantissa = 1 ∧ d.scale = 1001 ∧ decimalText d ≠ d.display := by
  refine ⟨⟨1, 1001, by norm_num, by norm_num⟩, rfl, rfl, ?_⟩
  intro heq
  exact decimalChars_ne_of_lt (by decide) (decimalText_eq_display.mp heq)

/-! ## Reading back -/

/-- The trimmed text spells the decimal: its digits are those of the mantissa, and as many of
them as the scale says stand after the point. -/
def Denotes (text : String) (d : Decimal) : Prop :=
  ∃ neg int frac, Spells (trim text.toList) neg int frac ∧
    d.mantissa = signed neg (digitsValue (int ++ frac)) ∧ d.scale.toNat = frac.length

/-- A decimal is read from a text that spells it, unless it is the least one of its scale. -/
theorem parseDecimal_eq_some_iff_denotes {text : String} {d : Decimal} :
    parseDecimal text = some d ↔ Denotes text d ∧ d.mantissa ≠ -2 ^ 127 := by
  have hlower := d.lower
  have hupper := d.upper
  have hscale : d.scale.toNat < 2 ^ 32 := d.scale.toNat_lt
  -- The digits are added up as a positive number, which the least mantissa is too long for.
  have hbelow {neg : Bool} {n : ℕ} (hmantissa : d.mantissa = signed neg n) :
      n < 2 ^ 127 ↔ d.mantissa ≠ -2 ^ 127 := by
    unfold signed at hmantissa
    cases neg with
    | true =>
      simp only [if_true] at hmantissa
      omega
    | false =>
      simp only [Bool.false_eq_true, if_false] at hmantissa
      omega
  rw [parseDecimal_eq_some_iff]
  constructor
  · rintro ⟨neg, int, frac, hspells, hvalue, -, hmantissa, hlength⟩
    exact ⟨⟨neg, int, frac, hspells, hmantissa, hlength⟩, (hbelow hmantissa).mp hvalue⟩
  · rintro ⟨⟨neg, int, frac, hspells, hmantissa, hlength⟩, hne⟩
    have hfits : frac.length < 2 ^ 32 := by omega
    exact ⟨neg, int, frac, hspells, (hbelow hmantissa).mpr hne, hfits, hmantissa, hlength⟩

/-- The text that is written for a decimal denotes its mantissa and its scale. -/
theorem denotes_decimalText (d : Decimal) : Denotes (decimalText d) d := by
  obtain ⟨int, frac, hspells, hvalue, hlength⟩ := spells_decimalChars d
  refine ⟨d.mantissa < 0, int, frac, ?_, ?_, hlength.symm⟩
  · rw [decimalText, String.toList_ofList, hspells.trim_eq]
    exact hspells
  · rw [hvalue, Decimal.signed_natAbs]

/-- The text of a decimal is read back unless the decimal is the least one of its scale. -/
theorem parseDecimal_decimalText (d : Decimal) :
    parseDecimal (decimalText d) = some d ↔ d.mantissa ≠ -2 ^ 127 := by
  rw [parseDecimal_eq_some_iff_denotes]
  exact and_iff_right (denotes_decimalText d)

/-- **Reading back.** The text of a decimal is read back exactly when the mantissa is not the
least number of 128 bits, and a text is read as the decimal it spells, and as no other, exactly
when it does not spell that mantissa. -/
theorem decimal_text_reads_back_iff (d : Decimal) (text : String) :
    (parseDecimal (decimalText d) = some d ↔ d.mantissa ≠ -2 ^ 127) ∧
      ((∀ d, parseDecimal text = some d ↔ Denotes text d) ↔
        ∀ d, Denotes text d → d.mantissa ≠ -2 ^ 127) := by
  refine ⟨parseDecimal_decimalText d, ?_⟩
  constructor
  · intro h d hdenotes
    exact (parseDecimal_eq_some_iff_denotes.mp ((h d).mpr hdenotes)).2
  · intro h d
    rw [parseDecimal_eq_some_iff_denotes]
    exact and_iff_left_of_imp (h d)

/-- The least decimal of scale zero is not read back. -/
theorem least_decimal_not_read_back : ∃ d : Decimal, d.mantissa = -2 ^ 127 ∧ d.scale = 0 ∧
    parseDecimal (decimalText d) ≠ some d := by
  refine ⟨⟨-2 ^ 127, 0, le_rfl, by norm_num⟩, rfl, rfl, ?_⟩
  intro h
  exact (parseDecimal_decimalText _).mp h rfl

end Skaidb.Ffi
