import Skaidb.Codec.Numeral
import Skaidb.Types.Value

/-!
# Decimals as text

A decimal is written in one of four ways: without a fraction, with all digits behind the
point, with the point among its digits, or with a power of ten when its scale is too large
to write out. All of them are numerals whose coefficient and exponent are the mantissa and the
scale.
-/

namespace Skaidb

open Codec

/-- How an integer is printed: a minus sign when it is negative, then the digits of its
magnitude. -/
def intText (n : ℤ) : List Char := signText (n < 0) ++ Nat.toDigits 10 n.natAbs

namespace Decimal

/-- `MAX_PLAIN_SCALE`: the largest scale that is written with all its places, above which an
exponent is. -/
def maxPlainScale : ℕ := 1000

/-- The characters of a decimal's text form, positional for scales up to the limit and with an
exponent above. -/
def displayText (d : Decimal) : List Char :=
  if d.scale = 0 then intText d.mantissa
  else
    let sign := signText (d.mantissa < 0)
    let digits := Nat.toDigits 10 d.mantissa.natAbs
    if d.scale.toNat > maxPlainScale then
      sign ++ (digits ++ 'E' :: '-' :: Nat.toDigits 10 d.scale.toNat)
    else
      let scale := d.scale.toNat
      if digits.length ≤ scale then
        -- The zeros up to the first significant digit are written one by one.
        sign ++ ('0' :: '.' :: (List.replicate (scale - digits.length) '0' ++ digits))
      else
        let split := digits.length - scale
        sign ++ (digits.take split ++ '.' :: digits.drop split)

/-- `Display for Decimal`: the text form that `displayText` gives, as a string. -/
def display (d : Decimal) : String := String.ofList d.displayText

/-! ## The numeral of the text -/

/-- A number is its magnitude with its sign, which is how the renderers take it apart. -/
theorem signed_natAbs (n : ℤ) : signed (n < 0) n.natAbs = n := by
  unfold signed
  split
  · next hneg =>
    have hlt : n < 0 := by simpa using hneg
    omega
  · next hpos =>
    have hle : ¬ n < 0 := by simpa using hpos
    omega

/-- The printed digits of the magnitude, read back under the sign, are the integer. -/
theorem digitsValue_natAbs (n : ℤ) :
    signed (n < 0) (digitsValue (Nat.toDigits 10 n.natAbs)) = n := by
  rw [digitsValue_toDigits, signed_natAbs]

/-- The text is the numeral of the mantissa and the scale. -/
theorem read_displayText (d : Decimal) :
    Numeral.read d.displayText = some ⟨d.mantissa, -(d.scale.toNat : ℤ)⟩ := by
  have hdigits := isDigits_toDigits d.mantissa.natAbs
  have hne : Nat.toDigits 10 d.mantissa.natAbs ≠ [] := Nat.toDigits_ne_nil
  unfold displayText
  split
  · next hzero =>
    have hread := Numeral.read_integer (decide (d.mantissa < 0)) hdigits hne
    rw [digitsValue_natAbs] at hread
    rw [hzero, intText, hread]
    rfl
  · dsimp only
    split
    · have hread := Numeral.read_power (decide (d.mantissa < 0)) hdigits hne
        (isDigits_toDigits d.scale.toNat) Nat.toDigits_ne_nil
      rwa [digitsValue_natAbs, digitsValue_toDigits] at hread
    · split
      · next hle =>
        have hread := Numeral.read_padded (decide (d.mantissa < 0)) hdigits
          (d.scale.toNat - (Nat.toDigits 10 d.mantissa.natAbs).length)
        rwa [digitsValue_natAbs, Nat.sub_add_cancel hle] at hread
      · next hlt =>
        have hread := Numeral.read_split (decide (d.mantissa < 0)) hdigits (Nat.not_le.mp hlt)
        rwa [digitsValue_natAbs] at hread

/-- The numeral of a decimal stands for its number. -/
theorem toRat_numeral (d : Decimal) :
    Numeral.toRat ⟨d.mantissa, -(d.scale.toNat : ℤ)⟩ = d.toRat := by
  unfold Numeral.toRat toRat
  rw [zpow_neg, zpow_natCast, div_eq_mul_inv]

/-- **The text form.** The text of every decimal is a numeral of exactly its number, and
decimals with different mantissas or scales have different texts. -/
theorem display_exact :
    (∀ d : Decimal, (Numeral.read d.display.toList).map Numeral.toRat = some d.toRat) ∧
      Function.Injective Decimal.display := by
  constructor
  · intro d
    rw [display, String.toList_ofList, read_displayText, Option.map_some, toRat_numeral]
  · intro a b h
    have hread := read_displayText a
    have htext : a.displayText = b.displayText := by
      have hlist := congrArg String.toList h
      rwa [display, display, String.toList_ofList, String.toList_ofList] at hlist
    rw [htext, read_displayText b] at hread
    have hparts := Option.some.inj hread
    simp only [Numeral.mk.injEq, neg_inj, Nat.cast_inj] at hparts
    obtain ⟨mantissa, scale, lower, upper⟩ := a
    obtain ⟨mantissa', scale', lower', upper'⟩ := b
    obtain ⟨rfl, hscale⟩ := hparts
    obtain rfl := UInt32.toNat_inj.mp hscale
    rfl

end Decimal

end Skaidb
