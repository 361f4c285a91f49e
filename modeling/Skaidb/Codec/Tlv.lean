import Skaidb.Codec.Endian

/-!
# Tagged elements with a length

An element is a tag, the length of its contents and the contents. A short length is one
byte; a long one is a byte that says how many bytes of length follow, most significant byte
first, and may have leading zeros.
-/

namespace Codec

/-- The forms in which the length of an element may be written: in the one byte itself, or in the
bytes behind it. -/
inductive LengthForm where
  /-- As one byte. -/
  | short
  /-- As a number of bytes behind the byte that tells the number. -/
  | long (width : ℕ)

namespace LengthForm

/-- The length can be written in the form. -/
def Fits : LengthForm → ℕ → Prop
  | short, len => len < 128
  | long width, len => 1 ≤ width ∧ width ≤ 4 ∧ len < 256 ^ width

instance : (form : LengthForm) → (len : ℕ) → Decidable (form.Fits len)
  | short, len => inferInstanceAs (Decidable (len < 128))
  | long width, len => inferInstanceAs (Decidable (1 ≤ width ∧ width ≤ 4 ∧ len < 256 ^ width))

/-- The bytes in which a form writes a length. -/
def bytes : LengthForm → ℕ → List UInt8
  | short, len => [UInt8.ofNat len]
  | long width, len => UInt8.ofNat (128 + width) :: beBytes width len

end LengthForm

/-- An element of a tag, a length and a content, whose length can be written. -/
structure Element where
  /-- The tag. -/
  tag : UInt8
  /-- How the length is written. -/
  form : LengthForm
  /-- The contents. -/
  content : List UInt8
  /-- The length can be written so. -/
  fits : form.Fits content.length

/-- The bytes of an element: its tag, its length in the form it has, and its contents. -/
def Element.bytes (e : Element) : List UInt8 :=
  e.tag :: (e.form.bytes e.content.length ++ e.content)

/-! ## Bytes that are put together -/

/-- A byte behind a number that is moved up by eight bits. -/
theorem shift_or_byte (n : ℕ) (b : UInt8) : n * 2 ^ 8 ||| b.toNat = 256 * n + b.toNat := by
  rw [← Nat.shiftLeft_eq, ← Nat.shiftLeft_add_eq_or_of_lt b.toNat_lt, Nat.shiftLeft_eq]
  omega

/-- The first byte of a short length has its highest bit clear and is the length. -/
theorem short_first {len : ℕ} (h : len < 128) :
    UInt8.ofNat len &&& 0x80 = 0 ∧ (UInt8.ofNat len).toNat = len := by
  have hall : ∀ n < 128, UInt8.ofNat n &&& 0x80 = 0 ∧ (UInt8.ofNat n).toNat = n := by decide +kernel
  exact hall len h

/-- The first byte of a long length has its highest bit set and tells the width. -/
theorem long_first {width : ℕ} (h : width ≤ 4) :
    UInt8.ofNat (128 + width) &&& 0x80 ≠ 0 ∧
      (UInt8.ofNat (128 + width) &&& 0x7F).toNat = width := by
  have hall : ∀ n ≤ 4, UInt8.ofNat (128 + n) &&& 0x80 ≠ 0 ∧
      (UInt8.ofNat (128 + n) &&& 0x7F).toNat = n := by decide
  exact hall width h

end Codec
