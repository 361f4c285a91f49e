import Mathlib.Data.Nat.Bitwise
import Skaidb.Codec.Endian
import Skaidb.Types.Decimal

/-!
# Keys of values

A value is stored under an order-preserving byte string, its key, and reserved in
a unique index under an exact key, which differs in what a decimal contributes.
The projection of a decimal to a double is a parameter: the keys use
nothing about it but its bit pattern.
-/

namespace Skaidb

open Codec

namespace KeyTag

/-- Key tag of a null. -/
abbrev null : UInt8 := 0x00
/-- Key tag of a boolean. -/
abbrev bool : UInt8 := 0x01
/-- Key tag of an integer. -/
abbrev int : UInt8 := 0x02
/-- Key tag of a float. -/
abbrev float : UInt8 := 0x03
/-- Key tag of a decimal. -/
abbrev decimal : UInt8 := 0x04
/-- Key tag of a string. -/
abbrev string : UInt8 := 0x05
/-- Key tag of a byte string. -/
abbrev bytes : UInt8 := 0x06
/-- Key tag of a UUID. -/
abbrev uuid : UInt8 := 0x07
/-- Key tag of a timestamp. -/
abbrev timestamp : UInt8 := 0x08
/-- Key tag of an array. -/
abbrev array : UInt8 := 0x09
/-- Key tag of a document. -/
abbrev document : UInt8 := 0x0a
/-- The terminator of nested encodings. -/
abbrev «end» : UInt8 := 0x00

end KeyTag

/-- The sign bit of a 64-bit word, which the key encodings flip to make the order unsigned. -/
abbrev signBit : UInt64 := 0x8000000000000000

/-- Flip the sign bit so that two's-complement order becomes unsigned byte order. -/
def encodeI64 (v : Int64) : List UInt8 := beBytes 8 (v.toUInt64 ^^^ signBit).toNat

/-- Set the sign bit of a positive float and invert a negative one. -/
def encodeF64 (bits : UInt64) : List UInt8 :=
  beBytes 8 (if bits &&& signBit = 0 then bits ||| signBit else ~~~bits).toNat

/-- A byte string with `0x00` escaped as `0x00 0xFF`, terminated by `0x00 0x00`. -/
def encodeBytes : List UInt8 → List UInt8
  | [] => [0x00, 0x00]
  | b :: bytes => if b = 0x00 then 0x00 :: 0xFF :: encodeBytes bytes else b :: encodeBytes bytes

/-- The type tag the key of a value starts with. -/
def keyTag : RawValue → UInt8
  | .null => KeyTag.null
  | .bool _ => KeyTag.bool
  | .int _ => KeyTag.int
  | .float _ => KeyTag.float
  | .decimal _ => KeyTag.decimal
  | .string _ => KeyTag.string
  | .bytes _ => KeyTag.bytes
  | .uuid _ => KeyTag.uuid
  | .timestamp _ => KeyTag.timestamp
  | .array _ => KeyTag.array
  | .document _ => KeyTag.document

section Encode

variable (toF64 : Decimal → UInt64)

mutual

/-- `encode_into`: the key of a value, whose bytes sort as the values do. -/
def encodeInto : RawValue → List UInt8
  | .null => [KeyTag.null]
  | .bool b => [KeyTag.bool, if b then 1 else 0]
  | .int v => KeyTag.int :: encodeI64 v
  | .timestamp v => KeyTag.timestamp :: encodeI64 v
  | .float bits => KeyTag.float :: encodeF64 bits
  | .decimal d => KeyTag.decimal :: encodeF64 (toF64 d)
  | .string s => KeyTag.string :: encodeBytes (utf8 s)
  | .bytes b => KeyTag.bytes :: encodeBytes b
  | .uuid u => KeyTag.uuid :: u.bytes
  | .array items => KeyTag.array :: (encodeItemsInto items ++ [KeyTag.end])
  | .document fields => KeyTag.document :: (encodeFieldsInto fields ++ [KeyTag.end])

/-- The elements of an array, one after another. -/
def encodeItemsInto : List RawValue → List UInt8
  | [] => []
  | v :: items => encodeInto v ++ encodeItemsInto items

/-- The fields of a document in key order. -/
def encodeFieldsInto : List (String × RawValue) → List UInt8
  | [] => []
  | (name, v) :: fields => encodeBytes (utf8 name) ++ encodeInto v ++ encodeFieldsInto fields

end

/-- `Value::encode_key`: the order-preserving key of a value. -/
def Value.encodeKey (v : Value) : List UInt8 := encodeInto toF64 v.raw

/-- The order of two values, which is the byte order of their keys. -/
def Value.totalCmp (a b : Value) : Ordering := compare (a.encodeKey toF64) (b.encodeKey toF64)

mutual

/-- The exact encoding of a value: a decimal contributes its canonical bytes. -/
def encodeExactInto : RawValue → List UInt8
  | .decimal d => KeyTag.decimal :: encodeBytes d.exactBytes
  | .array items => KeyTag.array :: (encodeExactItems items ++ [KeyTag.end])
  | .document fields => KeyTag.document :: (encodeExactFields fields ++ [KeyTag.end])
  | scalar => encodeInto toF64 scalar

/-- The elements of an array, one after another. -/
def encodeExactItems : List RawValue → List UInt8
  | [] => []
  | v :: items => encodeExactInto v ++ encodeExactItems items

/-- The fields of a document in key order. -/
def encodeExactFields : List (String × RawValue) → List UInt8
  | [] => []
  | (name, v) :: fields => encodeBytes (utf8 name) ++ encodeExactInto v ++ encodeExactFields fields

end

/-- `Value::encode_exact_key`: the key for exact equality, in which decimals are written in full. -/
def Value.encodeExactKey (v : Value) : List UInt8 := encodeExactInto toF64 v.raw

/-- The exact keys of the components of a tuple, one after another. -/
def encodeExactTuple (vs : List Value) : List UInt8 := vs.flatMap (·.encodeExactKey toF64)

/-- The key of an array has the keys of its elements one after another. -/
theorem encodeItemsInto_eq_flatMap (items : List RawValue) :
    encodeItemsInto toF64 items = items.flatMap (encodeInto toF64) := by
  induction items with
  | nil => rw [encodeItemsInto, List.flatMap_nil]
  | cons v items ih => rw [encodeItemsInto, ih, List.flatMap_cons]

/-- The key of a document has the names and keys of its fields one after another. -/
theorem encodeFieldsInto_eq_flatMap (fields : List (String × RawValue)) :
    encodeFieldsInto toF64 fields =
      fields.flatMap fun f => encodeBytes (utf8 f.1) ++ encodeInto toF64 f.2 := by
  induction fields with
  | nil => rw [encodeFieldsInto, List.flatMap_nil]
  | cons f fields ih => rw [encodeFieldsInto, ih, List.flatMap_cons]

/-- A key starts with the type tag of its value, so keys of different types are told apart by their
first byte. -/
theorem encodeInto_eq_cons (v : RawValue) :
    ∃ body, encodeInto toF64 v = keyTag v :: body := by
  cases v <;> exact ⟨_, by rw [encodeInto, keyTag]⟩

/-- An exact key starts with the value's type tag. -/
theorem encodeExactInto_eq_cons (v : RawValue) :
    ∃ body, encodeExactInto toF64 v = keyTag v :: body := by
  cases v <;> exact ⟨_, by simp only [encodeExactInto, encodeInto, keyTag]; rfl⟩

end Encode

/-- A byte inside a nested encoding, where a zero byte is written with an `FF` after it. -/
def escape (b : UInt8) : List UInt8 := if b = 0x00 then [0x00, 0xFF] else [b]

/-- A byte string is encoded byte by byte and terminated. -/
theorem encodeBytes_eq_flatMap (bytes : List UInt8) :
    encodeBytes bytes = bytes.flatMap escape ++ [0x00, 0x00] := by
  induction bytes with
  | nil => rfl
  | cons b bytes ih =>
    rw [encodeBytes, ih, List.flatMap_cons, escape]
    split <;> rfl

/-! ## What the transforms do to the numbers -/

/-- Setting a clear top bit by exclusive or adds its weight. -/
theorem xor_two_pow_of_lt {n i : ℕ} (hn : n < 2 ^ i) : n ^^^ 2 ^ i = n + 2 ^ i := by
  rw [← Nat.or_two_pow_eq_add_of_lt hn]
  apply Nat.eq_of_testBit_eq
  intro j
  by_cases hj : i = j
  · subst hj
    simp [Nat.testBit_lt_two_pow hn]
  · simp [hj]

/-- Clearing a set top bit by exclusive or subtracts its weight. -/
theorem xor_two_pow_of_le {n i : ℕ} (hle : 2 ^ i ≤ n) (hlt : n < 2 ^ (i + 1)) :
    n ^^^ 2 ^ i = n - 2 ^ i := by
  have hsmall : n - 2 ^ i < 2 ^ i := by rw [pow_succ] at hlt; omega
  have hn : n = (n - 2 ^ i) ^^^ 2 ^ i := by rw [xor_two_pow_of_lt hsmall]; omega
  conv_lhs => rw [hn]
  simp

/-- The number written for a 64-bit integer is the integer moved to start at zero. -/
theorem toNat_xor_signBit (v : Int64) :
    ((v.toUInt64 ^^^ signBit).toNat : ℤ) = v.toInt + 2 ^ 63 := by
  have hint : v.toInt = v.toUInt64.toBitVec.toInt := rfl
  have hxor : (v.toUInt64 ^^^ signBit).toNat = v.toUInt64.toNat ^^^ 2 ^ 63 := UInt64.toNat_xor _ _
  have hlt := v.toUInt64.toNat_lt
  rw [hint, BitVec.toInt_eq_toNat_cond, UInt64.toNat_toBitVec, hxor]
  rcases lt_or_ge v.toUInt64.toNat (2 ^ 63) with hpos | hneg
  · rw [xor_two_pow_of_lt hpos, if_pos (by omega)]
    push_cast
    ring
  · rw [xor_two_pow_of_le hneg hlt, if_neg (by omega)]
    omega

/-- The sign bit is clear in the lower half of the words. -/
theorem and_signBit_eq_zero_iff (x : UInt64) : x &&& signBit = 0 ↔ x.toNat < 2 ^ 63 := by
  have hlt := x.toNat_lt
  have htop : (x &&& signBit).toNat = (x.toNat.testBit 63).toNat * 2 ^ 63 :=
    (UInt64.toNat_and _ _).trans (Nat.and_two_pow _ 63)
  rw [← UInt64.toNat_inj, htop, Nat.testBit_eq_decide_div_mod_eq]
  by_cases h : x.toNat / 2 ^ 63 % 2 = 1
  · simp only [h, decide_true, Bool.toNat_true, UInt64.toNat_zero]
    omega
  · simp only [h, decide_false, Bool.toNat_false, UInt64.toNat_zero]
    omega

/-- A float's place in the sign-magnitude order of its 64 bits. -/
def signMagnitude (bits : UInt64) : ℤ :=
  if bits.toNat < 2 ^ 63 then bits.toNat else 2 ^ 63 - 1 - bits.toNat

/-- The number written for a float is its place in the order moved to start at zero. -/
theorem toNat_ordered_bits (bits : UInt64) :
    ((if bits &&& signBit = 0 then bits ||| signBit else ~~~bits).toNat : ℤ) =
      signMagnitude bits + 2 ^ 63 := by
  have hlt := bits.toNat_lt
  have hand := and_signBit_eq_zero_iff bits
  unfold signMagnitude
  split
  · next h =>
    have hpos := hand.mp h
    have hor : (bits ||| signBit).toNat = bits.toNat ||| 2 ^ 63 := UInt64.toNat_or _ _
    rw [if_pos hpos, hor, Nat.or_two_pow_eq_add_of_lt hpos]
    push_cast
    ring
  · next h =>
    have hneg : ¬ bits.toNat < 2 ^ 63 := fun hpos => h (hand.mpr hpos)
    rw [if_neg hneg, UInt64.toNat_not]
    simp only [UInt64.size]
    omega

end Skaidb
