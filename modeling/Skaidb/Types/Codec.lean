import Skaidb.Codec.Reader
import Skaidb.Codec.Endian
import Skaidb.Types.Value

/-!
# The lossless value codec

The binary form in which rows are stored and shipped. All integers are
little-endian and variable-length parts carry a 32-bit length. The decoder is
the recursion of the source bounded by the number of bytes left: every call
reads a tag byte, so a call with no byte left fails there and the bound is never
the reason for a failure (`decodeValue_eq_of_le`).
-/

namespace Skaidb

open Codec

namespace Tag

/-- Tag of a null. -/
@[match_pattern] abbrev null : UInt8 := 0
/-- Tag of a boolean. -/
@[match_pattern] abbrev bool : UInt8 := 1
/-- Tag of an integer. -/
@[match_pattern] abbrev int : UInt8 := 2
/-- Tag of a float. -/
@[match_pattern] abbrev float : UInt8 := 3
/-- Tag of a decimal. -/
@[match_pattern] abbrev decimal : UInt8 := 4
/-- Tag of a string. -/
@[match_pattern] abbrev string : UInt8 := 5
/-- Tag of a byte string. -/
@[match_pattern] abbrev bytes : UInt8 := 6
/-- Tag of a UUID. -/
@[match_pattern] abbrev uuid : UInt8 := 7
/-- Tag of a timestamp. -/
@[match_pattern] abbrev timestamp : UInt8 := 8
/-- Tag of an array. -/
@[match_pattern] abbrev array : UInt8 := 9
/-- Tag of a document. -/
@[match_pattern] abbrev document : UInt8 := 10

end Tag

/-- The eight bytes of a 64-bit signed integer. -/
def int64Bytes (i : Int64) : List UInt8 := leBytes 8 i.toUInt64.toNat

/-- The sixteen bytes of a 128-bit signed integer in two's complement. -/
def int128Bytes (m : ℤ) : List UInt8 := leBytes 16 (m % 2 ^ 128).toNat

/-- `write_bytes`: a byte string behind its length as a 32-bit little-endian number. -/
def writeBytes (bytes : List UInt8) : List UInt8 := leBytes 4 bytes.length ++ bytes

mutual

/-- `encode_value`: the bytes appended for a value, its tag first and the parts of it behind. -/
def encodeValue : RawValue → List UInt8
  | .null => [Tag.null]
  | .bool b => [Tag.bool, if b then 1 else 0]
  | .int i => Tag.int :: int64Bytes i
  | .float bits => Tag.float :: leBytes 8 bits.toNat
  | .decimal d => Tag.decimal :: (int128Bytes d.mantissa ++ leBytes 4 d.scale.toNat)
  | .string s => Tag.string :: writeBytes (utf8 s)
  | .bytes b => Tag.bytes :: writeBytes b
  | .uuid u => Tag.uuid :: u.bytes
  | .timestamp t => Tag.timestamp :: int64Bytes t
  | .array items => Tag.array :: (leBytes 4 items.length ++ encodeItems items)
  | .document fields => Tag.document :: (leBytes 4 fields.length ++ encodeFields fields)

/-- The elements of an array, one after another. -/
def encodeItems : List RawValue → List UInt8
  | [] => []
  | v :: items => encodeValue v ++ encodeItems items

/-- The fields of a document in key order, each name before its value. -/
def encodeFields : List (String × RawValue) → List UInt8
  | [] => []
  | (name, v) :: fields => writeBytes (utf8 name) ++ encodeValue v ++ encodeFields fields

end

/-- `Value::encode`: the bytes a value is stored under, from which decoding gives exactly this value
back. -/
def Value.encode (v : Value) : List UInt8 := encodeValue v.raw

/-- `encode_document`: a document's stored bytes, written without first wrapping it as a value. -/
def encodeDocument (doc : Document) : List UInt8 :=
  Tag.document :: (leBytes 4 doc.fields.length ++ encodeFields doc.fields)

/-! ## Decoding -/

/-- A reader of bytes that fails with a `ValueError`. -/
abbrev ValueReader := Reader UInt8 ValueError

/-- The failure of reading past the last byte. -/
def endOfInput : ValueError := .unrepresentableJson "unexpected end of input"

/-- `Reader::u8`: one byte, or the error for an input that has ended. -/
def readU8 : ValueReader UInt8 := Reader.symbol endOfInput

/-- `Cursor::take`: a fixed number of bytes, or the error for an input that ends before. -/
def readTake (n : ℕ) : ValueReader (List UInt8) := Reader.take endOfInput n

/-- `Reader::u32`: four bytes as a little-endian unsigned integer, used for every count and
length. -/
def readU32 : ValueReader ℕ := do
  let bytes ← readTake 4
  pure (ofLeBytes bytes)

/-- Eight bytes as a little-endian word, which integers, floats and timestamps share. -/
def readU64 : ValueReader UInt64 := do
  let bytes ← readTake 8
  pure (UInt64.ofNat (ofLeBytes bytes))

/-- `Reader::bytes`: a 32-bit length and then as many bytes as it announces. -/
def readBytes : ValueReader (List UInt8) := do
  let len ← readU32
  readTake len

/-- Read a length-prefixed string, refusing bytes that are not UTF-8. -/
def readString : ValueReader String := do
  let bytes ← readBytes
  Reader.ofOption (.unrepresentableJson "invalid utf-8 in string") (fromUtf8 bytes)

/-- The signed integer with a 128-bit two's complement pattern. -/
def toInt128 (n : ℕ) : ℤ :=
  if n % 2 ^ 128 < 2 ^ 127 then (n % 2 ^ 128 : ℕ) else (n % 2 ^ 128 : ℕ) - 2 ^ 128

/-- A 128-bit pattern denotes a 128-bit signed integer, so every mantissa that is read fits the type
of mantissas. -/
theorem toInt128_bounds (n : ℕ) : -2 ^ 127 ≤ toInt128 n ∧ toInt128 n < 2 ^ 127 := by
  have hmod := Nat.mod_lt n (show 0 < 2 ^ 128 by decide)
  unfold toInt128
  split <;> omega

/-- Read a 128-bit mantissa and a 32-bit scale. -/
def readDecimal : ValueReader Decimal := do
  let mantissa ← readTake 16
  let scale ← readU32
  pure ⟨toInt128 (ofLeBytes mantissa), UInt32.ofNat scale, (toInt128_bounds _).1,
    (toInt128_bounds _).2⟩

/-- The sixteen bytes of a UUID, taken in the order in which they stand. -/
def readUuid : ValueReader Uuid := fun input =>
  if h : 16 ≤ input.length then .ok (⟨input.take 16, List.length_take_of_le h⟩, input.drop 16)
  else .error endOfInput

/-- What `decode_value` does after reading the tag, with `decode` for the recursive calls. -/
def decodeTagged (decode : ValueReader RawValue) : UInt8 → ValueReader RawValue
  | Tag.null => pure .null
  | Tag.bool => do
    let b ← readU8
    pure (.bool (b != 0))
  | Tag.int => do
    let word ← readU64
    pure (.int word.toInt64)
  | Tag.float => do
    let word ← readU64
    pure (.float word)
  | Tag.decimal => do
    let d ← readDecimal
    pure (.decimal d)
  | Tag.string => do
    let s ← readString
    pure (.string s)
  | Tag.bytes => do
    let b ← readBytes
    pure (.bytes b)
  | Tag.uuid => do
    let u ← readUuid
    pure (.uuid u)
  | Tag.timestamp => do
    let word ← readU64
    pure (.timestamp word.toInt64)
  | Tag.array => do
    let n ← readU32
    -- Every element is at least its tag byte.
    Reader.ensure (fun left => ¬ n > left) (.unrepresentableJson "array count exceeds input")
    let items ← Reader.times n decode
    pure (.array items)
  | Tag.document => do
    let n ← readU32
    -- A field is at least the four bytes of its name's length and a value tag.
    Reader.ensure (fun left => ¬ n > left / 5)
      (.unrepresentableJson "document field count exceeds input")
    let fields ← Reader.times n do
      let name ← readString
      let value ← decode
      pure (name, value)
    pure (.document (Ascending.ofList utf8 fields))
  | _ => Reader.fail (.unrepresentableJson "unknown value tag")

/-- `decode_value` with a bound on the recursion, used with the number of bytes left. -/
def decodeValue : ℕ → ValueReader RawValue
  | 0 => Reader.fail endOfInput
  | fuel + 1 => do
    let tag ← readU8
    decodeTagged (decodeValue fuel) tag

/-- `Value::decode` on plain data: one value and nothing after it. -/
def RawValue.decode (bytes : List UInt8) : Except ValueError RawValue :=
  match decodeValue bytes.length bytes with
  | .ok (v, []) => .ok v
  | .ok (_, _ :: _) => .error (.unrepresentableJson "trailing bytes after value")
  | .error e => .error e

end Skaidb
