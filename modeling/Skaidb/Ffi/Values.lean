import Skaidb.Ffi.DecimalText
import Skaidb.Types.DocumentPath
import Skaidb.Types.FloatOrder
import Skaidb.Types.UuidText

/-!
# Values in the C interface

A caller in C sees a value as a pointer that may be NULL. It makes values with one function for
each type and takes them apart with others, which are total: they answer a question about a
value of another type with nothing or zero. Strings and bytes go across with their lengths, but
the names of a document as C strings, which cannot hold a NUL, and decimals as texts. What the
functions tell of a value is enough to make it again, but for these two.
-/

namespace Skaidb.Ffi

open Codec

/-! ## C strings and arrays -/

/-- The bytes at a pointer, without the NUL at the end of a C string; nothing at NULL. -/
abbrev CBytes := Option (List UInt8)

/-- A result, or NULL with the message that is left, if there is one. -/
abbrev Made (α : Type) := Except (Option String) α

/-- `cstr`: a C string as a string, refused with a message when it is NULL or not UTF-8. -/
def cstr (what : String) : CBytes → Made String
  | none => .error (some (what ++ " is NULL"))
  | some bytes =>
    match fromUtf8 bytes with
    | some s => .ok s
    | none => .error (some (what ++ " is not valid UTF-8"))

/-- An array of C strings as strings. NULL stands for no elements; where there should be some, it
is nothing. -/
def cstrList (what : String) : Option (List CBytes) → Made (List String)
  | none => .error (some (what ++ " is NULL"))
  | some items => items.mapM (cstr what)

/-- The parameter at a position; a NULL there is refused with a message that names the position. -/
def param : Option Value × ℕ → Made Value
  | (none, i) => .error (some (s!"params[{i}] is NULL"))
  | (some v, _) => .ok v

/-- An array of pointers to values as values. -/
def paramsSlice : Option (List (Option Value)) → Made (List Value)
  | none => .error (some "params is NULL")
  | some params => params.zipIdx.mapM param

/-- The text with a replacement character for each NUL. -/
def replaceNul (s : String) : String :=
  String.ofList (s.toList.map fun c => if c = '\x00' then '\uFFFD' else c)

/-- A string as a C string; a NUL in it is replaced. -/
def cStringLossy (s : String) : List UInt8 :=
  if '\x00' ∈ s.toList then utf8 (replaceNul s) else utf8 s

/-- A string as a C string that the caller frees. -/
def dup (s : String) : CBytes := some (cStringLossy s)

/-! ## Parts of a value -/

/-- The elements of an array as values, each well formed because the array is. -/
def elements (items : List RawValue) (h : (RawValue.array items).WellFormed) : List Value :=
  items.pmap Value.mk (show ∀ v ∈ items, v.WellFormed from (RawValue.everywhere_array.mp h).2)

/-- The values of the fields of a document. -/
def fieldValues (fields : List (String × RawValue)) (h : (RawValue.document fields).WellFormed) :
    List Value :=
  fields.pmap (fun f hf => ⟨f.2, hf⟩) (RawValue.everywhere_document.mp h).2

/-! ## Making values -/

/-- `skaidb_value_null`: a fresh handle on the null value, owned by the caller. -/
def valueNull : Value := .null

/-- `skaidb_value_bool`: a fresh handle on a truth value. -/
def valueBool (b : Bool) : Value := ⟨.bool b, trivial⟩

/-- `skaidb_value_int`: a fresh handle on a 64-bit integer. -/
def valueInt (i : Int64) : Value := ⟨.int i, trivial⟩

/-- `skaidb_value_float`: a fresh handle on a double, given by its bits. -/
def valueFloat (bits : UInt64) : Value := ⟨.float bits, trivial⟩

/-- Make a decimal from its text; a text that is none of a decimal makes nothing and leaves no
message. -/
def valueDecimal (text : CBytes) : Made Value := do
  match parseDecimal (← cstr "decimal" text) with
  | some d => .ok ⟨.decimal d, trivial⟩
  | none => .error none

/-- `skaidb_value_string`: a string from a C string, which has to be UTF-8. -/
def valueString (text : CBytes) : Made Value := do
  return .string (← cstr "string" text)

/-- Make a string from bytes, which have to be UTF-8. -/
def valueStringLen : CBytes → Made Value
  | none => .error none
  | some bytes =>
    match fromUtf8 bytes with
    | some s => .ok (.string s)
    | none => .error (some "string is not valid UTF-8")

/-- Bytes; NULL stands for no bytes, and where there should be some, it is nothing. -/
def valueBytes : CBytes → Made Value
  | none => .error none
  | some bytes => .ok ⟨.bytes bytes, trivial⟩

/-- `skaidb_value_uuid`: a UUID from the sixteen bytes at a pointer, nothing at NULL. -/
def valueUuid : Option Uuid → Made Value
  | none => .error none
  | some u => .ok ⟨.uuid u, trivial⟩

/-- The text of an error, as the source displays it. -/
def errorText : ValueError → String
  | .invalidUuid text => "invalid UUID: " ++ text
  | .outOfRange what => "value out of range for " ++ what
  | .unrepresentableJson message => "cannot represent value as JSON: " ++ message

/-- Make a UUID from its text, which panics where `Uuid.parseStr` does. -/
def valueUuidParse (text : CBytes) : Except Panic (Made Value) :=
  match cstr "uuid" text with
  | .error e => .ok (.error e)
  | .ok t => do
    match ← Uuid.parseStr t with
    | .ok u => return .ok ⟨.uuid u, trivial⟩
    | .error e => return .error (some (errorText e))

/-- `skaidb_value_timestamp`: a fresh handle on a count of milliseconds. -/
def valueTimestamp (t : Int64) : Value := ⟨.timestamp t, trivial⟩

/-- An array whose elements are values is well formed, so that it can be handed out as one. -/
theorem wellFormed_array (vs : List Value) : (RawValue.array (vs.map Value.raw)).WellFormed := by
  apply RawValue.everywhere_array.mpr
  constructor
  · trivial
  · intro v hv
    obtain ⟨w, -, rfl⟩ := List.mem_map.mp hv
    exact w.wellFormed

/-- The array that has these values as its elements. -/
def arrayOf (vs : List Value) : Value := ⟨.array (vs.map Value.raw), wellFormed_array vs⟩

/-- `skaidb_value_array`: an array from pointers to its elements, none of which may be NULL. -/
def valueArray (items : Option (List (Option Value))) : Made Value := do
  return arrayOf (← paramsSlice items)

/-- A document with fields set one after another. -/
def documentOf (fields : List (String × Value)) : Document :=
  fields.foldl (fun doc f => doc.insert f.1 f.2) Document.new

/-- A document from names and pointers to values. -/
def valueDocument (keys : Option (List CBytes)) (values : Option (List (Option Value))) :
    Made Value := do
  let ks ← cstrList "keys" keys
  let vs ← paramsSlice values
  return .ofDocument (documentOf (ks.zip vs))

/-! ## Taking values apart -/

/-- The types of values that a caller in C can tell apart. -/
inductive ValueType where
  | null | bool | int | float | decimal | string | bytes | uuid | timestamp | array | document
  deriving DecidableEq

/-- The type of a value; NULL is a null. -/
def valueType : Option Value → ValueType
  | none => .null
  | some v =>
    match v.raw with
    | .null => .null
    | .bool _ => .bool
    | .int _ => .int
    | .float _ => .float
    | .decimal _ => .decimal
    | .string _ => .string
    | .bytes _ => .bytes
    | .uuid _ => .uuid
    | .timestamp _ => .timestamp
    | .array _ => .array
    | .document _ => .document

/-- `skaidb_value_is_null`: the value is a null, or there is none behind the pointer. -/
def valueIsNull (v : Option Value) : Bool :=
  match v.map Value.raw with
  | none | some .null => true
  | _ => false

/-- What a boolean is, and false for every other value. -/
def valueGetBool (v : Option Value) : Bool :=
  match v.map Value.raw with
  | some (.bool b) => b
  | _ => false

/-- `skaidb_value_get_int`: a number as an integer, truncated and clamped, and zero for other
values. -/
def valueGetInt (toF64 : Decimal → UInt64) (v : Option Value) : Int64 :=
  match v.map Value.raw with
  | some (.int i) | some (.timestamp i) => i
  | some (.float bits) => f64AsI64 (.ofBits bits)
  | some (.decimal d) => f64AsI64 (.ofBits (toF64 d))
  | some (.bool b) => if b then 1 else 0
  | _ => 0

/-- A number as a float, by its bits, or zero. -/
def valueGetFloat (toF64 : Decimal → UInt64) (v : Option Value) : UInt64 :=
  match v.map Value.raw with
  | some (.float bits) => bits
  | some (.int i) | some (.timestamp i) => (i64AsF64 i).toBits
  | some (.decimal d) => toF64 d
  | _ => 0

/-- `skaidb_value_get_timestamp`: a timestamp or an integer, and zero for other values. -/
def valueGetTimestamp (v : Option Value) : Int64 :=
  match v.map Value.raw with
  | some (.timestamp i) | some (.int i) => i
  | _ => 0

/-- The bytes of a string and how many there are. -/
def valueGetString (v : Option Value) : CBytes × ℕ :=
  match v.map Value.raw with
  | some (.string s) => (some (utf8 s), (utf8 s).length)
  | _ => (none, 0)

/-- `skaidb_value_get_bytes`: the bytes of a byte string and their number, nothing for other
values. -/
def valueGetBytes (v : Option Value) : CBytes × ℕ :=
  match v.map Value.raw with
  | some (.bytes b) => (some b, b.length)
  | _ => (none, 0)

/-- `skaidb_value_get_uuid`: the sixteen bytes of a UUID, nothing for other values. -/
def valueGetUuid (v : Option Value) : Option Uuid :=
  match v.map Value.raw with
  | some (.uuid u) => some u
  | _ => none

/-- `skaidb_value_array_len`: how many elements an array has, none for other values. -/
def valueArrayLen (v : Option Value) : ℕ :=
  match v.map Value.raw with
  | some (.array items) => items.length
  | _ => 0

/-- The element at a position of an array, or NULL. -/
def valueArrayGet (v : Option Value) (index : ℕ) : Option Value :=
  match v with
  | some ⟨.array items, h⟩ => (elements items h)[index]?
  | _ => none

/-- `skaidb_value_document_len`: how many fields a document has, none for other values. -/
def valueDocumentLen (v : Option Value) : ℕ :=
  match v.map Value.raw with
  | some (.document fields) => fields.length
  | _ => 0

/-- The name of the field at a position of a document as a C string, or NULL. -/
def valueDocumentKey (v : Option Value) (index : ℕ) : CBytes :=
  match v.map Value.raw with
  | some (.document fields) => (fields.map Prod.fst)[index]?.map cStringLossy
  | _ => none

/-- The value of the field at a position of a document, or NULL. -/
def valueDocumentValue (v : Option Value) (index : ℕ) : Option Value :=
  match v with
  | some ⟨.document fields, h⟩ => (fieldValues fields h)[index]?
  | _ => none

/-- The value behind a path into a document. -/
def valueDocumentGet (v : Option Value) (path : CBytes) : Made Value := do
  let p ← cstr "path" path
  match v with
  | some ⟨.document fields, h⟩ =>
    match Document.getPath ⟨fields, h⟩ p with
    | some found => .ok found
    | none => .error none
  | _ => .error none

/-- The text of a value: JSON for all but strings, decimals and UUIDs. -/
def valueToStringDup (jsonText : Value → String) : Option Value → CBytes
  | none => none
  | some v =>
    match v.raw with
    | .string s => dup s
    | .decimal d => dup (decimalText d)
    | .uuid u => dup u.display
    | _ => dup (jsonText v)

end Skaidb.Ffi
