import Mathlib.Algebra.Order.Field.Rat
import Skaidb.Data.Ascending

/-!
# The value model

Values are self-describing and dynamically typed. The enumeration is nested
through lists, so it is declared as plain data first; the maps inside it are
association lists. A `Value` is such a tree together with the proof that every
document in it is a map, that is, that field names ascend in the byte order of
their UTF-8 form.
-/

namespace Skaidb

/-- `str::as_bytes`: the bytes that a text is stored and sent as. -/
def utf8 (s : String) : List UInt8 := s.toByteArray.data.toList

/-- The string with the given bytes, if they are well-formed UTF-8. -/
def fromUtf8 (bytes : List UInt8) : Option String := String.fromUTF8? ⟨bytes.toArray⟩

/-- The bytes of a string are well formed and give the string back. -/
@[simp] theorem fromUtf8_utf8 (s : String) : fromUtf8 (utf8 s) = some s := by
  unfold fromUtf8 utf8
  rw [Array.toArray_toList, String.fromUTF8?, dif_pos s.isValidUTF8]
  rfl

/-- A string made from bytes has these bytes. -/
theorem utf8_of_fromUtf8 {bytes : List UInt8} {s : String} (h : fromUtf8 bytes = some s) :
    utf8 s = bytes := by
  unfold fromUtf8 String.fromUTF8? at h
  split at h
  · obtain rfl := Option.some.inj h
    simp [utf8, String.fromUTF8]
  · cases h

/-- Strings with the same bytes are equal, so that comparing bytes compares texts. -/
theorem utf8_injective {s t : String} (h : utf8 s = utf8 t) : s = t := by
  have hs := fromUtf8_utf8 s
  rw [h, fromUtf8_utf8] at hs
  exact (Option.some.inj hs).symm

/-- The bytes of a string are those of its characters one after another. -/
theorem utf8_eq_flatMap (s : String) : utf8 s = s.toList.flatMap String.utf8EncodeChar := by
  rw [utf8, ← String.utf8Encode_toList, List.utf8Encode]
  simp

/-- The bytes of two strings one after another are the bytes of both in turn. -/
theorem utf8_append (s t : String) : utf8 (s ++ t) = utf8 s ++ utf8 t := by
  simp [utf8, String.toByteArray_append]

/-- `Uuid`: sixteen bytes, the length being part of the type. -/
structure Uuid where
  /-- The sixteen bytes, the first one in front. -/
  bytes : List UInt8
  /-- There are sixteen of them. -/
  length_eq : bytes.length = 16
  deriving DecidableEq

/-- A fixed-point decimal `mantissa * 10 ^ -scale` with a 128-bit signed mantissa. -/
structure Decimal where
  /-- The number without its scale, in 128 bits. -/
  mantissa : ℤ
  /-- The number of digits after the point. -/
  scale : UInt32
  /-- The mantissa is at least the least 128-bit integer. -/
  lower : -2 ^ 127 ≤ mantissa
  /-- The mantissa is at most the greatest 128-bit integer. -/
  upper : mantissa < 2 ^ 127
  deriving DecidableEq

/-- The number that a decimal denotes, its mantissa over ten to the power of its scale. -/
def Decimal.toRat (d : Decimal) : ℚ := d.mantissa / 10 ^ d.scale.toNat

/-- The variants of a value as plain data. Floats are their bit patterns, integers
and timestamps are 64-bit signed, and a document is the list of its fields. -/
inductive RawValue where
  | null
  | bool (b : Bool)
  | int (i : Int64)
  | float (bits : UInt64)
  | decimal (d : Decimal)
  | string (s : String)
  | bytes (b : List UInt8)
  | uuid (u : Uuid)
  | timestamp (t : Int64)
  | array (items : List RawValue)
  | document (fields : List (String × RawValue))

namespace RawValue

/-- Induction over values, with the hypothesis for every element and every field. -/
@[elab_as_elim] theorem induct {P : RawValue → Prop} (null : P .null) (bool : ∀ b, P (.bool b))
    (int : ∀ i, P (.int i)) (float : ∀ bits, P (.float bits)) (decimal : ∀ d, P (.decimal d))
    (string : ∀ s, P (.string s)) (bytes : ∀ b, P (.bytes b)) (uuid : ∀ u, P (.uuid u))
    (timestamp : ∀ t, P (.timestamp t))
    (array : ∀ items : List RawValue, (∀ v ∈ items, P v) → P (.array items))
    (document : ∀ fields : List (String × RawValue), (∀ f ∈ fields, P f.2) →
      P (.document fields)) (v : RawValue) : P v :=
  @RawValue.rec P (fun items => ∀ v ∈ items, P v) (fun fields => ∀ f ∈ fields, P f.2)
    (fun f => P f.2) null bool int float decimal string bytes uuid timestamp array document
    (fun _ h => nomatch h)
    (fun _ _ hv hitems => List.forall_mem_cons.mpr ⟨hv, hitems⟩)
    (fun _ h => nomatch h)
    (fun _ _ hf hfields => List.forall_mem_cons.mpr ⟨hf, hfields⟩)
    (fun _ _ hv => hv) v

mutual

/-- The property `p` holds of the value and of every value inside it. -/
def Everywhere (p : RawValue → Prop) : RawValue → Prop
  | .array items => p (.array items) ∧ EverywhereItems p items
  | .document fields => p (.document fields) ∧ EverywhereFields p fields
  | v => p v

/-- A property of values holds everywhere in the elements of an array. -/
def EverywhereItems (p : RawValue → Prop) : List RawValue → Prop
  | [] => True
  | v :: items => Everywhere p v ∧ EverywhereItems p items

/-- `Everywhere` for the field values of a document. -/
def EverywhereFields (p : RawValue → Prop) : List (String × RawValue) → Prop
  | [] => True
  | (_, v) :: fields => Everywhere p v ∧ EverywhereFields p fields

end

section Decide

variable (p : RawValue → Prop) [DecidablePred p]

mutual

/-- Whether a decidable property holds everywhere is decidable. -/
def decideEverywhere : (v : RawValue) → Decidable (Everywhere p v)
  | .array items =>
    have := decideEverywhereItems items
    inferInstanceAs (Decidable (p (.array items) ∧ EverywhereItems p items))
  | .document fields =>
    have := decideEverywhereFields fields
    inferInstanceAs (Decidable (p (.document fields) ∧ EverywhereFields p fields))
  | .null => inferInstanceAs (Decidable (p .null))
  | .bool b => inferInstanceAs (Decidable (p (.bool b)))
  | .int i => inferInstanceAs (Decidable (p (.int i)))
  | .float bits => inferInstanceAs (Decidable (p (.float bits)))
  | .decimal d => inferInstanceAs (Decidable (p (.decimal d)))
  | .string s => inferInstanceAs (Decidable (p (.string s)))
  | .bytes b => inferInstanceAs (Decidable (p (.bytes b)))
  | .uuid u => inferInstanceAs (Decidable (p (.uuid u)))
  | .timestamp t => inferInstanceAs (Decidable (p (.timestamp t)))

/-- Whether a property holds everywhere in the elements of an array can be computed. -/
def decideEverywhereItems : (items : List RawValue) → Decidable (EverywhereItems p items)
  | [] => .isTrue trivial
  | v :: items =>
    have := decideEverywhere v
    have := decideEverywhereItems items
    inferInstanceAs (Decidable (Everywhere p v ∧ EverywhereItems p items))

/-- `decideEverywhere` for the field values of a document. -/
def decideEverywhereFields :
    (fields : List (String × RawValue)) → Decidable (EverywhereFields p fields)
  | [] => .isTrue trivial
  | (_, v) :: fields =>
    have := decideEverywhere v
    have := decideEverywhereFields fields
    inferInstanceAs (Decidable (Everywhere p v ∧ EverywhereFields p fields))

end

instance (v : RawValue) : Decidable (Everywhere p v) := decideEverywhere p v

end Decide

/-- A property of an array holds everywhere in it when it holds of the array and
everywhere in each element. -/
@[simp] theorem everywhere_array {p : RawValue → Prop} {items : List RawValue} :
    Everywhere p (.array items) ↔ p (.array items) ∧ ∀ v ∈ items, Everywhere p v := by
  have hitems : EverywhereItems p items ↔ ∀ v ∈ items, Everywhere p v := by
    induction items with
    | nil => simp [EverywhereItems]
    | cons v items ih => simp [EverywhereItems, ih]
  rw [Everywhere, hitems]

/-- A property of a document holds everywhere in it when it holds of the document
and everywhere in each field. -/
@[simp] theorem everywhere_document {p : RawValue → Prop} {fields : List (String × RawValue)} :
    Everywhere p (.document fields) ↔ p (.document fields) ∧ ∀ f ∈ fields, Everywhere p f.2 := by
  have hfields : EverywhereFields p fields ↔ ∀ f ∈ fields, Everywhere p f.2 := by
    induction fields with
    | nil => simp [EverywhereFields]
    | cons f fields ih =>
      obtain ⟨k, v⟩ := f
      simp [EverywhereFields, ih]
  rw [Everywhere, hfields]

/-- A property that holds everywhere holds of the value itself. -/
theorem Everywhere.self {p : RawValue → Prop} {v : RawValue} (h : Everywhere p v) : p v := by
  cases v with
  | array items => exact (everywhere_array.mp h).1
  | document fields => exact (everywhere_document.mp h).1
  | _ => exact h

/-- The value is not a document with misplaced or repeated field names. -/
def HasMap : RawValue → Prop
  | .document fields => Ascending.Sorted utf8 fields
  | _ => True

instance : DecidablePred HasMap
  | .document fields => inferInstanceAs (Decidable (Ascending.Sorted utf8 fields))
  | .null | .bool _ | .int _ | .float _ | .decimal _ | .string _ | .bytes _ | .uuid _
  | .timestamp _ | .array _ => .isTrue trivial

/-- Every document in the value is a map. -/
def WellFormed (v : RawValue) : Prop := v.Everywhere HasMap

instance (v : RawValue) : Decidable v.WellFormed := inferInstanceAs (Decidable (Everywhere _ v))

end RawValue

/-- A value: a tree of variants in which every document is a map. -/
@[ext] structure Value where
  /-- The value as a tree of its variants. -/
  raw : RawValue
  /-- Every document inside it is a map in ascending order. -/
  wellFormed : raw.WellFormed

/-- A document: an ordered map of field names to values. -/
structure Document where
  /-- The entries in key order. -/
  fields : List (String × RawValue)
  /-- The entries are a map, and so is every document in them. -/
  wellFormed : (RawValue.document fields).WellFormed

/-- Null as a value, which is what an absent field reads as. -/
def Value.null : Value := ⟨.null, trivial⟩

/-- A text as a value, well formed whatever it holds. -/
def Value.string (s : String) : Value := ⟨.string s, trivial⟩

/-- A document as a value, well formed because its fields have distinct names. -/
def Value.ofDocument (doc : Document) : Value := ⟨.document doc.fields, doc.wellFormed⟩

/-- `ValueError`: why a value could not be constructed, converted or decoded. -/
inductive ValueError where
  | invalidUuid (text : String)
  | outOfRange (what : String)
  | unrepresentableJson (message : String)
  deriving DecidableEq

end Skaidb
