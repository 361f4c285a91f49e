import Skaidb.Data.OrdMap
import Skaidb.Types.CodecCorrect

/-!
# Documents

The operations of a document as a map, and `decode_value` as a reader of values: what it
returns is a tree in which every document is a map.
-/

namespace Skaidb

open Codec

/-- Names with the same bytes are the same, so that documents can be ordered by the bytes. -/
theorem utf8_inj : Function.Injective utf8 := fun _ _ h => utf8_injective h

instance : Ranked utf8 := ⟨utf8_inj⟩

namespace Document

/-- `Document::new`: a document without any field, as `BTreeMap::new` makes it. -/
def new : Document := ⟨[], by decide⟩

/-- `Document::insert`: the document with a field set, in place of one of the same name. -/
def insert (doc : Document) (key : String) (value : Value) : Document where
  fields := Ascending.insert utf8 key value.raw doc.fields
  wellFormed := by
    obtain ⟨hsorted, hfields⟩ := RawValue.everywhere_document.mp doc.wellFormed
    refine RawValue.everywhere_document.mpr ⟨Ascending.Sorted.insert utf8 hsorted, fun f hf => ?_⟩
    rcases Ascending.mem_insert utf8 hf with rfl | hf
    · exact value.wellFormed
    · exact hfields f hf

/-- What is looked up once a field is set. -/
theorem lookup_insert (doc : Document) (name key : String) (value : Value) :
    (doc.insert name value).fields.lookup key =
      if key == name then some value.raw else doc.fields.lookup key :=
  Ascending.lookup_insert utf8 utf8_inj _ _ _ _

/-- `Document::get`: the value stored under a name, if the document has such a field. -/
def get (doc : Document) (key : String) : Option Value :=
  match h : doc.fields.lookup key with
  | some v => some ⟨v, (RawValue.everywhere_document.mp doc.wellFormed).2 _
      (Ascending.mem_of_lookup h)⟩
  | none => none

/-- The value of a field is looked up among the entries. -/
theorem map_raw_get (doc : Document) (key : String) :
    (doc.get key).map Value.raw = doc.fields.lookup key := by
  unfold get
  split
  · next v h => exact h.symm
  · next h => exact h.symm

/-- Two optional values are equal when their variants are. -/
theorem value_eq_of_map_raw {a b : Option Value} (h : a.map Value.raw = b.map Value.raw) :
    a = b := by
  cases a <;> cases b <;> simp_all [Value.ext_iff]

/-- Two documents in which every name has the same value are equal. -/
theorem ext_get {a b : Document} (h : ∀ key, a.get key = b.get key) : a = b := by
  obtain ⟨fields, hwf⟩ := a
  obtain ⟨fields', hwf'⟩ := b
  have hlookup : ∀ key, fields.lookup key = fields'.lookup key := fun key => by
    have hkey := congrArg (Option.map Value.raw) (h key)
    rwa [map_raw_get, map_raw_get] at hkey
  have hsorted : Ascending.Sorted utf8 fields := hwf.self
  obtain rfl : fields = fields' := hsorted.ext_lookup utf8 hwf'.self hlookup
  rfl

/-- A name can be looked up in a document exactly when one of its fields has it. -/
theorem get_ne_none_iff {doc : Document} {key : String} :
    doc.get key ≠ none ↔ key ∈ doc.fields.map Prod.fst := by
  have hnone : doc.get key = none ↔ doc.fields.lookup key = none := by
    rw [← map_raw_get, Option.map_eq_none_iff]
  rw [ne_eq, hnone, List.lookup_eq_none_iff]
  simp only [bne_iff_ne, ne_eq, List.mem_map, not_forall, not_not]
  constructor
  · rintro ⟨f, hf, rfl⟩
    exact ⟨f, hf, rfl⟩
  · rintro ⟨f, hf, rfl⟩
    exact ⟨f, hf, rfl⟩

end Document

/-- `decode_value` as a reader of well-formed values, for the readers of whole documents. -/
def Value.read : ValueReader Value := fun input =>
  match h : readValue input with
  | .ok (v, rest) => .ok (⟨v, (decodeValue_pays _ _ _ _ h).1.1⟩, rest)
  | .error e => .error e

/-- Reading a value, which has well-formed documents, is reading its variants with the same input
left over. -/
theorem Value.read_eq_ok {input rest : List UInt8} {v : Value} :
    Value.read input = .ok (v, rest) ↔ readValue input = .ok (v.raw, rest) := by
  unfold Value.read
  split
  · next w rest' h => simp [h, Value.ext_iff]
  · next e h => simp [h]

end Skaidb
