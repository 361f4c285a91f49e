import Skaidb.Ffi.Copies

/-!
# Texts and paths through the C interface

Next to the functions that `copy` calls, the interface has some that take C strings: a string and a
UUID can be made from one, and a field of a document looked up by one. This file says which of the
C strings that the interface itself hands out lead back to where they came from: every text of a
UUID does, a text of a string when it has no NUL, and the name of a field when it has neither a NUL
nor a dot, since `Document.getPath` takes a dot for the end of a name.
-/

namespace Skaidb.Ffi

open Codec

/-- A caller that asks whether a value is null and one that asks for its type learn the same: for
both a pointer that is NULL stands for a null value. -/
theorem valueIsNull_iff (v : Option Value) : valueIsNull v = true ↔ valueType v = .null := by
  unfold valueIsNull valueType
  cases v with
  | none => simp
  | some v =>
    obtain ⟨raw, h⟩ := v
    cases raw <;> simp

/-! ## Texts -/

/-- A string that was written out with `valueToStringDup` is read back by `valueString` unless it
has a NUL, where C would end it. -/
theorem valueString_text (jsonText : Value → String) (s : String) :
    valueString (valueToStringDup jsonText (some (.string s))) = .ok (.string s) ↔
      '\x00' ∉ s.toList := by
  have hread : valueString (valueToStringDup jsonText (some (.string s))) =
      .ok (.string (lossy s)) := by
    have htext : valueToStringDup jsonText (some (.string s)) = some (cStringLossy s) := rfl
    rw [htext, valueString, cstr_cStringLossy]
    rfl
  rw [hread]
  constructor
  · intro heq
    have hself : lossy s = s := RawValue.string.inj (Value.ext_iff.mp (Except.ok.inj heq))
    have hfree := nul_notMem_lossy s
    rwa [hself] at hfree
  · intro hfree
    rw [lossy_eq_self hfree]

/-- The text of a UUID has no NUL, so it arrives in C as it is. -/
theorem nul_notMem_display (u : Uuid) : '\x00' ∉ u.display.toList := by
  intro hnul
  have hdigit : '\x00' ∈ u.display.toList.filter (· ≠ '-') :=
    List.mem_filter.mpr ⟨hnul, by decide⟩
  rw [Uuid.filter_display] at hdigit
  exact absurd (isHexDigit_of_mem_hexText hdigit) (by decide)

/-- A UUID that was written out with `valueToStringDup` is read back by `valueUuidParse`, which
neither refuses the text nor panics on it. -/
theorem valueUuidParse_text (jsonText : Value → String) (u : Uuid) :
    valueUuidParse (valueToStringDup jsonText (some ⟨.uuid u, trivial⟩)) =
      .ok (.ok ⟨.uuid u, trivial⟩) := by
  have htext : valueToStringDup jsonText (some ⟨.uuid u, trivial⟩) =
      some (cStringLossy u.display) := rfl
  have hread : cstr "uuid" (some (cStringLossy u.display)) = .ok u.display := by
    rw [cstr_cStringLossy, lossy_eq_self (nul_notMem_display u)]
  rw [htext, valueUuidParse, hread]
  simp only [Uuid.parseStr_display]
  rfl

/-! ## Paths -/

/-- A lookup by a C string that stands for some name is `Document.getPath` of the name as it
arrives, with another character for each NUL. -/
theorem toOption_valueDocumentGet (doc : Document) (name : String) :
    (valueDocumentGet (some (.ofDocument doc)) (some (cStringLossy name))).toOption =
      doc.getPath (lossy name) := by
  obtain ⟨fields, h⟩ := doc
  simp only [valueDocumentGet, Value.ofDocument, cstr_cStringLossy, bind, Except.bind]
  cases Document.getPath ⟨fields, h⟩ (lossy name) <;> rfl

/-- What lies at a position among the fields of a document is what `Document.get` finds under the
name at this position. -/
theorem valueDocumentValue_eq_get {doc : Document} {index : ℕ} {name : String}
    (hname : (doc.fields.map Prod.fst)[index]? = some name) :
    valueDocumentValue (some (.ofDocument doc)) index = doc.get name := by
  have hvalue : valueDocumentValue (some (.ofDocument doc)) index =
      (fieldValues doc.fields doc.wellFormed)[index]? := rfl
  obtain ⟨f, hf, rfl⟩ : ∃ f, doc.fields[index]? = some f ∧ f.1 = name := by
    rwa [List.getElem?_map, Option.map_eq_some_iff] at hname
  apply Document.value_eq_of_map_raw
  rw [hvalue, Document.map_raw_get, ← List.getElem?_map, map_raw_fieldValues, List.getElem?_map,
    hf]
  have hsorted : Ascending.Sorted utf8 doc.fields := doc.wellFormed.self
  exact (hsorted.lookup_of_mem utf8 (List.mem_of_getElem? hf)).symm

/-- **Fields by name.** A caller that goes through a document by position and asks for each field
again under the C string `valueDocumentKey` gives for its name is answered with the field itself,
provided the name has neither a dot nor a NUL. -/
theorem valueDocumentGet_key {doc : Document} {index : ℕ} {name : String}
    (hname : (doc.fields.map Prod.fst)[index]? = some name) (hdot : '.' ∉ name.toList)
    (hnul : '\x00' ∉ name.toList) :
    (valueDocumentGet (some (.ofDocument doc))
        (valueDocumentKey (some (.ofDocument doc)) index)).toOption =
      valueDocumentValue (some (.ofDocument doc)) index := by
  have hkey : valueDocumentKey (some (.ofDocument doc)) index = some (cStringLossy name) := by
    have hnames : valueDocumentKey (some (.ofDocument doc)) index =
        (doc.fields.map Prod.fst)[index]?.map cStringLossy := rfl
    rw [hnames, hname, Option.map_some]
  rw [hkey, toOption_valueDocumentGet, lossy_eq_self hnul, valueDocumentValue_eq_get hname,
    Document.getPath, splitOnce_eq_none_iff.mpr hdot]

end Skaidb.Ffi
