import Skaidb.Types.Scan

/-!
# Walks agree with the full decode

A row that decodes to a document is walked field by field by the skipping readers in step
with the decoder. Each walk is a loop that follows the decoder's loop over the
fields, so its result is described by what it keeps about the fields read so far.
-/

namespace Skaidb

open Codec

/-! ## Skipping in step with decoding -/

/-- The bytes of a string are read where the string is. -/
theorem readBytes_follows_readString : Reader.Follows readBytes readString := by
  intro input s rest h
  obtain ⟨bytes, middle, hbytes, hout⟩ := Reader.bind_eq_ok h
  obtain ⟨-, rfl⟩ := Reader.ofOption_eq_ok hout
  exact ⟨bytes, hbytes⟩

/-- The bytes of a UUID are read where the UUID is. -/
theorem readTake_follows_readUuid : Reader.Follows (readTake 16) readUuid := by
  intro input u rest h
  have hinput := readUuid_eq_ok h
  have hread := Reader.Reads.take endOfInput u.length_eq rest
  rw [← hinput] at hread
  exact ⟨u.bytes, hread⟩

/-- The branches after the tag leave the same input when the recursive calls do. -/
theorem skipTagged_follows {skip : ValueReader Unit} {decode : ValueReader RawValue}
    (h : Reader.Follows skip decode) (tag : UInt8) :
    Reader.Follows (skipTagged skip tag) (decodeTagged decode tag) := by
  have hunit {α : Type} (a : α) : Reader.Follows (pure () : ValueReader Unit) (pure a) :=
    Reader.Follows.pure () a
  unfold decodeTagged
  split
  · exact hunit _
  · exact Reader.Follows.bind fun _ => hunit _
  · exact Reader.Follows.bind fun _ => hunit _
  · exact Reader.Follows.bind fun _ => hunit _
  · have hdecimal : Reader.Follows (skipTagged skip Tag.decimal) readDecimal :=
      Reader.Follows.bind fun _ => Reader.Follows.bind fun _ => hunit _
    exact hdecimal.map RawValue.decimal
  · exact readBytes_follows_readString.bind_both fun _ _ => hunit _
  · exact Reader.Follows.bind fun _ => hunit _
  · exact readTake_follows_readUuid.bind_both fun _ _ => hunit _
  · exact Reader.Follows.bind fun _ => hunit _
  · refine Reader.Follows.bind fun n => Reader.Follows.ensure ?_
    exact (h.times n).bind_both fun _ _ => hunit _
  · refine Reader.Follows.bind fun n => Reader.Follows.ensure ?_
    refine Reader.Follows.bind_both (Reader.Follows.times ?_ n) fun _ _ => hunit _
    exact readBytes_follows_readString.bind_both fun _ name => h.map (name, ·)
  · intro input v rest h
    cases h

/-- With the same bound on its calls, skipping ends where decoding does when that succeeds. -/
theorem skipFuel_follows (fuel : ℕ) : Reader.Follows (skipFuel fuel) (decodeValue fuel) := by
  induction fuel with
  | zero =>
    intro input v rest h
    cases h
  | succ fuel ih => exact Reader.Follows.bind fun tag => skipTagged_follows ih tag

/-- A value that decodes is skipped, and the same input is left. -/
theorem skipValue_eq_ok {input rest : List UInt8} {v : RawValue}
    (h : readValue input = .ok (v, rest)) : skipValue input = .ok ((), rest) := by
  obtain ⟨⟨⟩, hskip⟩ := skipFuel_follows _ _ _ _ h
  exact hskip

/-! ## What a value is read from -/

/-- Whether and what a 32-bit number is read depends only on the bytes it consumes. -/
theorem readU32_local : Reader.Local readU32 :=
  (Reader.Local.take endOfInput 4).bind fun _ => Reader.Local.pure _

/-- Whether and what a 64-bit word is read depends only on the bytes it consumes. -/
theorem readU64_local : Reader.Local readU64 :=
  (Reader.Local.take endOfInput 8).bind fun _ => Reader.Local.pure _

/-- A byte string depends on its length and its bytes. -/
theorem readBytes_local : Reader.Local readBytes :=
  readU32_local.bind fun len => Reader.Local.take endOfInput len

/-- A string depends on its length and its bytes. -/
theorem readString_local : Reader.Local readString :=
  readBytes_local.bind fun _ => Reader.Local.ofOption _ _

/-- Whether and what a UUID is read depends only on the bytes it consumes. -/
theorem readUuid_local : Reader.Local readUuid := fun _ u _ h =>
  ⟨u.bytes, readUuid_eq_ok h, readUuid_reads u⟩

/-- A field of a document: its name and its value. -/
def readFieldWith (decode : ValueReader RawValue) : ValueReader (String × RawValue) := do
  let name ← readString
  let value ← decode
  pure (name, value)

/-- A field takes at least five bytes when its value takes one. -/
theorem readFieldWith_pays {decode : ValueReader RawValue}
    (hdecode : Reader.Pays 0 decode RawValue.Encodable fun v => (encodeValue v).length) :
    Reader.Pays 0 (readFieldWith decode) (fun _ => True) fun _ => 5 := by
  refine (readString_pays 0).bind fun name _ input f rest h => ?_
  obtain ⟨v, middle, hv, hout⟩ := Reader.bind_eq_ok h
  obtain ⟨-, rfl⟩ : (name, v) = f ∧ middle = rest := by simpa using hout
  obtain ⟨-, hsize⟩ := hdecode _ _ _ hv
  have hpos := length_encodeValue_pos v
  dsimp only at hsize ⊢
  exact ⟨trivial, by omega⟩

/-- The branches after the tag depend on what they consume when the recursive calls do. -/
theorem decodeTagged_local {decode : ValueReader RawValue} (h : Reader.Local decode)
    (hpays : Reader.Pays 0 decode RawValue.Encodable fun v => (encodeValue v).length)
    (tag : UInt8) : Reader.Local (decodeTagged decode tag) := by
  unfold decodeTagged
  split
  · exact Reader.Local.pure _
  · exact (Reader.Local.symbol _).bind fun _ => Reader.Local.pure _
  · exact readU64_local.bind fun _ => Reader.Local.pure _
  · exact readU64_local.bind fun _ => Reader.Local.pure _
  · have hdecimal : Reader.Local readDecimal :=
      (Reader.Local.take endOfInput 16).bind fun _ =>
        readU32_local.bind fun _ => Reader.Local.pure _
    exact hdecimal.bind fun _ => Reader.Local.pure _
  · exact readString_local.bind fun _ => Reader.Local.pure _
  · exact readBytes_local.bind fun _ => Reader.Local.pure _
  · exact readUuid_local.bind fun _ => Reader.Local.pure _
  · exact readU64_local.bind fun _ => Reader.Local.pure _
  · refine readU32_local.bind fun n => ?_
    exact h.ensure_times (k := 1) hpays (fun v _ => length_encodeValue_pos v)
      (fun m hm => by omega) RawValue.array
  · refine readU32_local.bind fun n => ?_
    have hfield : Reader.Local (readFieldWith decode) :=
      readString_local.bind fun _ => h.bind fun _ => Reader.Local.pure _
    exact hfield.ensure_times (k := 5) (readFieldWith_pays hpays) (fun _ _ => le_rfl)
      (fun m hm => by omega) fun fields => RawValue.document (Ascending.ofList utf8 fields)
  · exact Reader.Local.fail _

/-- What is decoded depends only on the bytes that are consumed for it. -/
theorem decodeValue_local (fuel : ℕ) : Reader.Local (decodeValue fuel) := by
  induction fuel with
  | zero => exact Reader.Local.fail _
  | succ fuel ih =>
    exact (Reader.Local.symbol endOfInput).bind fun tag =>
      decodeTagged_local ih (decodeValue_pays fuel) tag

/-- A value that decodes is read from the bytes it consumes, whatever follows them. -/
theorem readValue_local : Reader.Local readValue := by
  intro input v rest h
  obtain ⟨used, rfl, hused⟩ := decodeValue_local _ _ _ _ h
  -- The bound of the whole input also covers the consumed part.
  have hshort : readValue used = .ok (v, []) := by
    have hbound : used.length ≤ (used ++ rest).length := by simp
    exact (decodeValue_eq_of_le hbound).symm.trans hused.apply
  exact ⟨used, rfl, fun more => readValue_stable _ _ _ hshort more⟩

/-! ## Walking the fields -/

/-- A field of a document as it is stored: a name with its length, then a value. -/
def readField : ValueReader (String × RawValue) := readFieldWith readValue

/-- What a document was decoded from: its fields as they are stored, in any order and with
any repetitions. -/
theorem readValue_eq_document {input rest : List UInt8} {fields : List (String × RawValue)}
    (h : readValue input = .ok (.document fields, rest)) :
    ∃ body n start stored, input = Tag.document :: body ∧ readU32 body = .ok (n, start) ∧
      ¬ n > start.length / 5 ∧ Reader.times n readField start = .ok (stored, rest) ∧
      fields = Ascending.ofList utf8 stored := by
  rw [readValue_eq] at h
  obtain ⟨tag, body, htag, h⟩ := Reader.bind_eq_ok h
  have hinput := Reader.symbol_eq_ok htag
  unfold decodeTagged at h
  split at h
  case h_11 =>
    obtain ⟨n, start, hn, h⟩ := Reader.bind_eq_ok h
    obtain ⟨_, start', hensure, h⟩ := Reader.bind_eq_ok h
    obtain ⟨hcount, rfl⟩ := Reader.ensure_eq_ok hensure
    obtain ⟨stored, middle, hstored, hout⟩ := Reader.bind_eq_ok h
    obtain ⟨rfl, rfl⟩ : Ascending.ofList utf8 stored = fields ∧ middle = rest := by
      simpa using hout
    exact ⟨body, n, start, stored, hinput, hn, hcount, hstored, rfl⟩
  case h_1 => simp at h
  case h_10 =>
    obtain ⟨_, _, -, h⟩ := Reader.bind_eq_ok h
    obtain ⟨_, _, -, h⟩ := Reader.bind_eq_ok h
    obtain ⟨_, _, -, hout⟩ := Reader.bind_eq_ok h
    simp at hout
  case h_12 => cases h
  all_goals
    obtain ⟨_, _, -, hout⟩ := Reader.bind_eq_ok h
    simp at hout

/-- The fields of a row as they are stored, in any order and with any repetitions. -/
def StoredAs (bytes : List UInt8) (stored : List (String × RawValue)) : Prop :=
  ∃ body n start, bytes = Tag.document :: body ∧ readU32 body = .ok (n, start) ∧
    ¬ n > start.length / 5 ∧ Reader.times n readField start = .ok (stored, [])

/-- A row that decodes to a document stores fields that make it up. -/
theorem storedAs_of_decode {bytes : List UInt8} {doc : Document}
    (h : Value.decode bytes = .ok (Value.ofDocument doc)) :
    ∃ stored, StoredAs bytes stored ∧ doc.fields = Ascending.ofList utf8 stored := by
  obtain ⟨body, n, start, stored, hbytes, hn, hcount, hstored, hfields⟩ :=
    readValue_eq_document (Value.decode_eq_ok.mp h)
  exact ⟨stored, ⟨body, n, start, hbytes, hn, hcount, hstored⟩, hfields⟩

/-- The encoding of a document whose lengths fit stores its fields in order. -/
theorem storedAs_encodeDocument {doc : Document} (h : (Value.ofDocument doc).Sized) :
    StoredAs (encodeDocument doc) doc.fields := by
  obtain ⟨⟨hlen, hnames⟩, hsized⟩ := RawValue.everywhere_document.mp h
  obtain ⟨-, hwf⟩ := RawValue.everywhere_document.mp doc.wellFormed
  have hcount : 5 * doc.fields.length ≤ (encodeFields doc.fields).length := by
    rw [encodeFields_eq_flatMap]
    exact mul_length_le_length_flatMap length_encodeField_pos doc.fields
  have hfield : ∀ f ∈ doc.fields, Reader.Reads readField (encodeField f) f := fun f hf =>
    (readString_reads (hnames f hf)).bind
      (Reader.Reads.map (fun rest => readValue_encodeValue ⟨hwf f hf, hsized f hf⟩ rest)
        fun value => (f.1, value))
  refine ⟨_, doc.fields.length, encodeFields doc.fields, rfl, readU32_reads hlen _, by omega, ?_⟩
  have hread := Reader.Reads.times hfield []
  rwa [List.append_nil, ← encodeFields_eq_flatMap] at hread

/-- A loop over the fields of a row. It reaches the end of the row and keeps its relation to
the fields as they are stored. -/
theorem StoredAs.walk {σ : Type} (state : σ) {body : σ → ValueReader σ}
    {R : List (String × RawValue) → σ → List UInt8 → Prop} {bytes : List UInt8}
    {stored : List (String × RawValue)} (h : StoredAs bytes stored)
    (hbody : ∀ done state input f rest, R done state input → readField input = .ok (f, rest) →
      ∃ state', body state input = .ok (state', rest) ∧ R (done ++ [f]) state' rest)
    (hstart : ∀ input, input <:+ bytes → R [] state input) (refusal : String) :
    ∃ n start state', documentCount refusal bytes = .ok (n, start) ∧
      ¬ n > start.length / 5 ∧ Reader.iterate n body state start = .ok (state', []) ∧
      R stored state' [] := by
  obtain ⟨rest, n, start, rfl, hn, hcount, hstored⟩ := h
  obtain ⟨used, rfl, -⟩ := readU32_local _ _ _ hn
  have hsuffix : start <:+ Tag.document :: (used ++ start) :=
    (List.suffix_append used start).trans (List.suffix_cons _ _)
  obtain ⟨state', hloop, hR⟩ := Reader.iterate_of_times hbody (hstart start hsuffix) hstored
  refine ⟨n, start, state', ?_, hcount, hloop, hR⟩
  exact hn

/-- A loop over the fields of a row that decodes to a document. -/
theorem walk_fields {σ : Type} (state : σ) {body : σ → ValueReader σ}
    {R : List (String × RawValue) → σ → List UInt8 → Prop} {bytes : List UInt8} {doc : Document}
    (h : Value.decode bytes = .ok (Value.ofDocument doc))
    (hbody : ∀ done state input f rest, R done state input → readField input = .ok (f, rest) →
      ∃ state', body state input = .ok (state', rest) ∧ R (done ++ [f]) state' rest)
    (hstart : ∀ input, input <:+ bytes → R [] state input) (refusal : String) :
    ∃ n start stored state', documentCount refusal bytes = .ok (n, start) ∧
      ¬ n > start.length / 5 ∧ Reader.iterate n body state start = .ok (state', []) ∧
      R stored state' [] ∧ doc.fields = Ascending.ofList utf8 stored := by
  obtain ⟨stored, hstored, hfields⟩ := storedAs_of_decode h
  obtain ⟨n, start, state', hhead, hcount, hloop, hR⟩ := hstored.walk state hbody hstart refusal
  exact ⟨n, start, stored, state', hhead, hcount, hloop, hR, hfields⟩

/-- A field that was read came from the bytes of its name and a value behind them. -/
theorem readField_eq_ok {input rest : List UInt8} {name : String} {v : RawValue}
    (h : readField input = .ok ((name, v), rest)) :
    ∃ middle, readBytes input = .ok (utf8 name, middle) ∧
      readString input = .ok (name, middle) ∧ readValue middle = .ok (v, rest) := by
  obtain ⟨name', middle, hname, h⟩ := Reader.bind_eq_ok h
  obtain ⟨v', rest', hv, hout⟩ := Reader.bind_eq_ok h
  obtain ⟨⟨rfl, rfl⟩, rfl⟩ : (name' = name ∧ v' = v) ∧ rest' = rest := by simpa using hout
  refine ⟨middle, ?_, hname, hv⟩
  obtain ⟨bytes, middle', hbytes, hout⟩ := Reader.bind_eq_ok hname
  obtain ⟨hvalid, rfl⟩ := Reader.ofOption_eq_ok hout
  rwa [utf8_of_fromUtf8 hvalid]

/-- A value that is read is a value of the model. -/
theorem Value.read_of_readValue {input rest : List UInt8} {v : RawValue}
    (h : readValue input = .ok (v, rest)) :
    ∃ value : Value, value.raw = v ∧ Value.read input = .ok (value, rest) :=
  ⟨⟨v, (decodeValue_pays _ _ _ _ h).1.1⟩, rfl, Value.read_eq_ok.mpr h⟩

/-! ## Projection -/

section Project

variable (wanted : NameSet)

/-- The field is kept by a projection, as its name is wanted or reserved. -/
def Kept (name : String) : Prop := name ∈ wanted.names ∨ isReserved (utf8 name) = true

instance (name : String) : Decidable (Kept wanted name) := inferInstanceAs (Decidable (_ ∨ _))

/-- What a projection makes of a field, if the document has it. -/
def projected {α : Type} (null : α) (name : String) (value : Option α) : Option α :=
  if Kept wanted name then value
  else if fieldNamesMarker ∈ wanted.names then value.map fun _ => null
  else none

/-- The projected document after one more field, which is kept when its name says so. -/
def projectStep (doc : Document) (name : String) (v : Value) : Document :=
  if Kept wanted name then doc.insert name v
  else if fieldNamesMarker ∈ wanted.names then doc.insert name Value.null
  else doc

variable {wanted}

/-- The field is looked up among the wanted names by its bytes. -/
theorem find_utf8 (names : List String) (name : String) :
    names.find? (fun k => utf8 k == utf8 name) = if name ∈ names then some name else none := by
  split
  · next hmem =>
    cases hfind : names.find? (fun k => utf8 k == utf8 name) with
    | none => simpa using List.find?_eq_none.mp hfind name hmem
    | some k =>
      have hk : utf8 k = utf8 name := by simpa using List.find?_some hfind
      rw [utf8_injective hk]
  · next hmem =>
    refine List.find?_eq_none.mpr fun k hk heq => hmem ?_
    rw [← utf8_injective (beq_iff_eq.mp heq)]
    exact hk

/-- A field read by the projection to few names, which compares them by their bytes. -/
theorem projectRaw_eq_ok {input middle rest : List UInt8} {name : String} {v : Value}
    (doc : Document) (hname : readBytes input = .ok (utf8 name, middle))
    (hv : Value.read middle = .ok (v, rest)) :
    projectRaw wanted doc input = .ok (projectStep wanted doc name v, rest) := by
  have hskip := skipValue_eq_ok (Value.read_eq_ok.mp hv)
  unfold projectRaw projectStep
  rw [Reader.bind_of_ok hname]
  simp only [find_utf8, nameOf, fromUtf8_utf8, Reader.ofOption_some, pure_bind]
  by_cases hwanted : name ∈ wanted.names
  · have hkept : Kept wanted name := .inl hwanted
    rw [if_pos hwanted, if_pos hkept]
    exact Reader.bind_of_ok hv _
  · rw [if_neg hwanted]
    dsimp only
    by_cases hreserved : isReserved (utf8 name) = true
    · have hkept : Kept wanted name := .inr hreserved
      rw [if_pos hreserved, if_pos hkept]
      exact Reader.bind_of_ok hv _
    · have hkept : ¬ Kept wanted name := fun h => h.elim hwanted hreserved
      rw [if_neg hreserved, if_neg hkept]
      simp only [List.contains_iff_mem]
      split
      · exact Reader.bind_of_ok hskip _
      · exact Reader.bind_of_ok hskip _

/-- A field read by the projection to many names, which looks them up in a set. -/
theorem projectHashed_eq_ok {input middle rest : List UInt8} {name : String} {v : Value}
    (doc : Document) (hname : readString input = .ok (name, middle))
    (hv : Value.read middle = .ok (v, rest)) :
    projectHashed wanted doc input = .ok (projectStep wanted doc name v, rest) := by
  have hskip := skipValue_eq_ok (Value.read_eq_ok.mp hv)
  have hkept : (wanted.names.contains name || isReserved (utf8 name)) = true ↔
      Kept wanted name := by
    rw [Bool.or_eq_true, List.contains_iff_mem, Kept]
  unfold projectHashed projectStep
  rw [Reader.bind_of_ok hname]
  simp only [hkept, List.contains_iff_mem]
  split
  · exact Reader.bind_of_ok hv _
  · exact Reader.bind_of_ok hskip _

/-- What a projection of the stored fields looks up. -/
def Projects (wanted : NameSet) (stored : List (String × RawValue)) (doc : Document) : Prop :=
  ∀ name, doc.fields.lookup name =
    projected wanted .null name ((Ascending.ofList utf8 stored).lookup name)

/-- The projection stays right when the loop reads one more field of the document. -/
theorem Projects.step {stored : List (String × RawValue)} {doc : Document}
    (h : Projects wanted stored doc) (name : String) (v : Value) :
    Projects wanted (stored ++ [(name, v.raw)]) (projectStep wanted doc name v) := by
  intro k
  have hinsert := doc.lookup_insert name k
  have hk := h k
  rw [Ascending.ofList_append_singleton, Ascending.lookup_insert utf8 utf8_inj]
  unfold projectStep
  by_cases hname : k = name
  · subst hname
    unfold projected at hk ⊢
    by_cases hkept : Kept wanted k
    · simp [hkept, hinsert]
    · by_cases hnames : fieldNamesMarker ∈ wanted.names
      · simp [hkept, hnames, hinsert, Value.null]
      · simpa [hkept, hnames] using hk
  · simp only [beq_eq_false_iff_ne.mpr hname] at hinsert ⊢
    split
    · rw [hinsert]
      exact hk
    · split
      · rw [hinsert]
        exact hk
      · exact hk

/-- A walk whose loop projects each field projects the document. -/
theorem projectDocument_projects (wanted : NameSet) {field : Document → ValueReader Document}
    (hfield : ∀ doc input name v middle rest, readBytes input = .ok (utf8 name, middle) →
      readString input = .ok (name, middle) → Value.read middle = .ok (v, rest) →
      field doc input = .ok (projectStep wanted doc name v, rest))
    {bytes : List UInt8} {doc : Document}
    (h : Value.decode bytes = .ok (Value.ofDocument doc)) :
    ∃ p, projectDocument field bytes = .ok p ∧
      ∀ name, p.get name = projected wanted Value.null name (doc.get name) := by
  have hbody : ∀ (stored : List (String × RawValue)) (doc : Document) (input : List UInt8)
      (f : String × RawValue) (rest : List UInt8), Projects wanted stored doc →
      readField input = .ok (f, rest) →
        ∃ doc', field doc input = .ok (doc', rest) ∧ Projects wanted (stored ++ [f]) doc' := by
    rintro stored doc input ⟨name, v⟩ rest hdoc hread
    obtain ⟨middle, hbytes, hstring, hv⟩ := readField_eq_ok hread
    obtain ⟨value, rfl, hvalue⟩ := Value.read_of_readValue hv
    exact ⟨_, hfield doc input name value middle rest hbytes hstring hvalue, hdoc.step name value⟩
  have hstart : Projects wanted [] Document.new := by
    intro name
    unfold projected
    split
    · rfl
    · split <;> rfl
  obtain ⟨n, start, stored, p, hhead, hcount, hloop, hprojects, hfields⟩ :=
    walk_fields Document.new (R := fun stored doc _ => Projects wanted stored doc) h hbody
      (fun _ _ => hstart) "decode_document_projected: not a document"
  refine ⟨p, ?_, fun name => Document.value_eq_of_map_raw ?_⟩
  · simp only [projectDocument, Reader.whole, Reader.bind_apply, hhead, Reader.ensure,
      if_pos hcount, hloop]
  · rw [Document.map_raw_get, hprojects name, ← hfields, ← Document.map_raw_get]
    unfold projected
    split
    · rfl
    · split
      · cases doc.get name <;> rfl
      · rfl

end Project

/-- **Projected decode.** On a row that decodes to a document, both paths of the projected
decode succeed with the same result: the wanted and the reserved fields have their
values and, when the names of all fields are asked for, every other field is null. -/
theorem decodeDocumentProjected_eq (bytes : List UInt8) (doc : Document) (wanted : NameSet)
    (h : Value.decode bytes = .ok (Value.ofDocument doc)) :
    ∃ p, decodeDocumentProjected bytes wanted = .ok p ∧
      projectDocument (projectRaw wanted) bytes = .ok p ∧
      projectDocument (projectHashed wanted) bytes = .ok p ∧
      ∀ name, p.get name =
        if name ∈ wanted.names ∨ (utf8 name).head? = some 1 then doc.get name
        else if fieldNamesMarker ∈ wanted.names then (doc.get name).map fun _ => Value.null
        else none := by
  obtain ⟨p, hraw, hp⟩ := projectDocument_projects wanted
    (fun doc _ _ _ _ _ hbytes _ hv => projectRaw_eq_ok doc hbytes hv) h
  obtain ⟨q, hhashed, hq⟩ := projectDocument_projects wanted
    (fun doc _ _ _ _ _ _ hstring hv => projectHashed_eq_ok doc hstring hv) h
  obtain rfl : p = q := Document.ext_get fun name => (hp name).trans (hq name).symm
  refine ⟨p, ?_, hraw, hhashed, fun name => ?_⟩
  · unfold decodeDocumentProjected
    split
    · exact hraw
    · exact hhashed
  · rw [hp name, projected]
    simp [Kept, isReserved]

/-- A stored row in which the field `a` is repeated, once with a boolean byte of seven. -/
def repeatedRow : List UInt8 :=
  [10, 3, 0, 0, 0, 1, 0, 0, 0, 97, 1, 7, 1, 0, 0, 0, 98, 0, 1, 0, 0, 0, 97, 1, 0]

/-- The document of the row: the later field stands. -/
def repeatedDocument : Document := ⟨[("a", .bool false), ("b", .null)], by decide⟩

/-- The row with one name stored twice decodes to the document with the later value. -/
theorem decode_repeatedRow :
    Value.decode repeatedRow = .ok (Value.ofDocument repeatedDocument) :=
  Value.decode_eq_ok.mpr rfl

/-- The repeated field of the row and the names of all its fields. -/
theorem decodeDocumentProjected_eq_repeated :
    ∃ p, decodeDocumentProjected repeatedRow ⟨["a", fieldNamesMarker], by decide⟩ = .ok p ∧
      p.get "a" = repeatedDocument.get "a" ∧ p.get "b" = some Value.null := by
  obtain ⟨p, hp, -, -, hget⟩ := decodeDocumentProjected_eq repeatedRow repeatedDocument
    ⟨["a", fieldNamesMarker], by decide⟩ decode_repeatedRow
  refine ⟨p, hp, ?_, ?_⟩
  · rw [hget, if_pos (by decide)]
  · rw [hget, if_neg (by decide), if_pos (by decide)]
    rfl

end Skaidb
