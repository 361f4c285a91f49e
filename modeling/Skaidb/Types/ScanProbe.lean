import Skaidb.Types.KeyOrder
import Skaidb.Types.ScanFields

/-!
# Probes of a row

A probed field is looked at by its tag only, the names of a row are handed out without its
values, and the search for a reserved field ends at the first name that sorts behind the
reserved ones. The first two follow the full decode on every row that decodes. The last one
relies on the order in which the fields of an encoded document are stored.
-/

namespace Skaidb

open Codec

/-! ## The tag of a value -/

/-- What is decoded after a tag is null exactly for the tag of null. -/
theorem decodeTagged_eq_null_iff {tag : UInt8} {input rest : List UInt8} {v : RawValue}
    (h : decodeTagged readValue tag input = .ok (v, rest)) : tag = Tag.null ↔ v = .null := by
  unfold decodeTagged at h
  split at h
  case h_1 => simp_all
  case h_10 =>
    obtain ⟨_, _, -, h⟩ := Reader.bind_eq_ok h
    obtain ⟨_, _, -, h⟩ := Reader.bind_eq_ok h
    obtain ⟨_, _, -, hout⟩ := Reader.bind_eq_ok h
    obtain ⟨rfl, -⟩ := Prod.mk.inj (Except.ok.inj hout)
    exact iff_of_false (by decide) (by simp)
  case h_11 =>
    obtain ⟨_, _, -, h⟩ := Reader.bind_eq_ok h
    obtain ⟨_, _, -, h⟩ := Reader.bind_eq_ok h
    obtain ⟨_, _, -, hout⟩ := Reader.bind_eq_ok h
    obtain ⟨rfl, -⟩ := Prod.mk.inj (Except.ok.inj hout)
    exact iff_of_false (by decide) (by simp)
  case h_12 => cases h
  all_goals
    obtain ⟨_, _, -, hout⟩ := Reader.bind_eq_ok h
    obtain ⟨rfl, -⟩ := Prod.mk.inj (Except.ok.inj hout)
    exact iff_of_false (by decide) (by simp)

/-- The next byte is the tag of null exactly when the value there is null. -/
theorem head?_eq_null_iff {input rest : List UInt8} {v : RawValue}
    (h : readValue input = .ok (v, rest)) : input.head? = some Tag.null ↔ v = .null := by
  rw [readValue_eq] at h
  obtain ⟨tag, body, htag, h⟩ := Reader.bind_eq_ok h
  rw [Reader.symbol_eq_ok htag, List.head?_cons, Option.some.injEq]
  exact decodeTagged_eq_null_iff h

/-! ## Probed decode -/

/-- What a probe sees of a value: null, or true for anything else. -/
def RawValue.nullness : RawValue → RawValue
  | .null => .null
  | _ => .bool true

/-- What a probe keeps of a value: null for null, and a stand-in for anything else. -/
def Value.nullness (v : Value) : Value :=
  match v.raw with
  | .null => Value.null
  | _ => Value.bool true

/-- What a probe keeps of a value is decided by the variant of the value. -/
theorem Value.raw_nullness (v : Value) : v.nullness.raw = v.raw.nullness := by
  obtain ⟨raw, hwf⟩ := v
  cases raw <;> rfl

/-- A value other than null is seen as true. -/
theorem Value.nullness_of_ne {v : Value} (hv : v.raw ≠ .null) : v.nullness = Value.bool true := by
  obtain ⟨raw, hwf⟩ := v
  cases raw with
  | null => exact absurd rfl hv
  | _ => rfl

section Probed

variable {wanted probed : NameSet}

/-- What a probed decode makes of a field, if the document has it. -/
def probedField {α : Type} (see : α → α) (wanted probed : NameSet) (name : String)
    (value : Option α) : Option α :=
  if name ∈ probed.names then value.map see
  else if Kept wanted name then value
  else none

/-- The probed document after one more field, kept whole, kept as a stand-in or left out. -/
def probeStep (wanted probed : NameSet) (doc : Document) (name : String) (v : Value) : Document :=
  if name ∈ probed.names then doc.insert name v.nullness
  else if Kept wanted name then doc.insert name v
  else doc

/-- A field read by the probed decode is kept as its name is wanted, probed or reserved. -/
theorem probeField_eq_ok {input middle rest : List UInt8} {name : String} {v : Value}
    (doc : Document) (hname : readString input = .ok (name, middle))
    (hv : Value.read middle = .ok (v, rest)) :
    probeField wanted probed doc input = .ok (probeStep wanted probed doc name v, rest) := by
  have hskip := skipValue_eq_ok (Value.read_eq_ok.mp hv)
  have hnull := head?_eq_null_iff (Value.read_eq_ok.mp hv)
  have hkept : (wanted.names.contains name || isReserved (utf8 name)) = true ↔
      Kept wanted name := by
    rw [Bool.or_eq_true, List.contains_iff_mem, Kept]
  have hpeek : (Reader.peek : ValueReader (Option UInt8)) middle = .ok (middle.head?, middle) := rfl
  unfold probeField probeStep
  rw [Reader.bind_of_ok hname]
  simp only [hkept, List.contains_iff_mem]
  split
  · rw [Reader.bind_of_ok hpeek]
    by_cases hv0 : v.raw = .null
    · have hsame : v.nullness = v := by
        apply Value.ext
        rw [Value.raw_nullness, hv0]
        rfl
      rw [if_pos (hnull.mpr hv0), hsame]
      exact Reader.bind_of_ok hv _
    · rw [if_neg (fun h => hv0 (hnull.mp h)), Value.nullness_of_ne hv0]
      exact Reader.bind_of_ok hskip _
  · split
    · exact Reader.bind_of_ok hv _
    · exact Reader.bind_of_ok hskip _

/-- The document has, for every name, what the probed decode makes of the stored field. -/
def Probes (wanted probed : NameSet) (stored : List (String × RawValue)) (doc : Document) : Prop :=
  ∀ name, doc.fields.lookup name = probedField RawValue.nullness wanted probed name
    ((Ascending.ofList utf8 stored).lookup name)

/-- One more field is probed; a field that is repeated is seen as it was stored last. -/
theorem Probes.step {stored : List (String × RawValue)} {doc : Document}
    (h : Probes wanted probed stored doc) (name : String) (v : Value) :
    Probes wanted probed (stored ++ [(name, v.raw)]) (probeStep wanted probed doc name v) := by
  intro k
  have hinsert := doc.lookup_insert name k
  have hk := h k
  rw [Ascending.ofList_append_singleton, Ascending.lookup_insert utf8 utf8_inj]
  unfold probeStep
  by_cases hname : k = name
  · subst hname
    unfold probedField at hk ⊢
    by_cases hprobed : k ∈ probed.names
    · simp [hprobed, hinsert, Value.raw_nullness]
    · by_cases hkept : Kept wanted k
      · simp [hprobed, hkept, hinsert]
      · simpa [hprobed, hkept] using hk
  · simp only [beq_eq_false_iff_ne.mpr hname] at hinsert ⊢
    split
    · rw [hinsert]
      exact hk
    · split
      · rw [hinsert]
        exact hk
      · exact hk

/-- A probed decode of a row that decodes to a document. -/
theorem decodeDocumentProbed_eq {bytes : List UInt8} {doc : Document}
    (h : Value.decode bytes = .ok (Value.ofDocument doc)) (wanted probed : NameSet) :
    ∃ p, decodeDocumentProbed bytes wanted probed = .ok p ∧
      ∀ name, p.get name = probedField Value.nullness wanted probed name (doc.get name) := by
  have hbody : ∀ (stored : List (String × RawValue)) (doc : Document) (input : List UInt8)
      (f : String × RawValue) (rest : List UInt8), Probes wanted probed stored doc →
      readField input = .ok (f, rest) →
        ∃ doc', probeField wanted probed doc input = .ok (doc', rest) ∧
          Probes wanted probed (stored ++ [f]) doc' := by
    rintro stored doc input ⟨name, v⟩ rest hdoc hread
    obtain ⟨middle, -, hstring, hv⟩ := readField_eq_ok hread
    obtain ⟨value, rfl, hvalue⟩ := Value.read_of_readValue hv
    exact ⟨_, probeField_eq_ok doc hstring hvalue, hdoc.step name value⟩
  have hstart : Probes wanted probed [] Document.new := by
    intro name
    unfold probedField
    split
    · rfl
    · split <;> rfl
  obtain ⟨n, start, stored, p, hhead, hcount, hloop, hprobes, hfields⟩ :=
    walk_fields Document.new (R := fun stored doc _ => Probes wanted probed stored doc) h hbody
      (fun _ _ => hstart) "decode_document_probed: not a document"
  refine ⟨p, ?_, fun name => Document.value_eq_of_map_raw ?_⟩
  · simp only [decodeDocumentProbed, Reader.whole, Reader.bind_apply, hhead, Reader.ensure,
      if_pos hcount, hloop]
  · rw [Document.map_raw_get, hprobes name, ← hfields, ← Document.map_raw_get]
    unfold probedField
    split
    · cases doc.get name with
      | none => rfl
      | some v => exact congrArg some v.raw_nullness.symm
    · split <;> rfl

end Probed

/-! ## Names -/

/-- The callback is handed the names of the stored fields in order. -/
theorem StoredAs.scanFieldNames {bytes : List UInt8} {stored : List (String × RawValue)}
    (h : StoredAs bytes stored) {σ : Type} (f : σ → String → σ) (state : σ) :
    scanFieldNames bytes f state = .ok ((stored.map Prod.fst).foldl f state) := by
  have hbody : ∀ (done : List (String × RawValue)) (now : σ) (input : List UInt8)
      (g : String × RawValue) (rest : List UInt8), now = (done.map Prod.fst).foldl f state →
      readField input = .ok (g, rest) →
        ∃ next, (do
            let name ← readString
            skipValue
            pure (f now name) : ValueReader σ) input = .ok (next, rest) ∧
          next = ((done ++ [g]).map Prod.fst).foldl f state := by
    rintro done now input ⟨name, v⟩ rest hnow hread
    obtain ⟨middle, -, hstring, hv⟩ := readField_eq_ok hread
    refine ⟨f now name, ?_, ?_⟩
    · rw [Reader.bind_of_ok hstring, Reader.bind_of_ok (skipValue_eq_ok hv)]
      rfl
    · rw [hnow, List.map_append, List.foldl_append]
      rfl
  obtain ⟨n, start, last, hhead, hcount, hloop, hlast⟩ :=
    h.walk state (R := fun done now _ => now = (done.map Prod.fst).foldl f state) hbody
      (fun _ _ => rfl) "scan_field_names: not a document"
  rw [← hlast]
  simp only [Skaidb.scanFieldNames, Reader.whole, Reader.bind_apply, hhead, Reader.ensure,
    if_pos hcount] at hloop ⊢
  rw [hloop]

/-- A row stores its fields in one way, so what a scan finds in it is determined by its bytes. -/
theorem StoredAs.unique {bytes : List UInt8} {stored stored' : List (String × RawValue)}
    (h : StoredAs bytes stored) (h' : StoredAs bytes stored') : stored = stored' := by
  obtain ⟨body, n, start, rfl, hn, -, hstored⟩ := h
  obtain ⟨body', n', start', hbytes, hn', -, hstored'⟩ := h'
  obtain rfl := (List.cons.inj hbytes).2
  rw [hn] at hn'
  obtain ⟨rfl, rfl⟩ := Prod.mk.inj (Except.ok.inj hn')
  rw [hstored] at hstored'
  exact (Prod.mk.inj (Except.ok.inj hstored')).1

/-- **Probed decode and names.** On a row that decodes to a document the probed decode maps
each probed field to null or true as the field is null or not, each other field that is wanted
or reserved to its value, and nothing else; and the scan of the names hands out exactly the
names of the document, in its order and each once when the row is its encoding. -/
theorem decodeDocumentProbed_and_names (bytes : List UInt8) (doc : Document)
    (h : Value.decode bytes = .ok (Value.ofDocument doc)) (wanted probed : NameSet) :
    (∃ p, decodeDocumentProbed bytes wanted probed = .ok p ∧
      ∀ name, p.get name =
        if name ∈ probed.names then (doc.get name).map Value.nullness
        else if name ∈ wanted.names ∨ (utf8 name).head? = some 1 then doc.get name
        else none) ∧
    ∃ names : List String,
      (∀ (σ : Type) (f : σ → String → σ) (state : σ),
        scanFieldNames bytes f state = .ok (names.foldl f state)) ∧
      (∀ name, name ∈ names ↔ doc.get name ≠ none) ∧
      (bytes = encodeDocument doc → names = doc.fields.map Prod.fst) := by
  constructor
  · obtain ⟨p, hp, hget⟩ := decodeDocumentProbed_eq h wanted probed
    refine ⟨p, hp, fun name => ?_⟩
    rw [hget name, probedField]
    simp [Kept, isReserved]
  · obtain ⟨stored, hstored, hfields⟩ := storedAs_of_decode h
    refine ⟨stored.map Prod.fst, fun σ f state => hstored.scanFieldNames f state, ?_, ?_⟩
    · intro name
      rw [Document.get_ne_none_iff, hfields, Ascending.mem_keys_ofList utf8 utf8_inj]
    · rintro rfl
      have hsized := (Value.sized_of_decode h).1
      rw [hstored.unique (storedAs_encodeDocument hsized)]

/-- A repeated field that is probed answers by its last value, and its name is handed out
twice. -/
theorem decodeDocumentProbed_and_names_repeated :
    (∃ p, decodeDocumentProbed repeatedRow ⟨[], List.nodup_nil⟩
        ⟨["a", "b"], by decide⟩ = .ok p ∧
      p.get "a" = some (Value.bool true) ∧ p.get "b" = some Value.null) ∧
    scanFieldNames repeatedRow (fun names name => names ++ [name]) [] = .ok ["a", "b", "a"] := by
  obtain ⟨⟨p, hp, hget⟩, -⟩ := decodeDocumentProbed_and_names repeatedRow repeatedDocument
    decode_repeatedRow ⟨[], List.nodup_nil⟩ ⟨["a", "b"], by decide⟩
  refine ⟨⟨p, hp, ?_, ?_⟩, by rfl⟩
  · rw [hget, if_pos (by decide)]
    rfl
  · rw [hget, if_pos (by decide)]
    rfl

/-! ## The probe for reserved fields -/

/-- No name behind one that starts with a greater byte is reserved. -/
theorem not_isReserved_of_lt {x y : List UInt8} {b : UInt8} (hlt : compare x y = .lt)
    (hx : x.head? = some b) (hb : 1 < b) : isReserved y = false := by
  obtain ⟨x', rfl⟩ : ∃ x', x = b :: x' := by
    cases x with
    | nil => cases hx
    | cons a x' => exact ⟨x', by rw [Option.some.inj hx]⟩
  cases y with
  | nil => rfl
  | cons c y =>
    have hne : c ≠ 1 := by
      rintro rfl
      have hgt : compare b 1 = .gt := by
        rw [Std.OrientedOrd.eq_swap, show compare 1 b = .lt from if_pos hb]
        rfl
      rw [List.compare_cons_cons, hgt] at hlt
      cases hlt
    simp [isReserved, hne]

/-- The probe finds a reserved field among fields in order exactly when there is one. -/
theorem probeReserved_eq {n : ℕ} {input rest : List UInt8} {fields : List (String × RawValue)}
    (h : Reader.times n readField input = .ok (fields, rest))
    (hsorted : Ascending.Sorted utf8 fields) :
    ∃ left, probeReserved n input = .ok (fields.any fun f => isReserved (utf8 f.1), left) := by
  induction n generalizing input fields with
  | zero =>
    obtain ⟨rfl, rfl⟩ : [] = fields ∧ input = rest := by simpa [Reader.times] using h
    exact ⟨input, rfl⟩
  | succ n ih =>
    obtain ⟨⟨name, v⟩, middle, hread, h⟩ := Reader.bind_eq_ok h
    obtain ⟨tail, middle', htail, hout⟩ := Reader.bind_eq_ok h
    obtain ⟨rfl, rfl⟩ : (name, v) :: tail = fields ∧ middle' = rest := by simpa using hout
    obtain ⟨hfirst, hrest⟩ := List.pairwise_cons.mp hsorted
    obtain ⟨value, hbytes, -, hv⟩ := readField_eq_ok hread
    have hskip := skipValue_eq_ok hv
    obtain ⟨left, hleft⟩ := ih htail hrest
    rw [probeReserved, Reader.bind_of_ok hbytes, List.any_cons]
    unfold isReserved at hleft ⊢
    dsimp only
    cases hhead : (utf8 name).head? with
    | none =>
      refine ⟨left, ?_⟩
      dsimp only
      rw [Reader.bind_of_ok hskip, hleft]
      rfl
    | some b =>
      dsimp only
      by_cases hone : b = 1
      · exact ⟨value, by rw [if_pos hone, hone]; rfl⟩
      · rw [if_neg hone]
        by_cases hbehind : b > 1
        · -- The names behind this one start with a greater byte too.
          have hnone : (tail.any fun f => (utf8 f.1).head? == some 1) = false := by
            refine List.any_eq_false.mpr fun f hf => ?_
            have hreserved := not_isReserved_of_lt (hfirst f hf) hhead hbehind
            unfold isReserved at hreserved
            rw [hreserved]
            decide
          refine ⟨value, ?_⟩
          rw [if_pos hbehind, hnone]
          simp [hone]
        · refine ⟨left, ?_⟩
          rw [if_neg hbehind, Reader.bind_of_ok hskip, hleft]
          simp [hone]

/-- The probe of the encoding of a document whose lengths fit. -/
theorem docHasReserved_encodeDocument {doc : Document} (h : (Value.ofDocument doc).Sized) :
    docHasReserved (encodeDocument doc) = .ok doc.hasReserved := by
  obtain ⟨body, n, start, hbytes, hn, -, hstored⟩ := storedAs_encodeDocument h
  have hsorted : Ascending.Sorted utf8 doc.fields := doc.wellFormed.self
  obtain ⟨left, hprobe⟩ := probeReserved_eq hstored hsorted
  have hcount : documentCount "doc_has_reserved: not a document" (encodeDocument doc) =
      .ok (n, start) := by
    rw [hbytes]
    exact hn
  rw [docHasReserved, Reader.parse, Reader.bind_of_ok hcount, hprobe]
  rfl

/-- **Reserved fields.** The probe of the encoding of a document whose counts and lengths fit
their fields of 32 bits succeeds, tells whether the name of a field starts with `0x01`, and
agrees with the flag of the positional scan. -/
theorem docHasReserved_spec (doc : Document) (h : (Value.ofDocument doc).Sized)
    (wanted : List String) :
    ∃ reserved vals, docHasReserved (encodeDocument doc) = .ok reserved ∧
      (reserved = true ↔ ∃ name, doc.get name ≠ none ∧ (utf8 name).head? = some 1) ∧
      scanFields (encodeDocument doc) wanted = .ok (vals, reserved) :=
  ⟨doc.hasReserved, _, docHasReserved_encodeDocument h, Document.hasReserved_iff,
    scanFields_eq (Value.decode_encode h) wanted⟩

/-- A document with one reserved field among three is seen to have one. -/
theorem docHasReserved_spec_three :
    ∃ reserved vals, docHasReserved (encodeDocument ⟨[("", .null), ("\x01m", .int 7),
        ("a", .array [.null])], by decide⟩) = .ok reserved ∧
      scanFields (encodeDocument ⟨[("", .null), ("\x01m", .int 7), ("a", .array [.null])],
        by decide⟩) ["a"] = .ok (vals, reserved) := by
  obtain ⟨reserved, vals, hprobe, -, hscan⟩ := docHasReserved_spec
    ⟨[("", .null), ("\x01m", .int 7), ("a", .array [.null])], by decide⟩
    (by decide : RawValue.Sized _) ["a"]
  exact ⟨reserved, vals, hprobe, hscan⟩

/-- A name of `n` characters `U+0000`, whose bytes are all zero. -/
def zeroName (n : ℕ) : String := String.ofList (List.replicate n '\x00')

/-- A name of `n` NUL characters takes `n` zero bytes, one for each. -/
theorem utf8_zeroName (n : ℕ) : utf8 (zeroName n) = List.replicate n 0 := by
  rw [utf8_eq_flatMap, zeroName, String.toList_ofList]
  induction n with
  | zero => rfl
  | succ n ih =>
    rw [List.replicate_succ, List.flatMap_cons, ih, List.replicate_succ]
    rfl

/-- A document with a name of that length and a reserved field behind it. -/
def zeroDocument (n : ℕ) : Document where
  fields := [(zeroName n, .null), ("\x01", .null)]
  wellFormed := by
    refine RawValue.everywhere_document.mpr ⟨?_, by simp [RawValue.Everywhere, RawValue.HasMap]⟩
    have hlt : compare (utf8 (zeroName n)) (utf8 "\x01") = .lt := by
      rw [utf8_zeroName]
      cases n with
      | zero => decide
      | succ n =>
        rw [List.replicate_succ, show utf8 "\x01" = [1] from rfl, List.compare_cons_cons]
        rfl
    exact List.pairwise_pair.mpr hlt

/-- Five zero bytes are an empty name and a null. -/
theorem probeReserved_zeros (n : ℕ) (rest : List UInt8) :
    probeReserved (n + 1) (0 :: 0 :: 0 :: 0 :: 0 :: rest) = probeReserved n rest := by
  have hbytes : readBytes (0 :: 0 :: 0 :: 0 :: 0 :: rest) = .ok ([], 0 :: rest) :=
    @readBytes_reads [] (by decide) (0 :: rest)
  have hnull : readValue (0 :: rest) = .ok (.null, rest) :=
    readValue_encodeValue (v := .null) ⟨trivial, trivial⟩ rest
  rw [probeReserved, Reader.bind_of_ok hbytes]
  exact Reader.bind_of_ok (skipValue_eq_ok hnull) _

/-- A name whose length is cut to zero is taken for two empty names with null values, and the
reserved field behind it is not found. -/
theorem docHasReserved_zeroDocument {n : ℕ} (hn : n % 256 ^ 4 = 0) (hlong : 6 ≤ n) :
    docHasReserved (encodeDocument (zeroDocument n)) = .ok false := by
  obtain ⟨m, rfl⟩ : ∃ m, n = m + 6 := ⟨n - 6, by omega⟩
  have hzero : leBytes 4 (m + 6) = [0, 0, 0, 0] := by
    have h0 : (m + 6) % 256 = 0 := by omega
    have h1 : (m + 6) / 256 % 256 = 0 := by omega
    have h2 : (m + 6) / 256 / 256 % 256 = 0 := by omega
    have h3 : (m + 6) / 256 / 256 / 256 % 256 = 0 := by omega
    rw [leBytes, leBytes, leBytes, leBytes, leBytes, h0, h1, h2, h3]
    rfl
  have hname : writeBytes (utf8 (zeroName (m + 6))) =
      0 :: 0 :: 0 :: 0 :: 0 :: 0 :: 0 :: 0 :: 0 :: 0 :: List.replicate m 0 := by
    rw [utf8_zeroName, writeBytes, List.length_replicate, hzero]
    rfl
  have hcount : documentCount "doc_has_reserved: not a document"
      (encodeDocument (zeroDocument (m + 6))) =
        .ok (2, encodeFields (zeroDocument (m + 6)).fields) :=
    readU32_reads (n := 2) (by decide) _
  have hfields : ∃ rest, encodeFields (zeroDocument (m + 6)).fields =
      0 :: 0 :: 0 :: 0 :: 0 :: 0 :: 0 :: 0 :: 0 :: 0 :: rest := by
    refine ⟨List.replicate m 0 ++ (encodeValue .null ++ encodeFields [("\x01", .null)]), ?_⟩
    rw [zeroDocument, encodeFields, hname]
    simp
  obtain ⟨rest, hrest⟩ := hfields
  rw [docHasReserved, Reader.parse, Reader.bind_of_ok hcount, hrest, probeReserved_zeros,
    probeReserved_zeros]
  rfl

/-- **A name of 4 GiB.** The probe does not find the reserved field of a document whose other
name has `2 ^ 32` bytes. -/
theorem docHasReserved_misses :
    docHasReserved (encodeDocument (zeroDocument (2 ^ 32))) = .ok false ∧
      (zeroDocument (2 ^ 32)).get "\x01" = some Value.null := by
  have hget (n : ℕ) : (zeroDocument n).get "\x01" = some Value.null := by
    apply Document.value_eq_of_map_raw
    rw [Document.map_raw_get, zeroDocument, List.lookup_cons]
    split <;> rfl
  exact ⟨docHasReserved_zeroDocument (by norm_num) (by norm_num), hget _⟩

end Skaidb
