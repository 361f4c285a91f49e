import Skaidb.Types.ScanCorrect

/-!
# Scans by position

A scan hands a field to the first position that asks for its name, so a name that is
asked for twice leaves its later positions empty. The ranges behind a group key go to
every position, and the key made from them is the key of the decoded values.
-/

namespace Skaidb

open Codec

/-! ## Positions -/

section Positions

variable {α γ : Type}

/-- The values of names by position, each at the first position of its name only. -/
def byFirst (wanted : List String) (get : String → Option α) : List (Option α) :=
  wanted.mapIdx fun i w => if wanted.idxOf? w = some i then get w else none

/-- A name that occurs at two positions has no value. -/
def NoValueTwice (wanted : List String) (get : String → Option α) : Prop :=
  ∀ (i j : ℕ) (w : String), i < j → wanted[i]? = some w → wanted[j]? = some w → get w = none

/-- The first position of a name is no later than any other. -/
theorem idxOf?_of_getElem? {wanted : List String} {j : ℕ} {w : String}
    (h : wanted[j]? = some w) :
    ∃ i, i ≤ j ∧ wanted.idxOf? w = some i ∧ wanted[i]? = some w := by
  obtain ⟨i, hi⟩ := Option.isSome_iff_exists.mp
    (List.isSome_idxOf?.mpr (List.mem_of_getElem? h))
  obtain ⟨hlt, hw, hbefore⟩ := List.idxOf?_eq_some_iff.mp hi
  refine ⟨i, ?_, hi, List.getElem?_eq_some_iff.mpr ⟨hlt, hw⟩⟩
  by_contra hji
  obtain ⟨_, hj⟩ := List.getElem?_eq_some_iff.mp h
  exact hbefore j (not_le.mp hji) hj

/-- The entry at a position belongs to the name wanted there, if this is where that name stands
first. -/
theorem getElem?_byFirst (wanted : List String) (get : String → Option α) (i : ℕ) :
    (byFirst wanted get)[i]? =
      wanted[i]?.map fun w => if wanted.idxOf? w = some i then get w else none := by
  rw [byFirst, List.getElem?_mapIdx]

/-- Every position has the value of its name exactly when no name with a value occurs
twice. -/
theorem byFirst_eq_map_iff {wanted : List String} {get : String → Option α} :
    byFirst wanted get = wanted.map get ↔ NoValueTwice wanted get := by
  constructor
  · intro h i j w hij hi hj
    obtain ⟨k, hki, hk, -⟩ := idxOf?_of_getElem? hi
    have hvalue := congrArg (·[j]?) h
    have hne : ¬ wanted.idxOf? w = some j := by
      rw [hk]
      intro heq
      have := Option.some.inj heq
      omega
    simp only [getElem?_byFirst, List.getElem?_map, hj, Option.map_some, if_neg hne] at hvalue
    exact (Option.some.inj hvalue).symm
  · intro h
    refine List.ext_getElem? fun j => ?_
    rw [getElem?_byFirst, List.getElem?_map]
    cases hj : wanted[j]? with
    | none => rfl
    | some w =>
      obtain ⟨i, hij, hi, hw⟩ := idxOf?_of_getElem? hj
      simp only [Option.map_some, hi]
      split
      · rfl
      · next hne =>
        have hlt : i < j := lt_of_le_of_ne hij fun heq => hne (congrArg some heq)
        rw [h i j w hlt hw hj]

/-- A value that is set goes to the first position of its name. -/
theorem byFirst_set (wanted : List String) (get : String → Option α) (name : String) (v : α) :
    byFirst wanted (fun w => if w == name then some v else get w) =
      match wanted.idxOf? name with
      | some i => (byFirst wanted get).set i (some v)
      | none => byFirst wanted get := by
  refine List.ext_getElem? fun j => ?_
  cases hfirst : wanted.idxOf? name with
  | none =>
    rw [getElem?_byFirst, getElem?_byFirst]
    cases hj : wanted[j]? with
    | none => rfl
    | some w =>
      have hne : w ≠ name := by
        rintro rfl
        exact List.idxOf?_eq_none_iff.mp hfirst (List.mem_of_getElem? hj)
      simp [hne]
  | some i =>
    obtain ⟨hlt, hw, -⟩ := List.idxOf?_eq_some_iff.mp hfirst
    have hi : wanted[i]? = some name := List.getElem?_eq_some_iff.mpr ⟨hlt, hw⟩
    by_cases hij : i = j
    · subst hij
      have hlen : i < (byFirst wanted get).length := by
        simpa [byFirst] using hlt
      rw [List.getElem?_set_self hlen, getElem?_byFirst, hi]
      simp [hfirst]
    · rw [List.getElem?_set_ne hij, getElem?_byFirst, getElem?_byFirst]
      cases hj : wanted[j]? with
      | none => rfl
      | some w =>
        by_cases hname : w = name
        · simp [hname, hfirst, hij]
        · simp [hname]

/-- Converting every gathered value is gathering the converted values. -/
theorem map_byFirst (wanted : List String) (get : String → Option α) (f : α → γ) :
    (byFirst wanted get).map (Option.map f) = byFirst wanted fun w => (get w).map f := by
  refine List.ext_getElem? fun j => ?_
  rw [List.getElem?_map, getElem?_byFirst, getElem?_byFirst, Option.map_map]
  cases wanted[j]? with
  | none => rfl
  | some w =>
    simp only [Option.map_some, Function.comp]
    split <;> rfl

end Positions

/-- Comparing names by their bytes finds the same position as comparing them as texts. -/
theorem findIdx?_utf8 (wanted : List String) (name : String) :
    (wanted.findIdx? fun w => utf8 w == utf8 name) = wanted.idxOf? name := by
  rw [List.idxOf?]
  refine congrArg (wanted.findIdx? ·) (funext fun w => ?_)
  rw [Bool.eq_iff_iff, beq_iff_eq, beq_iff_eq]
  exact ⟨fun h => utf8_injective h, fun h => h ▸ rfl⟩

/-- A value that is read goes to the first position of its name. -/
def setFirst (wanted : List String) (name : String) (v : Value) (vals : List (Option Value)) :
    List (Option Value) :=
  match wanted.idxOf? name with
  | some i => vals.set i (some v)
  | none => vals

/-- The values gathered so far are those of the stored fields, each where its name is wanted
first. -/
def Gathers (wanted : List String) (stored : List (String × RawValue))
    (vals : List (Option Value)) : Prop :=
  vals.map (Option.map Value.raw) = byFirst wanted fun w => (Ascending.ofList utf8 stored).lookup w

/-- What has been gathered stays right when one more stored value is put in its place. -/
theorem Gathers.step {wanted : List String} {stored : List (String × RawValue)}
    {vals : List (Option Value)} (h : Gathers wanted stored vals) (name : String) (v : Value) :
    Gathers wanted (stored ++ [(name, v.raw)]) (setFirst wanted name v vals) := by
  have hlookup : (fun w => (Ascending.ofList utf8 (stored ++ [(name, v.raw)])).lookup w) =
      fun w => if w == name then some v.raw else (Ascending.ofList utf8 stored).lookup w := by
    funext w
    rw [Ascending.ofList_append_singleton, Ascending.lookup_insert utf8 utf8_inj]
  unfold Gathers at h ⊢
  rw [hlookup, byFirst_set, ← h, setFirst]
  split
  · rw [List.map_set]
    rfl
  · rfl

/-- Once all fields of a document are read, the values gathered are what its fields hold. -/
theorem Gathers.eq {wanted : List String} {stored : List (String × RawValue)}
    {vals : List (Option Value)} {doc : Document} (h : Gathers wanted stored vals)
    (hfields : doc.fields = Ascending.ofList utf8 stored) : vals = byFirst wanted doc.get := by
  have hinj : Function.Injective (Option.map Value.raw) :=
    fun _ _ hab => Document.value_eq_of_map_raw hab
  refine List.map_injective_iff.mpr hinj ?_
  rw [h, map_byFirst, ← hfields]
  exact congrArg _ (funext fun w => (doc.map_raw_get w).symm)

/-- A field of the document has a name that is reserved, as the scans report it. -/
def Document.hasReserved (doc : Document) : Bool := doc.fields.any fun f => isReserved (utf8 f.1)

/-- The document has a reserved field when one is stored. -/
theorem hasReserved_eq_any {doc : Document} {stored : List (String × RawValue)}
    (hfields : doc.fields = Ascending.ofList utf8 stored) :
    doc.hasReserved = stored.any fun f => isReserved (utf8 f.1) := by
  have hnames (fields : List (String × RawValue)) :
      (fields.any fun f => isReserved (utf8 f.1)) = true ↔
        ∃ name ∈ fields.map Prod.fst, isReserved (utf8 name) = true := by
    simp
  rw [Document.hasReserved, Bool.eq_iff_iff, hnames, hnames, hfields]
  simp only [Ascending.mem_keys_ofList utf8 utf8_inj]

/-- What a walk knows of the fields read so far: the gathered values and the reserved flag. -/
def Scanned (wanted : List String) (stored : List (String × RawValue))
    (vals : List (Option Value)) (reserved : Bool) : Prop :=
  Gathers wanted stored vals ∧ reserved = stored.any fun f => isReserved (utf8 f.1)

/-- Before the first field, a positional scan has nothing gathered and no reserved field seen. -/
theorem Scanned.start (wanted : List String) :
    Scanned wanted [] (List.replicate wanted.length none) false := by
  refine ⟨List.ext_getElem? fun i => ?_, rfl⟩
  rw [getElem?_byFirst, List.getElem?_map, List.getElem?_replicate]
  by_cases hi : i < wanted.length
  · simp [hi, Ascending.ofList]
  · simp [hi]

/-- The state of the positional scan stays right when the loop reads one more field. -/
theorem Scanned.step {wanted : List String} {stored : List (String × RawValue)}
    {vals : List (Option Value)} {reserved : Bool} (h : Scanned wanted stored vals reserved)
    (name : String) (v : Value) :
    Scanned wanted (stored ++ [(name, v.raw)]) (setFirst wanted name v vals)
      (reserved || isReserved (utf8 name)) :=
  ⟨h.1.step name v, by simp [h.2]⟩

/-- What a walk over all fields of a document has gathered. -/
theorem Scanned.eq {wanted : List String} {stored : List (String × RawValue)}
    {vals : List (Option Value)} {reserved : Bool} {doc : Document}
    (h : Scanned wanted stored vals reserved)
    (hfields : doc.fields = Ascending.ofList utf8 stored) :
    vals = byFirst wanted doc.get ∧ reserved = doc.hasReserved :=
  ⟨h.1.eq hfields, h.2.trans (hasReserved_eq_any hfields).symm⟩

/-! ## Positional scan -/

/-- A document has a reserved field exactly when one of its names begins with the marker byte. -/
theorem Document.hasReserved_iff {doc : Document} :
    doc.hasReserved = true ↔ ∃ name, doc.get name ≠ none ∧ (utf8 name).head? = some 1 := by
  simp only [Document.hasReserved, List.any_eq_true, isReserved, beq_iff_eq,
    Document.get_ne_none_iff, List.mem_map]
  constructor
  · rintro ⟨f, hf, hname⟩
    exact ⟨f.1, ⟨f, hf, rfl⟩, hname⟩
  · rintro ⟨name, ⟨f, hf, rfl⟩, hname⟩
    exact ⟨f, hf, hname⟩

/-- A field read by the positional scan fills the place of its name and may be a reserved one. -/
theorem scanField_eq_ok {wanted : List String} {input middle rest : List UInt8} {name : String}
    {v : Value} (state : List (Option Value) × Bool)
    (hname : readBytes input = .ok (utf8 name, middle)) (hv : Value.read middle = .ok (v, rest)) :
    scanField wanted state input =
      .ok ((setFirst wanted name v state.1, state.2 || isReserved (utf8 name)), rest) := by
  have hskip := skipValue_eq_ok (Value.read_eq_ok.mp hv)
  unfold scanField setFirst
  rw [Reader.bind_of_ok hname]
  simp only [findIdx?_utf8]
  cases wanted.idxOf? name with
  | some i => exact Reader.bind_of_ok hv _
  | none => exact Reader.bind_of_ok hskip _

/-- A positional scan of a row that decodes to a document gives each name its value at the
first of its positions. -/
theorem scanFields_eq {bytes : List UInt8} {doc : Document}
    (h : Value.decode bytes = .ok (Value.ofDocument doc)) (wanted : List String) :
    scanFields bytes wanted = .ok (byFirst wanted doc.get, doc.hasReserved) := by
  have hbody : ∀ (stored : List (String × RawValue)) (state : List (Option Value) × Bool)
      (input : List UInt8) (f : String × RawValue) (rest : List UInt8),
      Scanned wanted stored state.1 state.2 → readField input = .ok (f, rest) →
        ∃ state', scanField wanted state input = .ok (state', rest) ∧
          Scanned wanted (stored ++ [f]) state'.1 state'.2 := by
    rintro stored state input ⟨name, v⟩ rest hstate hread
    obtain ⟨middle, hbytes, -, hv⟩ := readField_eq_ok hread
    obtain ⟨value, rfl, hvalue⟩ := Value.read_of_readValue hv
    exact ⟨_, scanField_eq_ok state hbytes hvalue, hstate.step name value⟩
  obtain ⟨n, start, stored, state, hhead, -, hloop, hstate, hfields⟩ :=
    walk_fields (List.replicate wanted.length none, false)
      (R := fun stored state _ => Scanned wanted stored state.1 state.2) h hbody
      (fun _ _ => Scanned.start wanted) "scan_fields: not a document"
  obtain ⟨hvals, hreserved⟩ := hstate.eq hfields
  rw [← hvals, ← hreserved]
  simp only [scanFields, Reader.whole, Reader.bind_apply, hhead, hloop]

/-! ## Ranges of key fields -/

/-- The bytes of the document between the two ends of a range that the scan reports. -/
def slice (bytes : List UInt8) (span : ℕ × ℕ) : List UInt8 :=
  (bytes.drop span.1).take (span.2 - span.1)

/-- The range of a value in a row of which `input` is what is left before it. -/
theorem slice_of_append {bytes input used rest : List UInt8} (hsuffix : input <:+ bytes)
    (hinput : input = used ++ rest) :
    slice bytes (bytes.length - input.length, bytes.length - rest.length) = used := by
  obtain ⟨front, rfl⟩ := hsuffix
  subst hinput
  have hstart : (front ++ (used ++ rest)).length - (used ++ rest).length = front.length := by
    simp
  have hspan : (front ++ (used ++ rest)).length - rest.length - front.length = used.length := by
    simp only [List.length_append]
    omega
  simp only [slice, hstart, hspan, List.drop_left, List.take_left]

/-- The recorded ranges hold the encodings of the stored values of the key fields. -/
def Located (bytes : List UInt8) (keyFields : List String) (stored : List (String × RawValue))
    (spans : List (Option (ℕ × ℕ))) : Prop :=
  List.Forall₂ (fun w span => Option.Rel (fun span v => readValue (slice bytes span) = .ok (v, []))
    span ((Ascending.ofList utf8 stored).lookup w)) keyFields spans

/-- Before the first field is looked at no range is recorded, which is where the walk over a row
begins. -/
theorem Located.start (bytes : List UInt8) (keyFields : List String) :
    Located bytes keyFields [] (List.replicate keyFields.length none) := by
  induction keyFields with
  | nil => exact List.Forall₂.nil
  | cons w keyFields ih => exact List.Forall₂.cons Option.Rel.none ih

/-- The range of one more field is recorded at every position of its name. -/
theorem Located.step {bytes : List UInt8} {keyFields : List String}
    {stored : List (String × RawValue)} {spans : List (Option (ℕ × ℕ))}
    (h : Located bytes keyFields stored spans) {name : String} {v : RawValue} {span : ℕ × ℕ}
    (hspan : readValue (slice bytes span) = .ok (v, [])) :
    Located bytes keyFields (stored ++ [(name, v)])
      (markSpans keyFields (utf8 name) span spans) := by
  unfold markSpans
  induction h with
  | nil => exact List.Forall₂.nil
  | @cons w old keyFields spans hold _ ih =>
    refine List.Forall₂.cons ?_ ih
    rw [Ascending.ofList_append_singleton, Ascending.lookup_insert utf8 utf8_inj]
    by_cases hw : w = name
    · subst hw
      simpa using Option.Rel.some hspan
    · have hbytes : utf8 w ≠ utf8 name := fun heq => hw (utf8_injective heq)
      simpa [hw, hbytes] using hold

/-- A field that is no key field moves no range. -/
theorem Located.skip {bytes : List UInt8} {keyFields : List String}
    {stored : List (String × RawValue)} {spans : List (Option (ℕ × ℕ))}
    (h : Located bytes keyFields stored spans) {name : String} (hname : name ∉ keyFields)
    (v : RawValue) : Located bytes keyFields (stored ++ [(name, v)]) spans := by
  induction h with
  | nil => exact List.Forall₂.nil
  | @cons w old keyFields spans hold _ ih =>
    obtain ⟨hw, hrest⟩ := not_or.mp (mt List.mem_cons.mpr hname)
    refine List.Forall₂.cons ?_ (ih hrest)
    rw [Ascending.ofList_append_singleton, Ascending.lookup_insert utf8 utf8_inj,
      beq_eq_false_iff_ne.mpr (Ne.symm hw)]
    exact hold

/-! ## Grouped scan -/

/-- The ranges of the key fields after one more field, which is noted where it is one of them. -/
def nextSpans (keyFields : List String) (name : String) (span : ℕ × ℕ)
    (spans : List (Option (ℕ × ℕ))) : List (Option (ℕ × ℕ)) :=
  if name ∈ keyFields then markSpans keyFields (utf8 name) span spans else spans

/-- Comparing a name with the key fields by their bytes says whether it is one of them. -/
theorem any_utf8 (keyFields : List String) (name : String) :
    (keyFields.any fun w => utf8 w == utf8 name) = decide (name ∈ keyFields) := by
  rw [Bool.eq_iff_iff, List.any_eq_true, decide_eq_true_iff]
  constructor
  · rintro ⟨w, hw, heq⟩
    rwa [← utf8_injective (beq_iff_eq.mp heq)]
  · intro hname
    exact ⟨name, hname, beq_self_eq_true _⟩

/-- A field read by the grouped scan fills its place, its range and the reserved flag. -/
theorem groupField_eq_ok {total : ℕ} {keyFields valFields : List String}
    {input middle rest : List UInt8} {name : String} {v : Value} (state : GroupScan)
    (hname : readBytes input = .ok (utf8 name, middle)) (hv : Value.read middle = .ok (v, rest)) :
    groupField total keyFields valFields state input =
      .ok (⟨setFirst valFields name v state.vals,
        nextSpans keyFields name (total - middle.length, total - rest.length) state.spans,
        state.reserved || isReserved (utf8 name)⟩, rest) := by
  have hskip := skipValue_eq_ok (Value.read_eq_ok.mp hv)
  have hposition (input : List UInt8) :
      (Reader.position total : ValueReader ℕ) input = .ok (total - input.length, input) := rfl
  unfold groupField setFirst nextSpans
  rw [Reader.bind_of_ok hname]
  simp only [findIdx?_utf8, any_utf8, decide_eq_true_eq]
  cases valFields.idxOf? name with
  | some i =>
    simp only [Option.isNone_some, Bool.false_and, Bool.false_eq_true, if_false]
    rw [Reader.bind_of_ok (hposition middle), Reader.bind_of_ok hv, pure_bind,
      Reader.bind_of_ok (hposition rest)]
    rfl
  | none =>
    by_cases hkey : name ∈ keyFields
    · simp only [hkey, decide_true, Bool.not_true, Bool.and_false, Bool.false_eq_true, if_false,
        if_true]
      rw [Reader.bind_of_ok (hposition middle), Reader.bind_of_ok hskip, pure_bind,
        Reader.bind_of_ok (hposition rest)]
      rfl
    · simp only [hkey, decide_false, Bool.not_false, Option.isNone_none, Bool.and_true, if_true,
        if_false]
      exact Reader.bind_of_ok hskip _

/-- What a grouped walk knows of the fields read so far. -/
structure GroupScanned (bytes : List UInt8) (keyFields valFields : List String)
    (stored : List (String × RawValue)) (state : GroupScan) (input : List UInt8) : Prop where
  /-- The input left is the end of the row. -/
  suffix : input <:+ bytes
  /-- The values and the flag. -/
  scanned : Scanned valFields stored state.vals state.reserved
  /-- The ranges of the key fields. -/
  located : Located bytes keyFields stored state.spans

/-- The state of the group scan stays right when the loop reads one more field, whose bytes it can
point to. -/
theorem GroupScanned.step {bytes : List UInt8} {keyFields valFields : List String}
    {stored : List (String × RawValue)} {state : GroupScan} {input rest : List UInt8}
    {f : String × RawValue} (h : GroupScanned bytes keyFields valFields stored state input)
    (hread : readField input = .ok (f, rest)) :
    ∃ state', groupField bytes.length keyFields valFields state input = .ok (state', rest) ∧
      GroupScanned bytes keyFields valFields (stored ++ [f]) state' rest := by
  obtain ⟨name, v⟩ := f
  obtain ⟨middle, hbytes, -, hv⟩ := readField_eq_ok hread
  obtain ⟨value, rfl, hvalue⟩ := Value.read_of_readValue hv
  obtain ⟨front, hfront, -⟩ := readBytes_local _ _ _ hbytes
  obtain ⟨used, hused, hreads⟩ := readValue_local _ _ _ hv
  have hmiddle : middle <:+ bytes := (hfront ▸ List.suffix_append front middle).trans h.suffix
  have hrest : rest <:+ bytes := (hused ▸ List.suffix_append used rest).trans hmiddle
  have hspan := slice_of_append hmiddle hused
  refine ⟨_, groupField_eq_ok state hbytes hvalue, hrest, h.scanned.step name value, ?_⟩
  unfold nextSpans
  split
  · refine h.located.step ?_
    rw [hspan]
    exact hreads.apply
  · next hname => exact h.located.skip hname value.raw

section Transcode

variable (toF64 : Decimal → UInt64)

/-- The branches after the tag give the key of the value the decoder returns. -/
theorem transcodeTagged_eq_ok {bytes input rest : List UInt8} {tag : UInt8} {v : RawValue}
    (hbytes : readValue bytes = .ok (v, []))
    (h : decodeTagged readValue tag input = .ok (v, rest)) :
    ∃ rest', transcodeTagged toF64 bytes tag input = .ok (encodeInto toF64 v, rest') := by
  have hpure {α : Type} {r : ValueReader α} {f : α → RawValue} {g : α → List UInt8}
      (hfg : ∀ a, g a = encodeInto toF64 (f a))
      (h : (r >>= fun a => pure (f a)) input = .ok (v, rest)) :
      ∃ rest', (r >>= fun a => pure (g a)) input = .ok (encodeInto toF64 v, rest') := by
    obtain ⟨a, middle, ha, hout⟩ := Reader.bind_eq_ok h
    obtain ⟨rfl, rfl⟩ : f a = v ∧ middle = rest := by simpa using hout
    refine ⟨middle, ?_⟩
    rw [Reader.bind_of_ok ha, hfg]
    rfl
  unfold decodeTagged at h
  unfold transcodeTagged
  split at h
  · obtain ⟨rfl, rfl⟩ : RawValue.null = v ∧ input = rest := by simpa using h
    exact ⟨input, by rw [encodeInto]; rfl⟩
  · exact hpure (fun b => by rw [encodeInto]) h
  · exact hpure (fun b => by rw [encodeInto]) h
  · exact hpure (fun b => by rw [encodeInto]) h
  · exact hpure (fun b => by rw [encodeInto]) h
  · obtain ⟨s, middle, hs, hout⟩ := Reader.bind_eq_ok h
    obtain ⟨rfl, rfl⟩ : RawValue.string s = v ∧ middle = rest := by simpa using hout
    obtain ⟨raw, middle', hraw, hout⟩ := Reader.bind_eq_ok hs
    obtain ⟨hvalid, rfl⟩ := Reader.ofOption_eq_ok hout
    refine ⟨middle', ?_⟩
    rw [encodeInto, utf8_of_fromUtf8 hvalid]
    refine (Reader.bind_of_ok hraw _).trans ?_
    rw [hvalid]
    rfl
  · exact hpure (fun b => by rw [encodeInto]) h
  · obtain ⟨u, middle, hu, hout⟩ := Reader.bind_eq_ok h
    obtain ⟨rfl, rfl⟩ : RawValue.uuid u = v ∧ middle = rest := by simpa using hout
    have hread := Reader.Reads.take endOfInput u.length_eq middle
    rw [← readUuid_eq_ok hu] at hread
    refine ⟨middle, ?_⟩
    rw [encodeInto]
    exact Reader.bind_of_ok hread _
  · exact hpure (fun b => by rw [encodeInto]) h
  · generalize readValue bytes = r at hbytes
    subst hbytes
    exact ⟨input, rfl⟩
  · generalize readValue bytes = r at hbytes
    subst hbytes
    exact ⟨input, rfl⟩
  · cases h

/-- The key made from the bytes of a value is the key of the value. -/
theorem transcodeKeyValue_eq {bytes : List UInt8} {v : RawValue}
    (h : readValue bytes = .ok (v, [])) :
    transcodeKeyValue toF64 bytes = .ok (encodeInto toF64 v) := by
  have hread := h
  rw [readValue_eq] at hread
  obtain ⟨tag, body, htag, hbody⟩ := Reader.bind_eq_ok hread
  obtain ⟨rest, hrest⟩ := transcodeTagged_eq_ok toF64 h hbody
  simp only [transcodeKeyValue, Reader.parse, Reader.bind_of_ok htag, hrest]

/-- The keys made from the ranges are the keys of the key fields, null where one is
absent. -/
theorem transcodeSpans_eq {bytes : List UInt8} {keyFields : List String}
    {stored : List (String × RawValue)} {spans : List (Option (ℕ × ℕ))}
    (h : Located bytes keyFields stored spans) :
    transcodeSpans toF64 bytes spans = .ok (keyFields.flatMap fun w =>
      encodeInto toF64 (((Ascending.ofList utf8 stored).lookup w).getD .null)) := by
  induction h with
  | nil => rfl
  | @cons w span keyFields spans hspan _ ih =>
    rw [List.flatMap_cons]
    generalize (Ascending.ofList utf8 stored).lookup w = value at hspan
    cases hspan with
    | none =>
      rw [transcodeSpans, ih, Option.getD_none, encodeInto]
      rfl
    | @some span v hread =>
      have hkey := transcodeKeyValue_eq toF64 hread
      unfold slice at hkey
      rw [transcodeSpans, hkey, ih]
      rfl

/-- The key of a field of a document, null where it is absent. -/
theorem encodeInto_lookup (doc : Document) (w : String) :
    encodeInto toF64 ((doc.fields.lookup w).getD .null) =
      ((doc.get w).getD Value.null).encodeKey toF64 := by
  rw [← doc.map_raw_get w]
  cases doc.get w <;> rfl

/-- A grouped scan of a row that decodes to a document. -/
theorem scanGroupRow_eq {bytes : List UInt8} {doc : Document}
    (h : Value.decode bytes = .ok (Value.ofDocument doc)) (keyFields valFields : List String)
    (keyOut : List UInt8) :
    scanGroupRow toF64 bytes keyFields valFields keyOut =
      .ok (keyOut ++ (if keyFields = [] then []
        else encodeArrayKeyInto toF64 (keyFields.map fun w => (doc.get w).getD Value.null)),
        byFirst valFields doc.get, doc.hasReserved) := by
  obtain ⟨n, start, stored, state, hhead, -, hloop, hstate, hfields⟩ :=
    walk_fields
      ⟨List.replicate valFields.length none, List.replicate keyFields.length none, false⟩
      (R := GroupScanned bytes keyFields valFields) h (fun _ _ _ _ _ hR hread => hR.step hread)
      (fun _ hsuffix => ⟨hsuffix, Scanned.start valFields, Located.start bytes keyFields⟩)
      "scan_group_row: not a document"
  obtain ⟨hvals, hreserved⟩ := hstate.scanned.eq hfields
  have hkeys := transcodeSpans_eq toF64 hstate.located
  simp only [← hfields, encodeInto_lookup] at hkeys
  rw [← hvals, ← hreserved]
  simp only [scanGroupRow, Reader.whole, Reader.bind_apply, hhead, hloop]
  cases keyFields with
  | nil =>
    rw [if_pos rfl, List.append_nil]
    rfl
  | cons w keyFields =>
    rw [if_neg (List.cons_ne_nil w keyFields), encodeArrayKeyInto, List.flatMap_map]
    change (transcodeSpans toF64 bytes state.spans >>= _) = _
    rw [hkeys]
    rfl

/-- **Group keys.** On a row that decodes to a document a grouped scan succeeds and appends
the key that the decoded values of the key fields have, null where a field is absent, or
nothing when there are no key fields; its flag says whether a field is reserved. -/
theorem scanGroupRow_key (bytes : List UInt8) (doc : Document)
    (h : Value.decode bytes = .ok (Value.ofDocument doc)) (keyFields valFields : List String)
    (keyOut : List UInt8) :
    ∃ vals reserved, scanGroupRow toF64 bytes keyFields valFields keyOut =
      .ok (keyOut ++ (if keyFields = [] then []
        else encodeArrayKeyInto toF64 (keyFields.map fun w => (doc.get w).getD Value.null)),
        vals, reserved) ∧
      (reserved = true ↔ ∃ name, doc.get name ≠ none ∧ (utf8 name).head? = some 1) := by
  exact ⟨_, _, scanGroupRow_eq toF64 h keyFields valFields keyOut, Document.hasReserved_iff⟩

/-- **Positional scans.** On a row that decodes to a document the two scans give every
position the value of its name and the right flag exactly when no field of the document is
asked for twice. -/
theorem scan_positional_iff (bytes : List UInt8) (doc : Document)
    (h : Value.decode bytes = .ok (Value.ofDocument doc)) (wanted keyFields : List String)
    (keyOut : List UInt8) :
    (scanFields bytes wanted = .ok (wanted.map doc.get, doc.hasReserved) ↔
      NoValueTwice wanted doc.get) ∧
    ((∃ key, scanGroupRow toF64 bytes keyFields wanted keyOut =
      .ok (key, wanted.map doc.get, doc.hasReserved)) ↔ NoValueTwice wanted doc.get) := by
  rw [scanFields_eq h, scanGroupRow_eq toF64 h, ← byFirst_eq_map_iff]
  constructor
  · simp
  · simp

end Transcode

/-- A key with a repeated and an absent name over the row with a repeated field. -/
theorem scanGroupRow_key_repeated :
    ∃ vals reserved, scanGroupRow (fun _ => 0) repeatedRow ["a", "c", "a"] ["b"] [] =
      .ok (encodeArrayKeyInto (fun _ => 0) [⟨.bool false, by decide⟩, Value.null,
        ⟨.bool false, by decide⟩], vals, reserved) ∧
      (reserved = true ↔ ∃ name, repeatedDocument.get name ≠ none ∧
        (utf8 name).head? = some 1) :=
  scanGroupRow_key (fun _ => 0) repeatedRow repeatedDocument decode_repeatedRow ["a", "c", "a"]
    ["b"] []

/-- A name that is asked for twice leaves its second position empty. -/
theorem scan_positional_repeated :
    Value.decode repeatedRow = .ok (Value.ofDocument repeatedDocument) ∧
      repeatedDocument.get "a" = some ⟨.bool false, by decide⟩ ∧
      scanFields repeatedRow ["a", "a"] = .ok ([some ⟨.bool false, by decide⟩, none], false) ∧
      scanGroupRow (fun _ => 0) repeatedRow [] ["a", "a"] [] =
        .ok ([], [some ⟨.bool false, by decide⟩, none], false) :=
  ⟨decode_repeatedRow, rfl, scanFields_eq decode_repeatedRow ["a", "a"],
    scanGroupRow_eq (fun _ => 0) decode_repeatedRow [] ["a", "a"] []⟩

/-- Names that are asked for once have their values. -/
theorem scan_positional_iff_distinct :
    scanFields repeatedRow ["b", "a"] =
      .ok ([some Value.null, some ⟨.bool false, by decide⟩], false) :=
  (scan_positional_iff (fun _ => 0) repeatedRow repeatedDocument decode_repeatedRow ["b", "a"]
    [] []).1.mpr (byFirst_eq_map_iff.mp rfl)

end Skaidb
