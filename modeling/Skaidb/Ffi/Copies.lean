import Skaidb.Ffi.Values

/-!
# Copies made through the C interface

A caller that asks a value for its type and its parts, down to the last one, and hands what it
is told to the functions that make values, makes a copy. The copy is the value unless a decimal
or a name in it does not come across: the text of a decimal with the least mantissa is refused,
and a name with a NUL arrives with another character in its place.
-/

namespace Skaidb

/-! ## Depth -/

namespace RawValue

mutual

/-- How many values lie one inside the other in a value, itself included: the budget that copying it
needs. -/
def depth : RawValue → ℕ
  | .array items => depthItems items + 1
  | .document fields => depthFields fields + 1
  | .null | .bool _ | .int _ | .float _ | .decimal _ | .string _ | .bytes _ | .uuid _
  | .timestamp _ => 1

/-- The depth of the deepest element of an array, zero for an empty one. -/
def depthItems : List RawValue → ℕ
  | [] => 0
  | v :: items => max (depth v) (depthItems items)

/-- The depth of the deepest value of a document, zero for an empty one. -/
def depthFields : List (String × RawValue) → ℕ
  | [] => 0
  | (_, v) :: fields => max (depth v) (depthFields fields)

end

/-- An element of an array is no deeper than its deepest element, which bounds the copies of the
parts. -/
theorem depth_le_items {items : List RawValue} {v : RawValue} (h : v ∈ items) :
    v.depth ≤ depthItems items := by
  induction items with
  | nil => cases h
  | cons w items ih =>
    rw [depthItems]
    obtain rfl | h := List.mem_cons.mp h
    · omega
    · have := ih h
      omega

/-- A field of a document is no deeper than its deepest field, which bounds the copies of the
parts. -/
theorem depth_le_fields {fields : List (String × RawValue)} {f : String × RawValue}
    (h : f ∈ fields) : f.2.depth ≤ depthFields fields := by
  induction fields with
  | nil => cases h
  | cons g fields ih =>
    obtain ⟨name, w⟩ := g
    rw [depthFields]
    obtain rfl | h := List.mem_cons.mp h
    · dsimp only
      omega
    · have := ih h
      omega

/-- Every value has a depth of one at least, so that a copy goes down into it. -/
theorem depth_pos (v : RawValue) : 0 < v.depth := by
  cases v <;> rw [depth] <;> omega

end RawValue

namespace Ffi

/-! ## Arrays of results -/

/-- A list is mapped without a failure when each of its elements is. -/
theorem mapM_eq_ok_iff {α β ε : Type} {f : α → Except ε β} {l : List α} {r : List β} :
    l.mapM f = .ok r ↔ l.map f = r.map .ok := by
  induction l generalizing r with
  | nil =>
    rw [List.mapM_nil, List.map_nil, eq_comm (a := []), List.map_eq_nil_iff]
    exact ⟨fun h => (Except.ok.inj h).symm, fun h => h ▸ rfl⟩
  | cons a l ih =>
    rw [List.mapM_cons, List.map_cons]
    cases ha : f a with
    | error e =>
      constructor
      · intro h
        cases h
      · intro h
        cases r with
        | nil => cases h
        | cons b r => cases (List.cons.inj h).1
    | ok b =>
      cases hl : l.mapM f with
      | error e =>
        constructor
        · intro h
          cases h
        · intro h
          cases r with
          | nil => cases h
          | cons c r =>
            have hrest := ih.mpr (List.cons.inj h).2
            rw [hl] at hrest
            cases hrest
      | ok bs =>
        have hbs := ih.mp hl
        rw [hbs]
        constructor
        · intro h
          obtain rfl : b :: bs = r := Except.ok.inj h
          rfl
        · intro h
          have hinj : Function.Injective (Except.ok : β → Except ε β) := fun _ _ h =>
            Except.ok.inj h
          have hr : b :: bs = r := List.map_injective_iff.mpr hinj h
          exact congrArg Except.ok hr

/-- All elements of a list, taken by their places. -/
theorem map_getElem?_range {α β : Type} (f : Option α → β) (l : List α) :
    (List.range l.length).map (fun i => f l[i]?) = l.map fun a => f (some a) := by
  apply List.ext_getElem
  · rw [List.length_map, List.length_map, List.length_range]
  · intro i hi hi'
    rw [List.length_map] at hi'
    rw [List.getElem_map, List.getElem_map, List.getElem_range, List.getElem?_eq_getElem hi']

/-- Pointers to values are values, if none of them is NULL. -/
theorem paramsSlice_eq_ok_iff {params : List (Option Value)} {vs : List Value} :
    paramsSlice (some params) = .ok vs ↔ params = vs.map some := by
  rw [paramsSlice, mapM_eq_ok_iff]
  generalize 0 = start
  induction params generalizing vs start with
  | nil => cases vs <;> simp
  | cons p params ih =>
    rw [List.zipIdx_cons, List.map_cons]
    cases vs with
    | nil => simp
    | cons v vs =>
      rw [List.map_cons, List.map_cons, List.cons_eq_cons, List.cons_eq_cons, ih]
      cases p <;> simp [param]

/-- Pointers to values are values, if none of them is NULL. -/
theorem toOption_paramsSlice_eq_some_iff {params : List (Option Value)} {vs : List Value} :
    (paramsSlice (some params)).toOption = some vs ↔ params = vs.map some := by
  rw [← paramsSlice_eq_ok_iff]
  cases paramsSlice (some params) <;> simp [Except.toOption]

/-- The pointers to values are refused exactly when there is a NULL among them. -/
theorem toOption_paramsSlice_eq_none_iff {params : List (Option Value)} :
    (paramsSlice (some params)).toOption = none ↔ none ∈ params := by
  cases h : paramsSlice (some params) with
  | ok vs =>
    rw [paramsSlice_eq_ok_iff.mp h]
    simp [Except.toOption]
  | error e =>
    simp only [Except.toOption, true_iff]
    by_contra hall
    have hsome : params ∈ Set.range (List.map (some : Value → Option Value)) := by
      rw [Set.range_list_map]
      intro p hp
      obtain ⟨v, hv⟩ := Option.ne_none_iff_exists'.mp fun hnone => hall (hnone ▸ hp)
      exact ⟨v, hv.symm⟩
    obtain ⟨vs, rfl⟩ := hsome
    rw [paramsSlice_eq_ok_iff.mpr rfl] at h
    cases h

/-! ## Names -/

/-- A name as it arrives on the other side of the interface: a replacement character stands for each
NUL. -/
def lossy (s : String) : String := if '\x00' ∈ s.toList then replaceNul s else s

/-- The C string of a name is the bytes of what arrives of it. -/
theorem cStringLossy_eq (s : String) : cStringLossy s = utf8 (lossy s) := by
  unfold cStringLossy lossy
  split <;> rfl

/-- There is no NUL in a name that has arrived. -/
theorem nul_notMem_lossy (s : String) : '\x00' ∉ (lossy s).toList := by
  unfold lossy
  split
  · rw [replaceNul, String.toList_ofList, List.mem_map]
    rintro ⟨c, -, hc⟩
    split at hc
    · exact absurd hc (by decide)
    · next hne => exact hne hc
  · next h => exact h

/-- A name with no NUL arrives as it is. -/
theorem lossy_eq_self {s : String} (h : '\x00' ∉ s.toList) : lossy s = s := if_neg h

/-- A C string that the interface has handed out is read by `cstr`, whatever it is for, as the
string that arrived. -/
theorem cstr_cStringLossy (what s : String) :
    cstr what (some (cStringLossy s)) = .ok (lossy s) := by
  rw [cStringLossy_eq]
  simp only [cstr, fromUtf8_utf8]

/-- The names of a document that the interface hands out as C strings are read back one by one, as
they arrive. -/
theorem cstrList_lossy (what : String) (names : List String) :
    cstrList what (some (names.map fun name => some (cStringLossy name))) =
      .ok (names.map lossy) := by
  rw [cstrList, mapM_eq_ok_iff, List.map_map, List.map_map]
  apply List.map_congr_left
  intro name _
  exact cstr_cStringLossy what name

/-! ## Parts of a value -/

/-- The elements of an array, each with its proof, are its elements once the proofs are dropped. -/
theorem map_raw_elements {items : List RawValue} (h : (RawValue.array items).WellFormed) :
    (elements items h).map Value.raw = items := by
  rw [elements, List.map_pmap, List.pmap_eq_map, List.map_id']

/-- The values of the fields are the values of the fields. -/
theorem map_raw_fieldValues {fields : List (String × RawValue)}
    (h : (RawValue.document fields).WellFormed) :
    (fieldValues fields h).map Value.raw = fields.map Prod.snd := by
  rw [fieldValues, List.map_pmap, List.pmap_eq_map]

/-- An array made of values is a given one exactly when they are its elements. -/
theorem arrayOf_eq_iff {items : List RawValue} {h : (RawValue.array items).WellFormed}
    {vs : List Value} : arrayOf vs = ⟨.array items, h⟩ ↔ vs = elements items h := by
  rw [Value.ext_iff]
  have hinj : Function.Injective Value.raw := fun _ _ => Value.ext
  constructor
  · intro heq
    apply List.map_injective_iff.mpr hinj
    rw [map_raw_elements]
    exact RawValue.array.inj heq
  · rintro rfl
    exact congrArg RawValue.array (map_raw_elements h)

/-- A document made of fields one after another has the map of these fields. -/
theorem fields_documentOf (fields : List (String × Value)) :
    (documentOf fields).fields =
      Ascending.ofList utf8 (fields.map fun f => (f.1, f.2.raw)) := by
  induction fields using List.reverseRecOn with
  | nil => rfl
  | append_singleton fields f ih =>
    rw [documentOf, List.foldl_append, List.map_append, List.map_singleton,
      Ascending.ofList_append_singleton, ← ih]
    rfl

/-- A document made of the names of a document as they arrive and of other values is this document
when no name has a NUL and the values are the same. -/
theorem documentOf_lossy_eq_iff {fields : List (String × RawValue)}
    (h : (RawValue.document fields).WellFormed) {vs : List Value}
    (hlen : vs.length = fields.length) :
    Value.ofDocument (documentOf ((fields.map fun f => lossy f.1).zip vs)) =
        ⟨.document fields, h⟩ ↔
      (∀ f ∈ fields, '\x00' ∉ f.1.toList) ∧ vs = fieldValues fields h := by
  have hraw : (((fields.map fun f => lossy f.1).zip vs).map fun f => (f.1, f.2.raw)) =
      (fields.map fun f => lossy f.1).zip (vs.map Value.raw) := by
    rw [List.zip_map_right]
    rfl
  have hlen' : fields.length = (vs.map Value.raw).length := by rw [List.length_map, hlen]
  rw [Value.ext_iff]
  have hdoc : (Value.ofDocument (documentOf ((fields.map fun f => lossy f.1).zip vs))).raw =
      RawValue.document fields ↔
      Ascending.ofList utf8 ((fields.map fun f => lossy f.1).zip (vs.map Value.raw)) = fields := by
    rw [← hraw, ← fields_documentOf, ← RawValue.document.injEq]
    rfl
  have hsorted : Ascending.Sorted utf8 fields := h.self
  -- With names that arrive as they are, the map is the sequence itself.
  have hkept (hnul : ∀ f ∈ fields, '\x00' ∉ f.1.toList) :
      Ascending.ofList utf8 ((fields.map fun f => lossy f.1).zip (vs.map Value.raw)) =
        (fields.map Prod.fst).zip (vs.map Value.raw) := by
    have hnames : (fields.map fun f => lossy f.1) = fields.map Prod.fst :=
      List.map_congr_left fun f hf => lossy_eq_self (hnul f hf)
    rw [hnames]
    apply Ascending.ofList_eq_self
    have hkeys : ((fields.map Prod.fst).zip (vs.map Value.raw)).map Prod.fst =
        fields.map Prod.fst := by
      rw [List.map_fst_zip]
      rw [List.length_map]
      exact hlen'.le
    have hpairs : (fields.map Prod.fst).Pairwise fun a b => compare (utf8 a) (utf8 b) = .lt :=
      List.pairwise_map.mpr hsorted
    rw [← hkeys] at hpairs
    exact List.pairwise_map.mp hpairs
  rw [hdoc]
  constructor
  · intro heq
    have hnul : ∀ f ∈ fields, '\x00' ∉ f.1.toList := by
      intro f hf
      rw [← heq] at hf
      obtain ⟨g, -, hg⟩ := List.mem_map.mp (List.of_mem_zip (Ascending.mem_ofList utf8 hf)).1
      rw [← hg]
      exact nul_notMem_lossy g.1
    refine ⟨hnul, ?_⟩
    rw [hkept hnul] at heq
    have hvalues := congrArg (List.map Prod.snd) heq
    rw [List.map_snd_zip, ← map_raw_fieldValues h] at hvalues
    · exact List.map_injective_iff.mpr (fun _ _ => Value.ext) hvalues
    · rw [List.length_map, List.length_map]
      exact hlen.le
  · rintro ⟨hnul, rfl⟩
    rw [hkept hnul, map_raw_fieldValues]
    exact (List.zip_of_prod rfl rfl).symm

/-! ## Copying -/

/-- A value whose text a decimal is made from is not one with the least mantissa. -/
def ReadsBack : RawValue → Prop
  | .decimal d => d.mantissa ≠ -2 ^ 127
  | _ => True

/-- No name of a document has a NUL. -/
def NamesArrive : RawValue → Prop
  | .document fields => ∀ f ∈ fields, '\x00' ∉ f.1.toList
  | _ => True

instance : DecidablePred ReadsBack
  | .decimal d => inferInstanceAs (Decidable (d.mantissa ≠ -2 ^ 127))
  | .null | .bool _ | .int _ | .float _ | .string _ | .bytes _ | .uuid _ | .timestamp _
  | .array _ | .document _ => .isTrue trivial

instance : DecidablePred NamesArrive
  | .document fields => inferInstanceAs (Decidable (∀ f ∈ fields, '\x00' ∉ f.1.toList))
  | .null | .bool _ | .int _ | .float _ | .decimal _ | .string _ | .bytes _ | .uuid _
  | .timestamp _ | .array _ => .isTrue trivial

section Copying

variable (toF64 : Decimal → UInt64) (jsonText : Value → String)

/-- A copy made by a caller, which goes down into a value as deep as it is told to: what the
value answers is handed to the function that makes values of its type. -/
def copy : ℕ → Option Value → Option Value
  | 0, _ => none
  | depth + 1, v =>
    match valueType v with
    | .null => some valueNull
    | .bool => some (valueBool (valueGetBool v))
    | .int => some (valueInt (valueGetInt toF64 v))
    | .float => some (valueFloat (valueGetFloat toF64 v))
    | .decimal => (valueDecimal (valueToStringDup jsonText v)).toOption
    | .string => (valueStringLen (valueGetString v).1).toOption
    | .bytes => (valueBytes (valueGetBytes v).1).toOption
    | .uuid => (valueUuid (valueGetUuid v)).toOption
    | .timestamp => some (valueTimestamp (valueGetTimestamp v))
    | .array =>
      (valueArray (some ((List.range (valueArrayLen v)).map fun i =>
        copy depth (valueArrayGet v i)))).toOption
    | .document =>
      (valueDocument (some ((List.range (valueDocumentLen v)).map (valueDocumentKey v)))
        (some ((List.range (valueDocumentLen v)).map fun i =>
          copy depth (valueDocumentValue v i)))).toOption

variable {toF64 jsonText}

/-- The text of a decimal is refused exactly when its mantissa is the least one. -/
theorem parseDecimal_decimalText_eq_none_iff (d : Decimal) :
    parseDecimal (decimalText d) = none ↔ d.mantissa = -2 ^ 127 := by
  constructor
  · intro hnone
    by_contra hne
    have hread := (parseDecimal_decimalText d).mpr hne
    rw [hnone] at hread
    cases hread
  · intro hleast
    by_contra hne
    obtain ⟨d', hd'⟩ := Option.ne_none_iff_exists'.mp hne
    obtain ⟨⟨neg, int, frac, hspells, hmantissa, -⟩, hread⟩ :=
      parseDecimal_eq_some_iff_denotes.mp hd'
    obtain ⟨neg', int', frac', hspells', hmantissa', -⟩ := denotes_decimalText d
    obtain ⟨hneg, hparts⟩ := hspells.parts
    obtain ⟨hneg', hparts'⟩ := hspells'.parts
    obtain ⟨rfl, rfl⟩ := Prod.mk.inj (hparts.symm.trans hparts')
    obtain rfl : neg = neg' := hneg.symm.trans hneg'
    exact hread (hmantissa.trans (hmantissa'.symm.trans hleast))

/-- A decimal is copied by its text, and so as far as that text is read back. -/
theorem copy_decimal (depth : ℕ) (d : Decimal) (h : (RawValue.decimal d).WellFormed) :
    copy toF64 jsonText (depth + 1) (some ⟨.decimal d, h⟩) =
      (parseDecimal (decimalText d)).map fun d => ⟨.decimal d, trivial⟩ := by
  have hnul : '\x00' ∉ (decimalText d).toList := by
    obtain ⟨int, frac, hspells, -⟩ := spells_decimalChars d
    rw [decimalText, String.toList_ofList]
    intro hmem
    obtain hsign | hdigit := hspells.char_cases hmem
    · exact absurd hsign (by decide)
    · exact absurd hdigit (by decide)
  have hread : cstr "decimal" (dup (decimalText d)) = .ok (decimalText d) := by
    simp only [dup, cstr, cStringLossy, if_neg hnul, fromUtf8_utf8]
  have hcopy : copy toF64 jsonText (depth + 1) (some ⟨.decimal d, h⟩) =
      (valueDecimal (dup (decimalText d))).toOption := rfl
  rw [hcopy, valueDecimal, hread]
  cases hparse : parseDecimal (decimalText d) with
  | none => simp only [bind, Except.bind, hparse, Except.toOption, Option.map_none]
  | some d' => simp only [bind, Except.bind, hparse, Except.toOption, Option.map_some]

/-- An array is copied element by element, and not at all when one of them is not copied. -/
theorem copy_array (depth : ℕ) {items : List RawValue} (h : (RawValue.array items).WellFormed) :
    copy toF64 jsonText (depth + 1) (some ⟨.array items, h⟩) =
      (paramsSlice (some ((elements items h).map fun w =>
        copy toF64 jsonText depth (some w)))).toOption.map arrayOf := by
  have hlen : items.length = (elements items h).length := List.length_pmap.symm
  have hparts : (List.range items.length).map (fun i =>
      copy toF64 jsonText depth (elements items h)[i]?) =
      (elements items h).map fun w => copy toF64 jsonText depth (some w) := by
    rw [hlen]
    exact map_getElem?_range _ _
  have hcopy : copy toF64 jsonText (depth + 1) (some ⟨.array items, h⟩) =
      (valueArray (some ((List.range items.length).map fun i =>
        copy toF64 jsonText depth (elements items h)[i]?))).toOption := rfl
  rw [hcopy, hparts, valueArray]
  cases paramsSlice (some ((elements items h).map fun w => copy toF64 jsonText depth (some w))) <;>
    rfl

/-- A document is copied field by field, each under its name as it arrives. -/
theorem copy_document (depth : ℕ) {fields : List (String × RawValue)}
    (h : (RawValue.document fields).WellFormed) :
    copy toF64 jsonText (depth + 1) (some ⟨.document fields, h⟩) =
      (paramsSlice (some ((fieldValues fields h).map fun w =>
        copy toF64 jsonText depth (some w)))).toOption.map fun vs =>
          .ofDocument (documentOf ((fields.map fun f => lossy f.1).zip vs)) := by
  have hlen : fields.length = (fieldValues fields h).length := List.length_pmap.symm
  have hparts : (List.range fields.length).map (fun i =>
      copy toF64 jsonText depth (fieldValues fields h)[i]?) =
      (fieldValues fields h).map fun w => copy toF64 jsonText depth (some w) := by
    rw [hlen]
    exact map_getElem?_range _ _
  have hkeys : (List.range fields.length).map
      (fun i => (fields.map Prod.fst)[i]?.map cStringLossy) =
      (fields.map Prod.fst).map fun name => some (cStringLossy name) := by
    have hnames := map_getElem?_range (fun name => Option.map cStringLossy name)
      (fields.map Prod.fst)
    rwa [List.length_map] at hnames
  have hcopy : copy toF64 jsonText (depth + 1) (some ⟨.document fields, h⟩) =
      (valueDocument (some ((List.range fields.length).map
        (fun i => (fields.map Prod.fst)[i]?.map cStringLossy)))
        (some ((List.range fields.length).map fun i =>
          copy toF64 jsonText depth (fieldValues fields h)[i]?))).toOption := rfl
  rw [hcopy, hparts, hkeys, valueDocument, cstrList_lossy, List.map_map]
  cases paramsSlice (some ((fieldValues fields h).map fun w =>
    copy toF64 jsonText depth (some w))) <;> rfl

/-- What becomes of a value when it is copied: nothing when a decimal in it has the least mantissa,
and the value itself when moreover no name in it has a NUL. -/
structure Copied (toF64 : Decimal → UInt64) (jsonText : Value → String) (depth : ℕ) (v : Value) :
    Prop where
  /-- No copy is made. -/
  refused : copy toF64 jsonText depth (some v) = none ↔ ¬ v.raw.Everywhere ReadsBack
  /-- The copy is the value. -/
  exact_copy : copy toF64 jsonText depth (some v) = some v ↔
    v.raw.Everywhere ReadsBack ∧ v.raw.Everywhere NamesArrive

/-- A value that has no parts and is no decimal is copied. -/
theorem Copied.of_plain {depth : ℕ} {v : Value}
    (hcopy : copy toF64 jsonText depth (some v) = some v)
    (hreads : v.raw.Everywhere ReadsBack) (hnames : v.raw.Everywhere NamesArrive) :
    Copied toF64 jsonText depth v := by
  constructor
  · rw [hcopy]
    simp [hreads]
  · rw [hcopy]
    simp [hreads, hnames]

/-- All of some values are copied when each one is. -/
theorem map_copy_eq_iff {depth : ℕ} {vs : List Value}
    (h : ∀ w ∈ vs, Copied toF64 jsonText depth w) :
    (none ∈ vs.map (fun w => copy toF64 jsonText depth (some w)) ↔
      ¬ ∀ w ∈ vs, w.raw.Everywhere ReadsBack) ∧
    (vs.map (fun w => copy toF64 jsonText depth (some w)) = vs.map some ↔
      (∀ w ∈ vs, w.raw.Everywhere ReadsBack) ∧ ∀ w ∈ vs, w.raw.Everywhere NamesArrive) := by
  constructor
  · rw [List.mem_map, not_forall]
    constructor
    · rintro ⟨w, hw, hnone⟩
      exact ⟨w, fun hall => (h w hw).refused.mp hnone (hall hw)⟩
    · rintro ⟨w, hw⟩
      obtain ⟨hmem, hnot⟩ := Classical.not_imp.mp hw
      exact ⟨w, hmem, (h w hmem).refused.mpr hnot⟩
  · rw [List.map_inj_left]
    constructor
    · intro hall
      exact ⟨fun w hw => ((h w hw).exact_copy.mp (hall w hw)).1,
        fun w hw => ((h w hw).exact_copy.mp (hall w hw)).2⟩
    · rintro ⟨hreads, hnames⟩ w hw
      exact (h w hw).exact_copy.mpr ⟨hreads w hw, hnames w hw⟩

/-- A copy that is made from the copies of parts is the value when the parts are copied and make up
the value. -/
theorem map_toOption_eq_some_iff {depth : ℕ} {vs : List Value} {make : List Value → Value}
    {v : Value} {p : Prop} (hmake : ∀ ws, ws.length = vs.length → (make ws = v ↔ p ∧ ws = vs)) :
    (paramsSlice (some (vs.map fun w => copy toF64 jsonText depth (some w)))).toOption.map make =
      some v ↔ p ∧ vs.map (fun w => copy toF64 jsonText depth (some w)) = vs.map some := by
  rw [Option.map_eq_some_iff]
  constructor
  · rintro ⟨ws, hws, heq⟩
    have hws := toOption_paramsSlice_eq_some_iff.mp hws
    have hlen := congrArg List.length hws
    rw [List.length_map, List.length_map] at hlen
    obtain ⟨hp, rfl⟩ := (hmake ws hlen.symm).mp heq
    exact ⟨hp, hws⟩
  · rintro ⟨hp, hall⟩
    exact ⟨vs, toOption_paramsSlice_eq_some_iff.mpr hall, (hmake vs rfl).mpr ⟨hp, rfl⟩⟩

/-- A property of the values of a list, by their variants. -/
theorem forall_raw_iff {vs : List Value} {raws : List RawValue} (h : vs.map Value.raw = raws)
    (p : RawValue → Prop) : (∀ w ∈ vs, p w.raw) ↔ ∀ v ∈ raws, p v := by
  rw [← h, List.forall_mem_map]

/-- A decimal is copied when its text is read back. -/
theorem Copied.decimal (depth : ℕ) (d : Decimal) (h : (RawValue.decimal d).WellFormed) :
    Copied toF64 jsonText (depth + 1) ⟨.decimal d, h⟩ := by
  have hplain (p : RawValue → Prop) : RawValue.Everywhere p (.decimal d) ↔ p (.decimal d) :=
    Iff.rfl
  constructor
  · rw [copy_decimal, hplain, Option.map_eq_none_iff, parseDecimal_decimalText_eq_none_iff]
    exact not_not.symm
  · rw [copy_decimal, hplain, hplain, Option.map_eq_some_iff]
    constructor
    · rintro ⟨d', hparse, heq⟩
      obtain rfl : d' = d := RawValue.decimal.inj (Value.ext_iff.mp heq)
      exact ⟨(parseDecimal_decimalText d').mp hparse, trivial⟩
    · rintro ⟨hreads, -⟩
      exact ⟨d, (parseDecimal_decimalText d).mpr hreads, rfl⟩

/-- An array is copied with one level more than its elements need, when each of them is copied. -/
theorem Copied.array {depth : ℕ} {items : List RawValue} (h : (RawValue.array items).WellFormed)
    (hparts : ∀ w ∈ elements items h, Copied toF64 jsonText depth w) :
    Copied toF64 jsonText (depth + 1) ⟨.array items, h⟩ := by
  obtain ⟨hnone, hsome⟩ := map_copy_eq_iff hparts
  have hitems (p : RawValue → Prop) : (∀ w ∈ elements items h, p w.raw) ↔ ∀ v ∈ items, p v :=
    forall_raw_iff (map_raw_elements h) p
  constructor
  · rw [copy_array, Option.map_eq_none_iff, toOption_paramsSlice_eq_none_iff, hnone,
      RawValue.everywhere_array, hitems (·.Everywhere ReadsBack)]
    exact not_congr (and_iff_right trivial).symm
  · rw [copy_array, map_toOption_eq_some_iff (p := True)
      fun ws _ => arrayOf_eq_iff.trans (and_iff_right trivial).symm, hsome,
      hitems (·.Everywhere ReadsBack), hitems (·.Everywhere NamesArrive),
      RawValue.everywhere_array, RawValue.everywhere_array]
    simp only [ReadsBack, NamesArrive, true_and]

/-- A document is copied when its values are and its names arrive. -/
theorem Copied.document {depth : ℕ} {fields : List (String × RawValue)}
    (h : (RawValue.document fields).WellFormed)
    (hparts : ∀ w ∈ fieldValues fields h, Copied toF64 jsonText depth w) :
    Copied toF64 jsonText (depth + 1) ⟨.document fields, h⟩ := by
  obtain ⟨hnone, hsome⟩ := map_copy_eq_iff hparts
  have hfields (p : RawValue → Prop) : (∀ w ∈ fieldValues fields h, p w.raw) ↔
      ∀ f ∈ fields, p f.2 := by
    rw [forall_raw_iff (map_raw_fieldValues h) p, List.forall_mem_map]
  constructor
  · rw [copy_document, Option.map_eq_none_iff, toOption_paramsSlice_eq_none_iff, hnone,
      RawValue.everywhere_document, hfields (·.Everywhere ReadsBack)]
    exact not_congr (and_iff_right trivial).symm
  · have hlen : (fieldValues fields h).length = fields.length := List.length_pmap
    rw [copy_document, map_toOption_eq_some_iff
      fun ws hws => documentOf_lossy_eq_iff h (hws.trans hlen), hsome,
      hfields (·.Everywhere ReadsBack), hfields (·.Everywhere NamesArrive),
      RawValue.everywhere_document, RawValue.everywhere_document]
    simp only [ReadsBack, NamesArrive, true_and]
    exact and_left_comm

/-- A caller that goes down far enough into a value. -/
theorem copied_of_depth_le (raw : RawValue) (h : raw.WellFormed) {depth : ℕ}
    (hdepth : raw.depth ≤ depth) : Copied toF64 jsonText depth ⟨raw, h⟩ := by
  have hpos := raw.depth_pos
  obtain ⟨depth, rfl⟩ : ∃ n, depth = n + 1 := ⟨depth - 1, by omega⟩
  induction raw using RawValue.induct generalizing depth with
  | null | bool | int | float | timestamp => exact .of_plain rfl trivial trivial
  | bytes | uuid => exact .of_plain rfl trivial trivial
  | string s =>
    have hmade : copy toF64 jsonText (depth + 1) (some ⟨.string s, h⟩) =
        (valueStringLen (some (utf8 s))).toOption := rfl
    have hcopy : copy toF64 jsonText (depth + 1) (some ⟨.string s, h⟩) =
        some ⟨.string s, h⟩ := by
      rw [hmade, valueStringLen, fromUtf8_utf8]
      rfl
    exact .of_plain hcopy trivial trivial
  | decimal d => exact .decimal depth d h
  | array items ih =>
    rw [RawValue.depth] at hdepth
    apply Copied.array
    intro w hw
    have hmem : w.raw ∈ items := map_raw_elements h ▸ List.mem_map_of_mem hw
    have hle := RawValue.depth_le_items hmem
    have hpos := w.raw.depth_pos
    obtain ⟨n, rfl⟩ : ∃ n, depth = n + 1 := ⟨depth - 1, by omega⟩
    exact ih w.raw hmem w.wellFormed hpos n (by omega)
  | document fields ih =>
    rw [RawValue.depth] at hdepth
    apply Copied.document
    intro w hw
    have hmem : w.raw ∈ fields.map Prod.snd := map_raw_fieldValues h ▸ List.mem_map_of_mem hw
    obtain ⟨f, hf, hfw⟩ := List.mem_map.mp hmem
    have hle := RawValue.depth_le_fields hf
    rw [hfw] at hle
    have hpos := w.raw.depth_pos
    obtain ⟨n, rfl⟩ : ∃ n, depth = n + 1 := ⟨depth - 1, by omega⟩
    obtain ⟨raw, hraw⟩ := w
    obtain rfl : f.2 = raw := hfw
    exact ih f hf hraw hpos n (hle.trans (by omega))

/-- **Copies.** A caller that goes down far enough gets no copy of a value exactly when it contains
a decimal with the least mantissa, and an exact copy exactly when it contains none and no name
in it has a NUL. -/
theorem value_copied_iff (toF64 : Decimal → UInt64) (jsonText : Value → String) (v : Value)
    (depth : ℕ) (hdepth : v.raw.depth ≤ depth) :
    (copy toF64 jsonText depth (some v) = none ↔ ¬ v.raw.Everywhere ReadsBack) ∧
      (copy toF64 jsonText depth (some v) = some v ↔
        v.raw.Everywhere ReadsBack ∧ v.raw.Everywhere NamesArrive) := by
  have hcopied : Copied toF64 jsonText depth v := copied_of_depth_le v.raw v.wellFormed hdepth
  exact ⟨hcopied.refused, hcopied.exact_copy⟩

/-- A row of an example: a price, and tags one of which is null. -/
def pricedRow : Value :=
  ⟨.document [("price", .decimal ⟨150, 2, by norm_num, by norm_num⟩),
    ("tags", .array [.string "a", .null])], by decide⟩

/-- The row of the example is copied exactly, since its price can be read back and its names have no
NUL. -/
theorem pricedRow_copied :
    copy (fun _ => 0) (fun _ => "") 3 (some pricedRow) = some pricedRow :=
  (value_copied_iff (fun _ => 0) (fun _ => "") pricedRow 3 (by decide)).2.mpr
    ⟨by decide, by decide⟩

end Copying

end Ffi

end Skaidb
