import Skaidb.Types.Codec

/-!
# Correctness of the value codec

The decoder inverts the encoder on every value whose lengths fit their 32-bit
prefixes, accepts neither a proper prefix nor a proper extension of an encoding,
and whatever it accepts encodes to a normal form that is no longer than the
input.
-/

namespace Skaidb

open Codec

/-! ## The encoder -/

/-- The encoding of one field of a document. -/
def encodeField (f : String × RawValue) : List UInt8 := writeBytes (utf8 f.1) ++ encodeValue f.2

/-- The elements of an array are encoded one by one. -/
theorem encodeItems_eq_flatMap (items : List RawValue) :
    encodeItems items = items.flatMap encodeValue := by
  induction items with
  | nil => rfl
  | cons v items ih => rw [encodeItems, ih, List.flatMap_cons]

/-- The fields of a document are encoded one by one. -/
theorem encodeFields_eq_flatMap (fields : List (String × RawValue)) :
    encodeFields fields = fields.flatMap encodeField := by
  induction fields with
  | nil => rfl
  | cons f fields ih =>
    obtain ⟨name, v⟩ := f
    rw [encodeFields, ih, List.flatMap_cons, encodeField]

/-- The encoding of a value has at least its tag, so that counts can be checked against the bytes
left. -/
theorem length_encodeValue_pos (v : RawValue) : 1 ≤ (encodeValue v).length := by
  cases v <;> simp [encodeValue]

/-- Every encoded field has at least its name's length and a tag. -/
theorem length_encodeField_pos (f : String × RawValue) : 5 ≤ (encodeField f).length := by
  have hv := length_encodeValue_pos f.2
  simp only [encodeField, writeBytes, List.length_append, length_leBytes]
  omega

/-! ## Reading back the parts -/

/-- The lengths a value carries itself fit their 32-bit prefixes. -/
def RawValue.Fits : RawValue → Prop
  | .string s => (utf8 s).length < 2 ^ 32
  | .bytes b => b.length < 2 ^ 32
  | .array items => items.length < 2 ^ 32
  | .document fields => fields.length < 2 ^ 32 ∧ ∀ f ∈ fields, (utf8 f.1).length < 2 ^ 32
  | _ => True

instance : DecidablePred RawValue.Fits
  | .string s => inferInstanceAs (Decidable ((utf8 s).length < 2 ^ 32))
  | .bytes b => inferInstanceAs (Decidable (b.length < 2 ^ 32))
  | .array items => inferInstanceAs (Decidable (items.length < 2 ^ 32))
  | .document fields => inferInstanceAs
    (Decidable (fields.length < 2 ^ 32 ∧ ∀ f ∈ fields, (utf8 f.1).length < 2 ^ 32))
  | .null | .bool _ | .int _ | .float _ | .decimal _ | .uuid _ | .timestamp _ => .isTrue trivial

/-- All lengths in a value fit their 32-bit prefixes. -/
def RawValue.Sized (v : RawValue) : Prop := v.Everywhere RawValue.Fits

instance (v : RawValue) : Decidable v.Sized := inferInstanceAs (Decidable (v.Everywhere _))

/-- A value with a short encoding has short parts. -/
theorem RawValue.sized_of_length {v : RawValue} (h : (encodeValue v).length < 2 ^ 32) :
    v.Sized := by
  induction v using RawValue.induct with
  | string s =>
    simp only [encodeValue, writeBytes, List.length_cons, List.length_append] at h
    change (utf8 s).length < 2 ^ 32
    omega
  | bytes b =>
    simp only [encodeValue, writeBytes, List.length_cons, List.length_append] at h
    change b.length < 2 ^ 32
    omega
  | array items ih =>
    have hcount := mul_length_le_length_flatMap length_encodeValue_pos items
    simp only [encodeValue, encodeItems_eq_flatMap, List.length_cons, List.length_append] at h
    refine RawValue.everywhere_array.mpr ⟨show items.length < 2 ^ 32 by omega, fun v hv => ?_⟩
    have hpart := length_le_length_flatMap (f := encodeValue) hv
    exact ih v hv (by omega)
  | document fields ih =>
    have hcount := mul_length_le_length_flatMap length_encodeField_pos fields
    simp only [encodeValue, encodeFields_eq_flatMap, List.length_cons, List.length_append] at h
    have hparts {f : String × RawValue} (hf : f ∈ fields) :
        (utf8 f.1).length < 2 ^ 32 ∧ (encodeValue f.2).length < 2 ^ 32 := by
      have hpart := length_le_length_flatMap (f := encodeField) hf
      simp only [encodeField, writeBytes, List.length_append] at hpart
      omega
    refine RawValue.everywhere_document.mpr ⟨⟨by omega, fun f hf => (hparts hf).1⟩, ?_⟩
    exact fun f hf => ih f hf (hparts hf).2
  | _ => trivial

/-- A 32-bit number is read back from the four bytes that it was written as. -/
theorem readU32_reads {n : ℕ} (hn : n < 2 ^ 32) : Reader.Reads readU32 (leBytes 4 n) n := by
  have h := (Reader.Reads.take endOfInput (length_leBytes 4 n)).map ofLeBytes
  rwa [ofLeBytes_leBytes_of_lt (show n < 256 ^ 4 by omega)] at h

/-- A 64-bit word is read back from the eight bytes that it was written as. -/
theorem readU64_reads (w : UInt64) : Reader.Reads readU64 (leBytes 8 w.toNat) w := by
  have h := (Reader.Reads.take endOfInput (length_leBytes 8 w.toNat)).map
    (fun bytes => UInt64.ofNat (ofLeBytes bytes))
  rwa [ofLeBytes_leBytes_of_lt (show w.toNat < 256 ^ 8 from w.toNat_lt), UInt64.ofNat_toNat] at h

/-- A byte string is read back from its length and its bytes, provided its length fits 32 bits. -/
theorem readBytes_reads {bytes : List UInt8} (hlen : bytes.length < 2 ^ 32) :
    Reader.Reads readBytes (writeBytes bytes) bytes :=
  (readU32_reads hlen).bind (Reader.Reads.take endOfInput rfl)

/-- A string is read back from its length and its UTF-8, provided its length fits 32 bits. -/
theorem readString_reads {s : String} (hlen : (utf8 s).length < 2 ^ 32) :
    Reader.Reads readString (writeBytes (utf8 s)) s := by
  have h := (readBytes_reads hlen).bind
    (f := fun bytes => Reader.ofOption (.unrepresentableJson "invalid utf-8 in string")
      (fromUtf8 bytes)) (y := []) (c := s) (by rw [fromUtf8_utf8]; exact Reader.Reads.pure s)
  rwa [List.append_nil] at h

/-- The two's complement pattern of a 128-bit integer denotes it. -/
theorem toInt128_emod {m : ℤ} (hlower : -2 ^ 127 ≤ m) (hupper : m < 2 ^ 127) :
    toInt128 (m % 2 ^ 128).toNat = m := by
  unfold toInt128
  omega

/-- Reading the sixteen bytes of the mantissa and four of the scale gives the decimal they were
written for. -/
theorem readDecimal_reads (d : Decimal) :
    Reader.Reads readDecimal (int128Bytes d.mantissa ++ leBytes 4 d.scale.toNat) d := by
  have hmantissa : (d.mantissa % 2 ^ 128).toNat < 256 ^ 16 := by omega
  have hread := Reader.Reads.take endOfInput (length_leBytes 16 (d.mantissa % 2 ^ 128).toNat)
  refine hread.bind ?_
  have hscale := (readU32_reads d.scale.toNat_lt).map (fun scale =>
    (⟨toInt128 (ofLeBytes (leBytes 16 (d.mantissa % 2 ^ 128).toNat)), UInt32.ofNat scale,
      (toInt128_bounds _).1, (toInt128_bounds _).2⟩ : Decimal))
  have hd : (⟨toInt128 (ofLeBytes (leBytes 16 (d.mantissa % 2 ^ 128).toNat)),
      UInt32.ofNat d.scale.toNat, (toInt128_bounds _).1, (toInt128_bounds _).2⟩ : Decimal) = d := by
    simp only [ofLeBytes_leBytes_of_lt hmantissa, toInt128_emod d.lower d.upper,
      UInt32.ofNat_toNat]
  rwa [hd] at hscale

/-- Reading the bytes a UUID is written as gives that UUID and stops right after it. -/
theorem readUuid_reads (u : Uuid) : Reader.Reads readUuid u.bytes u := by
  intro rest
  have hlen := u.length_eq
  have htake : (u.bytes ++ rest).take 16 = u.bytes := List.take_left' hlen
  have hdrop : (u.bytes ++ rest).drop 16 = rest := List.drop_left' hlen
  simp only [readUuid, htake, hdrop, List.length_append, hlen, dif_pos (Nat.le_add_right 16 _)]

/-! ## Reading back a value -/

/-- A tag in front of an encoding selects the branch that reads the rest. -/
theorem decodeValue_reads_tag {fuel : ℕ} {tag : UInt8} {body : List UInt8} {v : RawValue}
    (h : Reader.Reads (decodeTagged (decodeValue fuel) tag) body v) :
    Reader.Reads (decodeValue (fuel + 1)) (tag :: body) v :=
  (Reader.Reads.symbol endOfInput tag).bind h

/-- The elements of an array are read back when each of them is. -/
theorem decodeTagged_reads_array {decode : ValueReader RawValue} {items : List RawValue}
    (hlen : items.length < 2 ^ 32)
    (hitems : ∀ v ∈ items, Reader.Reads decode (encodeValue v) v) :
    Reader.Reads (decodeTagged decode Tag.array) (leBytes 4 items.length ++ encodeItems items)
      (.array items) := by
  have hcount : 1 * items.length ≤ (encodeItems items).length := by
    rw [encodeItems_eq_flatMap]
    exact mul_length_le_length_flatMap length_encodeValue_pos items
  refine (readU32_reads hlen).bind (Reader.Reads.ensure (fun n hn => by omega) ?_)
  rw [encodeItems_eq_flatMap]
  exact (Reader.Reads.times hitems).map RawValue.array

/-- The fields of a document are read back when each value is; they are a map
already, so inserting them one by one rebuilds it. -/
theorem decodeTagged_reads_document {decode : ValueReader RawValue}
    {fields : List (String × RawValue)} (hlen : fields.length < 2 ^ 32)
    (hnames : ∀ f ∈ fields, (utf8 f.1).length < 2 ^ 32)
    (hsorted : Ascending.Sorted utf8 fields)
    (hvalues : ∀ f ∈ fields, Reader.Reads decode (encodeValue f.2) f.2) :
    Reader.Reads (decodeTagged decode Tag.document)
      (leBytes 4 fields.length ++ encodeFields fields) (.document fields) := by
  have hcount : 5 * fields.length ≤ (encodeFields fields).length := by
    rw [encodeFields_eq_flatMap]
    exact mul_length_le_length_flatMap length_encodeField_pos fields
  refine (readU32_reads hlen).bind (Reader.Reads.ensure (fun n hn => by omega) ?_)
  rw [encodeFields_eq_flatMap]
  have hfields : ∀ f ∈ fields, Reader.Reads (do
      let name ← readString
      let value ← decode
      pure (name, value)) (encodeField f) f := fun f hf =>
    (readString_reads (hnames f hf)).bind ((hvalues f hf).map fun value => (f.1, value))
  have h := (Reader.Reads.times hfields).map
    (fun fields => RawValue.document (Ascending.ofList utf8 fields))
  rwa [Ascending.ofList_eq_self utf8 hsorted] at h

/-- The decoder reads back every encoding, whatever follows it. The bound on the
recursion need not exceed the length of the encoding. -/
theorem decodeValue_reads {v : RawValue} (hwf : v.WellFormed) (hsized : v.Sized) {fuel : ℕ}
    (hfuel : (encodeValue v).length ≤ fuel) :
    Reader.Reads (decodeValue fuel) (encodeValue v) v := by
  induction fuel generalizing v with
  | zero =>
    have hpos := length_encodeValue_pos v
    omega
  | succ fuel ih =>
    cases v with
    | null => exact decodeValue_reads_tag (Reader.Reads.pure _)
    | bool b =>
      have h := (Reader.Reads.symbol endOfInput (if b then 1 else 0)).map
        (fun b : UInt8 => RawValue.bool (b != 0))
      have hb : ((if b then 1 else 0 : UInt8) != 0) = b := by cases b <;> rfl
      rw [hb] at h
      exact decodeValue_reads_tag h
    | int i =>
      have h := (readU64_reads i.toUInt64).map (fun word => RawValue.int word.toInt64)
      rw [Int64.toInt64_toUInt64] at h
      exact decodeValue_reads_tag h
    | float bits => exact decodeValue_reads_tag ((readU64_reads bits).map RawValue.float)
    | decimal d => exact decodeValue_reads_tag ((readDecimal_reads d).map RawValue.decimal)
    | string s => exact decodeValue_reads_tag ((readString_reads hsized).map RawValue.string)
    | bytes b => exact decodeValue_reads_tag ((readBytes_reads hsized).map RawValue.bytes)
    | uuid u => exact decodeValue_reads_tag ((readUuid_reads u).map RawValue.uuid)
    | timestamp t =>
      have h := (readU64_reads t.toUInt64).map (fun word => RawValue.timestamp word.toInt64)
      rw [Int64.toInt64_toUInt64] at h
      exact decodeValue_reads_tag h
    | array items =>
      obtain ⟨-, hwf⟩ := RawValue.everywhere_array.mp hwf
      obtain ⟨hlen, hsized⟩ := RawValue.everywhere_array.mp hsized
      refine decodeValue_reads_tag (decodeTagged_reads_array hlen fun v hv => ?_)
      refine ih (hwf v hv) (hsized v hv) ?_
      have hpart := length_le_length_flatMap (f := encodeValue) hv
      simp only [encodeValue, encodeItems_eq_flatMap, List.length_cons, List.length_append] at hfuel
      omega
    | document fields =>
      obtain ⟨hsorted, hwf⟩ := RawValue.everywhere_document.mp hwf
      obtain ⟨⟨hlen, hnames⟩, hsized⟩ := RawValue.everywhere_document.mp hsized
      refine decodeValue_reads_tag (decodeTagged_reads_document hlen hnames hsorted fun f hf => ?_)
      refine ih (hwf f hf) (hsized f hf) ?_
      have hpart := length_le_length_flatMap (f := encodeField) hf
      simp only [encodeField, List.length_append] at hpart
      simp only [encodeValue, encodeFields_eq_flatMap, List.length_cons,
        List.length_append] at hfuel
      omega

/-! ## Success is stable -/

/-- What is read as a 32-bit number does not depend on the bytes that follow. -/
theorem readU32_stable : Reader.Stable readU32 :=
  (Reader.Stable.take _ 4).bind fun _ => Reader.Stable.pure _

/-- What is read as a 64-bit word does not depend on the bytes that follow. -/
theorem readU64_stable : Reader.Stable readU64 :=
  (Reader.Stable.take _ 8).bind fun _ => Reader.Stable.pure _

/-- What is read as a byte string does not depend on the bytes that follow it. -/
theorem readBytes_stable : Reader.Stable readBytes :=
  readU32_stable.bind fun n => Reader.Stable.take _ n

/-- What is read as a string does not depend on the bytes that follow it. -/
theorem readString_stable : Reader.Stable readString :=
  readBytes_stable.bind fun _ => Reader.Stable.ofOption _ _

/-- Bytes put after a decimal that was read do not change what is read of it. -/
theorem readDecimal_stable : Reader.Stable readDecimal :=
  (Reader.Stable.take _ 16).bind fun _ => readU32_stable.bind fun _ => Reader.Stable.pure _

/-- Success of reading a UUID splits off its bytes. -/
theorem readUuid_eq_ok {input rest : List UInt8} {u : Uuid}
    (h : readUuid input = .ok (u, rest)) : input = u.bytes ++ rest := by
  unfold readUuid at h
  split at h
  · obtain ⟨rfl, rfl⟩ := Prod.mk.inj (Except.ok.inj h)
    exact (List.take_append_drop 16 input).symm
  · cases h

/-- Bytes put after a UUID that was read do not change what is read of it. -/
theorem readUuid_stable : Reader.Stable readUuid := by
  intro input u rest h more
  rw [readUuid_eq_ok h, List.append_assoc]
  exact readUuid_reads u _

/-- Every branch after the tag is stable when the recursive calls are. -/
theorem decodeTagged_stable {decode : ValueReader RawValue} (hdecode : Reader.Stable decode)
    (tag : UInt8) : Reader.Stable (decodeTagged decode tag) := by
  unfold decodeTagged
  split
  · exact Reader.Stable.pure _
  · exact (Reader.Stable.symbol _).bind fun _ => Reader.Stable.pure _
  · exact readU64_stable.bind fun _ => Reader.Stable.pure _
  · exact readU64_stable.bind fun _ => Reader.Stable.pure _
  · exact readDecimal_stable.bind fun _ => Reader.Stable.pure _
  · exact readString_stable.bind fun _ => Reader.Stable.pure _
  · exact readBytes_stable.bind fun _ => Reader.Stable.pure _
  · exact readUuid_stable.bind fun _ => Reader.Stable.pure _
  · exact readU64_stable.bind fun _ => Reader.Stable.pure _
  · refine readU32_stable.bind fun n => ?_
    refine (Reader.Stable.ensure fun m k hmk hm => by omega).bind fun _ => ?_
    exact (hdecode.times n).bind fun _ => Reader.Stable.pure _
  · refine readU32_stable.bind fun n => ?_
    refine (Reader.Stable.ensure fun m k hmk hm => by omega).bind fun _ => ?_
    have hfield := readString_stable.bind fun name =>
      hdecode.bind fun value => Reader.Stable.pure (name, value)
    exact (hfield.times n).bind fun _ => Reader.Stable.pure _
  · exact Reader.Stable.fail _

/-- What `decode_value` reads from the front of an input it reads there whatever follows. -/
theorem decodeValue_stable (fuel : ℕ) : Reader.Stable (decodeValue fuel) := by
  induction fuel with
  | zero => exact Reader.Stable.fail _
  | succ fuel ih => exact (Reader.Stable.symbol _).bind fun tag => decodeTagged_stable ih tag

/-! ## Success pays for the encoding of its result -/

/-- A 32-bit number that is read has taken four bytes of the input. -/
theorem readU32_pays (credit : ℕ) :
    Reader.Pays credit readU32 (fun n => n < 2 ^ 32) (fun _ => credit + 4) :=
  (Reader.Pays.take credit endOfInput 4).bind fun bytes hlen =>
    Reader.Pays.pure (by have := ofLeBytes_lt bytes; rw [hlen] at this; omega) le_rfl

/-- A 64-bit word that is read has taken eight bytes of the input. -/
theorem readU64_pays (credit : ℕ) :
    Reader.Pays credit readU64 (fun _ => True) (fun _ => credit + 8) :=
  (Reader.Pays.take credit endOfInput 8).bind fun _ _ => Reader.Pays.pure trivial le_rfl

/-- A byte string takes its length and its bytes. -/
theorem readBytes_pays (credit : ℕ) :
    Reader.Pays credit readBytes (fun b => b.length < 2 ^ 32) (fun b => credit + 4 + b.length) := by
  refine (readU32_pays credit).bind fun n hn input out rest h => ?_
  obtain ⟨hlen, hsize⟩ := Reader.Pays.take (credit + 4) endOfInput n _ _ _ h
  dsimp only at hsize ⊢
  exact ⟨by omega, by omega⟩

/-- A string that is read has taken the four bytes of its length and its own bytes from the
input. -/
theorem readString_pays (credit : ℕ) :
    Reader.Pays credit readString (fun s => (utf8 s).length < 2 ^ 32)
      (fun s => credit + 4 + (utf8 s).length) := by
  refine (readBytes_pays credit).bind fun bytes hlen input s rest h => ?_
  obtain ⟨hs, hsize⟩ := Reader.Pays.ofOption (credit + 4 + bytes.length) _ _ _ _ _ h
  rw [utf8_of_fromUtf8 hs]
  exact ⟨hlen, hsize⟩

/-- A decimal that is read has taken twenty bytes of the input, which pay for what it holds. -/
theorem readDecimal_pays (credit : ℕ) :
    Reader.Pays credit readDecimal (fun _ => True) (fun _ => credit + 20) :=
  (Reader.Pays.take credit endOfInput 16).bind fun _ _ =>
    (readU32_pays _).bind fun _ _ => Reader.Pays.pure trivial le_rfl

/-- A UUID that is read has taken sixteen bytes of the input. -/
theorem readUuid_pays (credit : ℕ) :
    Reader.Pays credit readUuid (fun _ => True) (fun _ => credit + 16) := by
  intro input u rest h
  have hlen := u.length_eq
  rw [readUuid_eq_ok h, List.length_append]
  exact ⟨trivial, by dsimp only; omega⟩

/-- A value the encoder handles without truncating a length. -/
def RawValue.Encodable (v : RawValue) : Prop := v.WellFormed ∧ v.Sized

/-- An array of encodable values whose count fits is encodable. -/
theorem RawValue.Encodable.array {items : List RawValue} (hlen : items.length < 2 ^ 32)
    (hitems : ∀ v ∈ items, v.Encodable) : (RawValue.array items).Encodable :=
  ⟨everywhere_array.mpr ⟨trivial, fun v hv => (hitems v hv).1⟩,
    everywhere_array.mpr ⟨hlen, fun v hv => (hitems v hv).2⟩⟩

/-- Fields that were decoded, put into a map by their names, are again a document that can be
encoded. -/
theorem RawValue.Encodable.document {fields : List (String × RawValue)}
    (hlen : fields.length < 2 ^ 32)
    (hfields : ∀ f ∈ fields, (utf8 f.1).length < 2 ^ 32 ∧ f.2.Encodable) :
    (RawValue.document (Ascending.ofList utf8 fields)).Encodable := by
  have hmem {f : String × RawValue} (hf : f ∈ Ascending.ofList utf8 fields) : f ∈ fields :=
    Ascending.mem_ofList utf8 hf
  have hcount := Ascending.length_ofList_le utf8 fields
  constructor
  · exact everywhere_document.mpr ⟨Ascending.sorted_ofList utf8 fields,
      fun f hf => (hfields f (hmem hf)).2.1⟩
  · refine everywhere_document.mpr ⟨⟨by omega, fun f hf => (hfields f (hmem hf)).1⟩, ?_⟩
    exact fun f hf => (hfields f (hmem hf)).2.2

/-- The elements of an array take the bytes of their encodings. -/
theorem length_encodeValue_array (items : List RawValue) :
    (encodeValue (.array items)).length = 5 + (items.map fun v => (encodeValue v).length).sum := by
  simp only [encodeValue, encodeItems_eq_flatMap, List.length_cons, List.length_append,
    length_leBytes, List.length_flatMap]
  omega

/-- The fields of a document take the bytes of their encodings. -/
theorem length_encodeValue_document (fields : List (String × RawValue)) :
    (encodeValue (.document fields)).length =
      5 + (fields.map fun f => (encodeField f).length).sum := by
  simp only [encodeValue, encodeFields_eq_flatMap, List.length_cons, List.length_append,
    length_leBytes, List.length_flatMap]
  omega

/-- A tagged byte string takes five bytes more than its content. -/
theorem length_tagged_bytes_le (tag : UInt8) (bytes : List UInt8) :
    (tag :: writeBytes bytes).length ≤ 1 + 4 + bytes.length := by
  rw [writeBytes, List.length_cons, List.length_append, length_leBytes]
  omega

/-- Every branch after the tag returns an encodable value that its bytes pay for. -/
theorem decodeTagged_pays {decode : ValueReader RawValue}
    (hdecode : Reader.Pays 0 decode RawValue.Encodable fun v => (encodeValue v).length)
    (tag : UInt8) :
    Reader.Pays 1 (decodeTagged decode tag) RawValue.Encodable
      fun v => (encodeValue v).length := by
  unfold decodeTagged
  split
  · exact Reader.Pays.pure ⟨trivial, trivial⟩ (by simp [encodeValue])
  · exact (Reader.Pays.symbol 1 _).bind fun b _ =>
      Reader.Pays.pure ⟨trivial, trivial⟩ (by simp [encodeValue])
  · exact (readU64_pays 1).bind fun _ _ =>
      Reader.Pays.pure ⟨trivial, trivial⟩ (by simp [encodeValue, int64Bytes])
  · exact (readU64_pays 1).bind fun _ _ =>
      Reader.Pays.pure ⟨trivial, trivial⟩ (by simp [encodeValue])
  · exact (readDecimal_pays 1).bind fun _ _ =>
      Reader.Pays.pure ⟨trivial, trivial⟩ (by simp [encodeValue, int128Bytes])
  · exact (readString_pays 1).bind fun s hs =>
      Reader.Pays.pure ⟨trivial, hs⟩ (length_tagged_bytes_le _ _)
  · exact (readBytes_pays 1).bind fun b hb =>
      Reader.Pays.pure ⟨trivial, hb⟩ (length_tagged_bytes_le _ _)
  · exact (readUuid_pays 1).bind fun u _ =>
      Reader.Pays.pure ⟨trivial, trivial⟩ (by simp [encodeValue, u.length_eq])
  · exact (readU64_pays 1).bind fun _ _ =>
      Reader.Pays.pure ⟨trivial, trivial⟩ (by simp [encodeValue, int64Bytes])
  · refine (readU32_pays 1).bind fun n hn => (Reader.Pays.ensure _ _ _).bind fun _ _ => ?_
    refine (Reader.Pays.times _ hdecode n).bind fun items hitems => ?_
    refine Reader.Pays.pure (RawValue.Encodable.array (by omega) hitems.2) ?_
    rw [length_encodeValue_array]
  · refine (readU32_pays 1).bind fun n hn => (Reader.Pays.ensure _ _ _).bind fun _ _ => ?_
    have hfield : Reader.Pays 0 (do
        let name ← readString
        let value ← decode
        pure (name, value))
        (fun f : String × RawValue => (utf8 f.1).length < 2 ^ 32 ∧ f.2.Encodable)
        fun f => (encodeField f).length := by
      refine (readString_pays 0).bind fun name hname => ?_
      intro input f rest h
      obtain ⟨v, middle, hv, hout⟩ := Reader.bind_eq_ok h
      obtain ⟨rfl, rfl⟩ : (name, v) = f ∧ middle = rest := by simpa using hout
      obtain ⟨hgood, hsize⟩ := hdecode _ _ _ hv
      refine ⟨⟨hname, hgood⟩, ?_⟩
      dsimp only at hsize
      simp only [encodeField, writeBytes, List.length_append, length_leBytes]
      omega
    refine (Reader.Pays.times _ hfield n).bind fun fields hfields => ?_
    refine Reader.Pays.pure (RawValue.Encodable.document (by omega) hfields.2) ?_
    have hsum := Ascending.sum_ofList_le utf8 (fun f => (encodeField f).length) fields
    rw [length_encodeValue_document]
    omega
  · intro input v rest h
    cases h

/-- A decoded value is encodable and its encoding is no longer than what was read. -/
theorem decodeValue_pays (fuel : ℕ) :
    Reader.Pays 0 (decodeValue fuel) RawValue.Encodable fun v => (encodeValue v).length := by
  induction fuel with
  | zero =>
    intro input v rest h
    cases h
  | succ fuel ih =>
    exact (Reader.Pays.symbol 0 endOfInput).bind fun tag _ => decodeTagged_pays ih tag

/-! ## The bound on the recursion -/

/-- The branches after the tag agree when the recursive calls do. -/
theorem decodeTagged_agreeUpTo {n : ℕ} {decode decode' : ValueReader RawValue}
    (h : Reader.AgreeUpTo n decode decode') (hshrinks : Reader.Shrinks decode') (tag : UInt8) :
    Reader.AgreeUpTo n (decodeTagged decode tag) (decodeTagged decode' tag) := by
  have hu32 : Reader.Shrinks readU32 := (readU32_pays 0).shrinks
  have hensure {p : ℕ → Prop} [DecidablePred p] {e : ValueError} :
      Reader.Shrinks (Reader.ensure p e : ValueReader Unit) := (Reader.Pays.ensure 0 p e).shrinks
  unfold decodeTagged
  split
  case h_10 =>
    refine (Reader.AgreeUpTo.refl n _).bind hu32 fun k => ?_
    refine (Reader.AgreeUpTo.refl n _).bind hensure fun _ => ?_
    exact (h.times hshrinks k).bind_left _
  case h_11 =>
    have hstring : Reader.Shrinks readString := (readString_pays 0).shrinks
    refine (Reader.AgreeUpTo.refl n _).bind hu32 fun k => ?_
    refine (Reader.AgreeUpTo.refl n _).bind hensure fun _ => ?_
    refine Reader.AgreeUpTo.bind_left (Reader.AgreeUpTo.times ?_ ?_ k) _
    · exact (Reader.AgreeUpTo.refl n _).bind hstring fun name => h.bind_left _
    · exact hstring.bind fun name => hshrinks.bind fun value => Reader.Shrinks.pure (name, value)
  all_goals exact Reader.AgreeUpTo.refl n _

/-- Whatever `decode_value` leaves over is no longer than the input it was given. -/
theorem decodeValue_shrinks (fuel : ℕ) : Reader.Shrinks (decodeValue fuel) :=
  (decodeValue_pays fuel).shrinks

/-- One more step of recursion makes no difference once the bound covers the input. -/
theorem decodeValue_agreeUpTo_succ (n : ℕ) :
    Reader.AgreeUpTo n (decodeValue n) (decodeValue (n + 1)) := by
  induction n with
  | zero =>
    intro input hlen
    obtain rfl : input = [] := List.length_eq_zero_iff.mp (by omega)
    rfl
  | succ n ih =>
    exact Reader.AgreeUpTo.symbol_bind endOfInput fun tag =>
      decodeTagged_agreeUpTo ih (decodeValue_shrinks _) tag

/-- The bound on the recursion does not matter once it covers the input. -/
theorem decodeValue_eq_of_le {input : List UInt8} {fuel : ℕ} (hfuel : input.length ≤ fuel) :
    decodeValue fuel input = decodeValue input.length input := by
  induction fuel, hfuel using Nat.le_induction with
  | base => rfl
  | succ fuel hfuel ih => rw [← ih, decodeValue_agreeUpTo_succ fuel input hfuel]

/-- `decode_value` on a whole input, whose length is fuel enough as every level takes a byte. -/
def readValue : ValueReader RawValue := fun input => decodeValue input.length input

/-- The recursion of `decode_value`, free of the bound: read the tag, then decode
the rest with the same function for the values inside. -/
theorem readValue_eq : readValue = (do
    let tag ← readU8
    decodeTagged readValue tag) := by
  funext input
  cases input with
  | nil => rfl
  | cons tag input =>
    have hagree : Reader.AgreeUpTo input.length (decodeValue input.length) readValue :=
      fun rest hrest => decodeValue_eq_of_le hrest
    have hshrinks : Reader.Shrinks readValue := fun rest => decodeValue_shrinks rest.length rest
    exact decodeTagged_agreeUpTo hagree hshrinks tag input le_rfl

/-! ## Whole inputs -/

/-- A decode succeeds exactly when reading the value leaves nothing of the input over. -/
theorem RawValue.decode_eq_ok {bytes : List UInt8} {v : RawValue} :
    RawValue.decode bytes = .ok v ↔ readValue bytes = .ok (v, []) := by
  unfold RawValue.decode readValue
  split
  · next w h => simp [h]
  · next w b rest h => simp [h]
  · next e h => simp [h]

/-- The encoding of a value that can be encoded is read back, whatever bytes follow it. -/
theorem readValue_encodeValue {v : RawValue} (hv : v.Encodable) (rest : List UInt8) :
    readValue (encodeValue v ++ rest) = .ok (v, rest) :=
  decodeValue_reads hv.1 hv.2 (by simp) rest

/-- A success of the decoder is not affected by further input. -/
theorem readValue_stable : Reader.Stable readValue := by
  intro input v rest h more
  -- Both runs are compared at the bound of the longer input.
  have hbound : input.length ≤ (input ++ more).length := by simp
  have hshort : decodeValue (input ++ more).length input = .ok (v, rest) :=
    (decodeValue_eq_of_le hbound).trans h
  exact decodeValue_stable _ _ _ _ hshort more

/-- What a successful decode returns is encodable, and its encoding is no longer
than the input. -/
theorem RawValue.decode_encodable {bytes : List UInt8} {v : RawValue}
    (h : RawValue.decode bytes = .ok v) :
    v.Encodable ∧ (encodeValue v).length ≤ bytes.length := by
  obtain ⟨hv, hsize⟩ := decodeValue_pays _ _ _ _ (RawValue.decode_eq_ok.mp h)
  exact ⟨hv, by simpa using hsize⟩

/-- `Value::decode`: the value that the bytes hold, refused when bytes are left over after it. -/
def Value.decode (bytes : List UInt8) : Except ValueError Value :=
  match h : RawValue.decode bytes with
  | .ok v => .ok ⟨v, (RawValue.decode_encodable h).1.1⟩
  | .error e => .error e

/-- Decoding to a value is decoding to its variants. -/
theorem Value.decode_eq_ok {bytes : List UInt8} {v : Value} :
    Value.decode bytes = .ok v ↔ readValue bytes = .ok (v.raw, []) := by
  rw [← RawValue.decode_eq_ok]
  unfold Value.decode
  split
  · next w h => simp [h, Value.ext_iff]
  · next e h => simp [h]

/-- Decoding fails exactly when the decoder returns no value. -/
theorem Value.decode_eq_error {bytes : List UInt8}
    (h : ∀ v : Value, Value.decode bytes ≠ .ok v) : ∃ e, Value.decode bytes = .error e := by
  cases hdecode : Value.decode bytes with
  | ok v => exact absurd hdecode (h v)
  | error e => exact ⟨e, rfl⟩

/-- The lengths of a value fit their prefixes. -/
def Value.Sized (v : Value) : Prop := v.raw.Sized

/-- The encoding of a sized value decodes to it. -/
theorem Value.decode_encode {v : Value} (hv : v.Sized) : Value.decode v.encode = .ok v := by
  have h := readValue_encodeValue ⟨v.wellFormed, hv⟩ []
  rw [List.append_nil] at h
  exact Value.decode_eq_ok.mpr h

/-- A decoded value has only lengths that its format can write, and takes no more bytes than it was
read from. -/
theorem Value.sized_of_decode {bytes : List UInt8} {v : Value} (h : Value.decode bytes = .ok v) :
    v.Sized ∧ v.encode.length ≤ bytes.length := by
  obtain ⟨hv, hlen⟩ := RawValue.decode_encodable
    (RawValue.decode_eq_ok.mpr (Value.decode_eq_ok.mp h))
  exact ⟨hv.2, hlen⟩

/-- No proper prefix of an encoding decodes: a success would survive the missing
bytes and leave them over. -/
theorem Value.decode_prefix_rejected {v : Value} (hv : v.Sized) {bytes : List UInt8}
    (hpre : bytes <+: v.encode) (hne : bytes ≠ v.encode) :
    ∃ e, Value.decode bytes = .error e := by
  have hreads : Reader.Reads readValue v.encode v.raw :=
    readValue_encodeValue ⟨v.wellFormed, hv⟩
  obtain ⟨e, he⟩ := hreads.prefix_rejected readValue_stable hpre hne
  refine Value.decode_eq_error fun w hw => ?_
  rw [Value.decode_eq_ok, he] at hw
  cases hw

/-- No proper extension of an encoding decodes: the value ends where its encoding
does and the rest is trailing. -/
theorem Value.decode_extension_rejected {v : Value} (hv : v.Sized) {bytes : List UInt8}
    (hpre : v.encode <+: bytes) (hne : bytes ≠ v.encode) :
    ∃ e, Value.decode bytes = .error e := by
  obtain ⟨rest, rfl⟩ := hpre
  refine Value.decode_eq_error fun w hw => ?_
  rw [Value.decode_eq_ok] at hw
  have hread : readValue (v.encode ++ rest) = .ok (v.raw, rest) :=
    readValue_encodeValue ⟨v.wellFormed, hv⟩ rest
  obtain ⟨-, rfl⟩ := Prod.mk.inj (Except.ok.inj (hread.symm.trans hw))
  exact hne (List.append_nil _)

/-- **The codec is lossless.** Every value whose lengths fit their prefixes is
decoded from its encoding and from no proper prefix or extension of it, and
whatever decodes is a normal form of its input. -/
theorem value_codec_lossless :
    (∀ v : Value, v.Sized → Value.decode v.encode = .ok v ∧
      (∀ bytes, bytes <+: v.encode → bytes ≠ v.encode → ∃ e, Value.decode bytes = .error e) ∧
      (∀ bytes, v.encode <+: bytes → bytes ≠ v.encode → ∃ e, Value.decode bytes = .error e)) ∧
    (∀ doc : Document, encodeDocument doc = (Value.ofDocument doc).encode) ∧
    (∀ (bytes : List UInt8) (w : Value), Value.decode bytes = .ok w →
      Value.decode w.encode = .ok w ∧ w.encode.length ≤ bytes.length) := by
  refine ⟨fun v hv => ⟨Value.decode_encode hv, ?_, ?_⟩, fun _ => rfl, fun bytes w hw => ?_⟩
  · exact fun _ hpre hne => Value.decode_prefix_rejected hv hpre hne
  · exact fun _ hpre hne => Value.decode_extension_rejected hv hpre hne
  · obtain ⟨hsized, hlen⟩ := Value.sized_of_decode hw
    exact ⟨Value.decode_encode hsized, hlen⟩

/-- A document with a nested array comes back from its bytes. -/
theorem value_codec_lossless_nested :
    Value.decode [10, 2, 0, 0, 0, 1, 0, 0, 0, 97, 9, 2, 0, 0, 0, 0, 1, 1, 1, 0, 0, 0, 98, 5,
        1, 0, 0, 0, 120] =
      .ok ⟨.document [("a", .array [.null, .bool true]), ("b", .string "x")], by decide⟩ :=
  (value_codec_lossless.1
    ⟨.document [("a", .array [.null, .bool true]), ("b", .string "x")], by decide⟩
    (by decide : RawValue.Sized _)).1

end Skaidb
