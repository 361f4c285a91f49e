import Skaidb.Proto.Fields

/-!
# The response wire format

Every response whose counts and lengths fit their fields is read back from its
encoding, whatever follows. The tag of several result sets is also the
wrapper's tag, so a plain reply of that kind is taken for a tagged one.
-/

namespace Skaidb

open Codec Reader

/-! ## Encoders append -/

/-- The bytes of column names behind their count. -/
def columnsBytes (columns : List String) : List UInt8 :=
  leBytes 4 columns.length ++ columns.flatMap fun col => writeBytes (utf8 col)

/-- The bytes of a row: the number of its cells, and the cells. -/
def rowBytes (row : List Value) : List UInt8 := leBytes 4 row.length ++ row.flatMap cellBytes

/-- The bytes that rows are encoded as, behind their count. -/
def rowsBytes (rows : List (List Value)) : List UInt8 :=
  leBytes 4 rows.length ++ rows.flatMap rowBytes

/-- The bytes that a result set is encoded as: its columns, then its rows. -/
def setBytes (set : List String × List (List Value)) : List UInt8 :=
  columnsBytes set.1 ++ rowsBytes set.2

/-- Column names are appended as a counted list of strings. -/
theorem encodeColumns_eq (out : List UInt8) (columns : List String) :
    encodeColumns out columns = out ++ columnsBytes columns := by
  rw [encodeColumns, foldl_eq_append_flatMap fun _ _ => rfl, columnsBytes, List.append_assoc]

/-- A row is appended as a counted list of cells. -/
theorem encodeRowInto_eq (out : List UInt8) (row : List Value) :
    encodeRowInto out row = out ++ rowBytes row := by
  rw [encodeRowInto, foldl_eq_append_flatMap encodeCell_eq, rowBytes, List.append_assoc]

/-- Rows are appended as a counted list of rows. -/
theorem encodeRows_eq (out : List UInt8) (rows : List (List Value)) :
    encodeRows out rows = out ++ rowsBytes rows := by
  rw [encodeRows, foldl_eq_append_flatMap encodeRowInto_eq, rowsBytes, List.append_assoc]

/-- A result set is appended as its columns and its rows. -/
theorem encodeSet_eq (out : List UInt8) (set : List String × List (List Value)) :
    encodeRows (encodeColumns out set.1) set.2 = out ++ setBytes set := by
  rw [encodeRows_eq, encodeColumns_eq, setBytes, List.append_assoc]

/-- The encoding of a response: its tag and then its fields. -/
def Response.bytes : Response → List UInt8
  | .rows columns rs => Resp.rows :: (columnsBytes columns ++ rowsBytes rs)
  | .mutation affected => Resp.mutation :: leBytes 8 affected.toNat
  | .ddl => [Resp.ddl]
  | .error msg => Resp.error :: writeBytes (utf8 msg)
  | .prepared id params => Resp.prepared :: (leBytes 4 id.toNat ++ leBytes 2 params.toNat)
  | .rowsHeader columns => Resp.rowsHeader :: columnsBytes columns
  | .rowsChunk rs => Resp.rowsChunk :: rowsBytes rs
  | .rowsEnd => [Resp.rowsEnd]
  | .resultSets sets => Resp.resultSets :: (leBytes 4 sets.length ++ sets.flatMap setBytes)

/-- Encoding a response appends its tag and its fields to the buffer. -/
theorem Response.encodeInto_eq (out : List UInt8) (r : Response) :
    r.encodeInto out = out ++ r.bytes := by
  cases r with
  | resultSets sets =>
    rw [encodeInto, foldl_eq_append_flatMap encodeSet_eq]
    simp [Response.bytes]
  | _ => simp [encodeInto, Response.bytes, encodeColumns_eq, encodeRows_eq]

/-- Encoding a response appends its bytes, field by field, to an empty message. -/
theorem Response.encode_eq (r : Response) : r.encode = r.bytes := r.encodeInto_eq []

/-! ## Responses that fit -/

/-- The column names and their number fit their fields. -/
def ColumnsFit (columns : List String) : Prop :=
  columns.length < 2 ^ 32 ∧ ∀ col ∈ columns, (utf8 col).length < 2 ^ 32

/-- The cells of a row and their number fit their fields. -/
def RowFits (row : List Value) : Prop :=
  row.length < 2 ^ 32 ∧ ∀ v ∈ row, v.encode.length < 2 ^ 32

/-- The rows and their number fit their fields. -/
def RowsFit (rows : List (List Value)) : Prop := rows.length < 2 ^ 32 ∧ ∀ row ∈ rows, RowFits row

/-- The columns and rows of a result set fit their fields. -/
def SetFits (set : List String × List (List Value)) : Prop := ColumnsFit set.1 ∧ RowsFit set.2

/-- All counts and lengths of a response fit the fields that carry them. -/
def Response.Fits : Response → Prop
  | .rows columns rs => ColumnsFit columns ∧ RowsFit rs
  | .error msg => (utf8 msg).length < 2 ^ 32
  | .rowsHeader columns => ColumnsFit columns
  | .rowsChunk rs => RowsFit rs
  | .resultSets sets => sets.length < 2 ^ 32 ∧ ∀ set ∈ sets, SetFits set
  | _ => True

/-- Column names that are short as a whole fit the fields of their lengths. -/
theorem columnsFit_of_length {columns : List String}
    (hlen : (columnsBytes columns).length < 2 ^ 32) : ColumnsFit columns := by
  have hcount := mul_length_le_length_flatMap (f := fun col => writeBytes (utf8 col)) (k := 4)
    (by simp [writeBytes]) columns
  simp only [columnsBytes, List.length_append] at hlen
  refine ⟨by omega, fun col hcol => ?_⟩
  have hpart := length_le_length_flatMap (f := fun col => writeBytes (utf8 col)) hcol
  simp only [writeBytes, List.length_append] at hpart hlen
  omega

/-- A row whose encoding is shorter than 4 GiB has only lengths that fit their fields. -/
theorem rowFits_of_length {row : List Value} (hlen : (rowBytes row).length < 2 ^ 32) :
    RowFits row := by
  have hcount := mul_length_le_length_flatMap (f := cellBytes) (k := 4)
    (by simp [cellBytes, writeBytes]) row
  simp only [rowBytes, List.length_append] at hlen
  refine ⟨by omega, fun v hv => ?_⟩
  have hpart := length_le_length_flatMap (f := cellBytes) hv
  simp only [cellBytes, writeBytes, List.length_append] at hpart
  omega

/-- Rows that are short as a whole fit the fields of their lengths. -/
theorem rowsFit_of_length {rows : List (List Value)} (hlen : (rowsBytes rows).length < 2 ^ 32) :
    RowsFit rows := by
  have hcount := mul_length_le_length_flatMap (f := rowBytes) (k := 4) (by simp [rowBytes]) rows
  simp only [rowsBytes, List.length_append] at hlen
  refine ⟨by omega, fun row hrow => rowFits_of_length ?_⟩
  have hpart := length_le_length_flatMap (f := rowBytes) hrow
  omega

/-- A response whose encoding is shorter than 4 GiB has only lengths that fit their fields. -/
theorem Response.fits_of_length {r : Response} (hlen : r.encode.length < 2 ^ 32) : r.Fits := by
  rw [encode_eq] at hlen
  cases r with
  | rows columns rs =>
    simp only [Response.bytes, List.length_cons, List.length_append] at hlen
    exact ⟨columnsFit_of_length (by omega), rowsFit_of_length (by omega)⟩
  | error msg =>
    simp only [Response.bytes, writeBytes, List.length_cons, List.length_append] at hlen
    change (utf8 msg).length < 2 ^ 32
    omega
  | rowsHeader columns =>
    simp only [Response.bytes, List.length_cons] at hlen
    exact columnsFit_of_length (by omega)
  | rowsChunk rs =>
    simp only [Response.bytes, List.length_cons] at hlen
    exact rowsFit_of_length (by omega)
  | resultSets sets =>
    have hcount := mul_length_le_length_flatMap (f := setBytes) (k := 4)
      (by simp [setBytes, columnsBytes]) sets
    simp only [Response.bytes, List.length_cons, List.length_append] at hlen
    refine ⟨by omega, fun set hset => ?_⟩
    have hpart := length_le_length_flatMap (f := setBytes) hset
    simp only [setBytes, List.length_append] at hpart
    exact ⟨columnsFit_of_length (by omega), rowsFit_of_length (by omega)⟩
  | _ => trivial

/-! ## Reading responses back -/

/-- Column names are read back when their lengths and their count fit. -/
theorem decodeColumns_reads {columns : List String} (h : ColumnsFit columns) :
    Reads decodeColumns (columnsBytes columns) columns :=
  Cursor.counted_reads h.1 fun col hcol => Cursor.string_reads (h.2 col hcol)

/-- A row is read back when its cells and their count fit. -/
theorem decodeRow_reads {row : List Value} (h : RowFits row) : Reads decodeRow (rowBytes row) row :=
  Cursor.counted_reads h.1 fun v hv => Cursor.cell_reads (h.2 v hv)

/-- Rows are read back when their cells and their counts fit. -/
theorem decodeRows_reads {rows : List (List Value)} (h : RowsFit rows) :
    Reads decodeRows (rowsBytes rows) rows :=
  Cursor.counted_reads h.1 fun row hrow => decodeRow_reads (h.2 row hrow)

/-- A result set that fits its fields is read back, the columns first and then the rows. -/
theorem decodeSet_reads {set : List String × List (List Value)} (h : SetFits set) :
    Reads decodeSet (setBytes set) set :=
  (decodeColumns_reads h.1).bind ((decodeRows_reads h.2).map fun rows => (set.1, rows))

/-- A response is read back when everything in it fits its field. -/
theorem Response.read_reads {r : Response} (h : r.Fits) : Reads Response.read r.encode r := by
  rw [encode_eq]
  cases r with
  | rows columns rs =>
    exact (Cursor.u8_reads _).bind ((decodeColumns_reads h.1).bind
      ((decodeRows_reads h.2).map (Response.rows columns ·)))
  | mutation affected =>
    exact (Cursor.u8_reads _).bind ((Cursor.u64_reads affected).map Response.mutation)
  | ddl => exact (Cursor.u8_reads _).bind (Reads.pure _)
  | error msg => exact (Cursor.u8_reads _).bind ((Cursor.string_reads h).map Response.error)
  | prepared id params =>
    exact (Cursor.u8_reads _).bind ((Cursor.u32_reads id).bind
      ((Cursor.u16_reads params).map (Response.prepared id ·)))
  | rowsHeader columns =>
    exact (Cursor.u8_reads _).bind ((decodeColumns_reads h).map Response.rowsHeader)
  | rowsChunk rs => exact (Cursor.u8_reads _).bind ((decodeRows_reads h).map Response.rowsChunk)
  | rowsEnd => exact (Cursor.u8_reads _).bind (Reads.pure _)
  | resultSets sets =>
    have hset : ∀ set ∈ sets, Reads decodeSet (setBytes set) set :=
      fun set hset => decodeSet_reads (h.2 set hset)
    have hsets : Reads decodeSets _ _ := Cursor.counted_reads h.1 hset
    exact (Cursor.u8_reads _).bind (hsets.map Response.resultSets)

/-- Reading column names is stable: what comes behind them does not matter. -/
theorem decodeColumns_stable : Stable decodeColumns :=
  Cursor.u32_stable.bind fun _ => Cursor.string_stable.times _

/-- Reading rows is stable: what comes behind them does not matter. -/
theorem decodeRows_stable : Stable decodeRows :=
  Cursor.u32_stable.bind fun _ =>
    Stable.times (Cursor.u32_stable.bind fun _ => Cursor.cell_stable.times _) _

/-- Reading a response is stable, so that no proper prefix of an encoding is one. -/
theorem Response.read_stable : Stable Response.read := by
  refine (Stable.symbol _).bind fun tag => ?_
  unfold Response.readBody
  split
  · exact decodeColumns_stable.bind fun _ => decodeRows_stable.bind fun _ => Stable.pure _
  · exact Cursor.u64_stable.bind fun _ => Stable.pure _
  · exact Stable.pure _
  · exact Cursor.string_stable.bind fun _ => Stable.pure _
  · exact Cursor.u32_stable.bind fun _ => Cursor.u16_stable.bind fun _ => Stable.pure _
  · exact decodeColumns_stable.bind fun _ => Stable.pure _
  · exact decodeRows_stable.bind fun _ => Stable.pure _
  · exact Stable.pure _
  · have hset : Stable decodeSet :=
      decodeColumns_stable.bind fun _ => decodeRows_stable.bind fun _ => Stable.pure _
    have hsets : Stable decodeSets := Cursor.u32_stable.bind fun _ => hset.times _
    exact hsets.bind fun _ => Stable.pure _
  · exact Stable.fail _

/-- Column names that were read fit their fields, so encoding them again loses nothing. -/
theorem decodeColumns_yields : Yields decodeColumns ColumnsFit :=
  Cursor.counted_yields Cursor.string_yields

/-- Rows that were read from bytes fit their fields, so that they can be encoded again. -/
theorem decodeRows_yields : Yields decodeRows RowsFit :=
  Cursor.counted_yields (Cursor.counted_yields Cursor.cell_yields)

/-- A response that was read fits its fields, so encoding it again loses nothing. -/
theorem Response.read_yields : Yields Response.read Response.Fits := by
  refine (Yields.trivial Cursor.u8).bind fun tag _ => ?_
  unfold Response.readBody
  split
  · exact decodeColumns_yields.bind fun _ hcolumns => decodeRows_yields.bind fun _ hrows =>
      Yields.pure ⟨hcolumns, hrows⟩
  · exact (Yields.trivial _).bind fun _ _ => Yields.pure trivial
  · exact Yields.pure trivial
  · exact Cursor.string_yields.bind fun _ hmsg => Yields.pure hmsg
  · exact (Yields.trivial _).bind fun _ _ => (Yields.trivial _).bind fun _ _ => Yields.pure trivial
  · exact decodeColumns_yields.bind fun _ hcolumns => Yields.pure hcolumns
  · exact decodeRows_yields.bind fun _ hrows => Yields.pure hrows
  · exact Yields.pure trivial
  · have hset : Yields decodeSet SetFits := decodeColumns_yields.bind fun _ hcolumns =>
      decodeRows_yields.bind fun _ hrows => Yields.pure ⟨hcolumns, hrows⟩
    have hsets : Yields decodeSets _ := Cursor.counted_yields hset
    exact hsets.bind fun _ hfits => Yields.pure hfits
  · exact Yields.fail _ _

/-- A response that fits is decoded from its encoding. -/
theorem Response.decode_encode {r : Response} (h : r.Fits) : Response.decode r.encode = .ok r := by
  have hparse := (read_reads h).parse []
  rwa [List.append_nil] at hparse

/-- **Response wire format.** A response whose encoding is shorter than a 32-bit
length can tell is decoded from its encoding, whatever follows, and from no proper
prefix of it. -/
theorem response_codec (r : Response) (hlen : r.encode.length < 2 ^ 32) :
    (∀ t, Response.decode (r.encode ++ t) = .ok r) ∧
      (∀ bytes, bytes <+: r.encode → bytes ≠ r.encode →
        ∃ e, Response.decode bytes = .error e) := by
  have hreads := Response.read_reads (Response.fits_of_length hlen)
  refine ⟨hreads.parse, fun bytes hpre hne => ?_⟩
  obtain ⟨e, he⟩ := hreads.prefix_rejected Response.read_stable hpre hne
  exact ⟨e, parse_eq_error he⟩

/-- Two result sets, one of them with a row, come back from their bytes. -/
theorem response_codec_sets :
    Response.decode [8, 2, 0, 0, 0, 1, 0, 0, 0, 1, 0, 0, 0, 97, 1, 0, 0, 0, 1, 0, 0, 0,
        1, 0, 0, 0, 0, 0, 0, 0, 0, 0, 0, 0, 0] =
      .ok (.resultSets [(["a"], [[Value.null]]), ([], [])]) :=
  (response_codec (.resultSets [(["a"], [[Value.null]]), ([], [])]) (by decide)).1 []

/-! ## Tagged responses -/

/-- The bytes of a tagged response are the wrapper, the identifier, and the response's own bytes. -/
theorem encodeInto_tagResponse (id : UInt32) (r : Response) :
    r.encodeInto (tagResponse [] id) = Resp.tagged :: (leBytes 4 id.toNat ++ r.encode) := by
  rw [Response.encodeInto_eq, Response.encode_eq, tagResponse]
  simp

/-- A response behind the wrapper is decoded with its identifier. -/
theorem decodeTaggedResponse_tagged (id : UInt32) {rest : List UInt8} (hne : rest ≠ []) :
    decodeTaggedResponse (Resp.tagged :: (leBytes 4 id.toNat ++ rest)) =
      (Response.decode rest).map fun r => (some id, r) := by
  obtain ⟨hid, hdrop, -, hlen⟩ := wrapper_parts Resp.tagged id rest
  have hpos : 0 < rest.length := List.length_pos_iff.mpr hne
  rw [decodeTaggedResponse, if_pos List.head?_cons, if_neg (by omega)]
  dsimp only
  rw [hid, hdrop]
  cases Response.decode rest <;> rfl

/-- The response is not a reply with several result sets. -/
def Response.IsSingle : Response → Prop
  | .resultSets _ => False
  | _ => True

/-- Only several result sets start with the wrapper's tag. -/
theorem Response.head_encode_eq_tagged_iff (r : Response) :
    r.encode.head? = some Resp.tagged ↔ ¬ r.IsSingle := by
  rw [encode_eq]
  cases r <;> simp [Response.bytes, IsSingle] <;> decide

/-- **Tagged responses.** A response is told apart from a tagged one, and comes back in
both forms, exactly when it is not a reply with several result sets and fits its
fields. -/
theorem tagged_response_iff (r : Response) (id : UInt32) :
    (decodeTaggedResponse r.encode = .ok (none, r) ∧
      decodeTaggedResponse (r.encodeInto (tagResponse [] id)) = .ok (some id, r)) ↔
    r.IsSingle ∧ r.Fits := by
  have hne : r.encode ≠ [] := by
    rw [Response.encode_eq]
    cases r <;> simp [Response.bytes]
  rw [encodeInto_tagResponse, decodeTaggedResponse_tagged id hne]
  constructor
  · rintro ⟨hplain, htagged⟩
    constructor
    · by_contra hsets
      rw [decodeTaggedResponse, if_pos (r.head_encode_eq_tagged_iff.mpr hsets)] at hplain
      split at hplain
      · cases hplain
      · cases hdecode : Response.decode (r.encode.drop 5) with
        | error e => simp [hdecode] at hplain
        | ok w => simp [hdecode] at hplain
    · cases hdecode : Response.decode r.encode with
      | error e => simp [hdecode, Except.map] at htagged
      | ok w =>
        obtain rfl : w = r := by simpa [hdecode, Except.map] using htagged
        exact Response.read_yields.parse hdecode
  · rintro ⟨hsingle, hfits⟩
    have hdecode := Response.decode_encode hfits
    have hhead : r.encode.head? ≠ some Resp.tagged :=
      fun h => r.head_encode_eq_tagged_iff.mp h hsingle
    rw [decodeTaggedResponse, if_neg hhead, hdecode]
    exact ⟨rfl, rfl⟩

/-- A plain reply with two result sets is decoded as a tagged response with an
identifier that nobody sent. -/
theorem tagged_response_clash :
    decodeTaggedResponse (Response.resultSets [([], []), ([], [])]).encode =
        .ok (some 2, .rows [] []) ∧
      decodeTaggedResponse (Response.resultSets [([], []), ([], [])]).encode ≠
        .ok (none, .resultSets [([], []), ([], [])]) := by
  have hdecode : decodeTaggedResponse (Response.resultSets [([], []), ([], [])]).encode =
      .ok (some 2, .rows [] []) := rfl
  refine ⟨hdecode, ?_⟩
  rw [hdecode]
  intro heq
  cases heq

end Skaidb
