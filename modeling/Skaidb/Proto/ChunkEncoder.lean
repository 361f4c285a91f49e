import Skaidb.Proto.ResponseCodec

/-!
# Chunks that are encoded row by row

A sender may append the rows of a chunk one at a time to a buffer that already holds other
bytes. The number of rows is filled in at the end, at a place that is remembered from the
beginning. What is appended is what the encoding of the whole chunk appends.
-/

namespace Skaidb

open Codec

/-- A chunk of rows under way: where the count of its rows is written when it is finished, and the
count so far. -/
structure RowsChunkEncoder where
  /-- Where the number of rows is filled in. -/
  countPos : ℕ
  /-- The rows so far. -/
  count : ℕ
  /-- The number fits its field. -/
  count_lt : count < 2 ^ 32

namespace RowsChunkEncoder

/-- `RowsChunkEncoder::begin`: start a chunk behind what the buffer holds, with its count still
zero. -/
def begin (out : List UInt8) : RowsChunkEncoder × List UInt8 :=
  let out := out ++ [Resp.rowsChunk]
  let countPos := out.length
  (⟨countPos, 0, Nat.two_pow_pos 32⟩, out ++ [0, 0, 0, 0])

/-- Append a row. There is no result when the number of rows overflows. -/
def pushRow (enc : RowsChunkEncoder) (out : List UInt8) (row : List Value) :
    Option (RowsChunkEncoder × List UInt8) :=
  let out := encodeRowInto out row
  if h : enc.count + 1 < 2 ^ 32 then some (⟨enc.countPos, enc.count + 1, h⟩, out) else none

/-- Fill in the number of rows. There is no result when its place is not in the buffer. -/
def finish (enc : RowsChunkEncoder) (out : List UInt8) : Option (List UInt8) :=
  if enc.countPos + 4 ≤ out.length then some (patch out enc.countPos (leBytes 4 enc.count))
  else none

/-- Start a chunk, append the rows in turn and finish it. -/
def encodeAll (out : List UInt8) (rows : List (List Value)) : Option (List UInt8) := do
  let (enc, out) ← rows.foldlM (fun state row => pushRow state.1 state.2 row) (begin out)
  finish enc out

/-- The chunk under way stands behind the first bytes and has the rows so far. -/
structure Holds (start : List UInt8) (rows : List (List Value)) (enc : RowsChunkEncoder)
    (out : List UInt8) : Prop where
  /-- The number of rows comes behind the tag. -/
  countPos_eq : enc.countPos = start.length + 1
  /-- Every row is counted. -/
  count_eq : enc.count = rows.length
  /-- The rows follow the place of their number. -/
  out_eq : out = start ++ [Resp.rowsChunk] ++ [0, 0, 0, 0] ++ rows.flatMap rowBytes

variable {start out : List UInt8} {rows : List (List Value)} {enc : RowsChunkEncoder}

/-- A chunk that is started holds no rows yet. -/
theorem holds_begin (start : List UInt8) : Holds start [] (begin start).1 (begin start).2 :=
  ⟨by simp [begin], rfl, by simp [begin]⟩

/-- A chunk that is given one more row holds this row behind the others. -/
theorem Holds.pushRow (h : Holds start rows enc out) {row : List Value}
    (hfits : (rows ++ [row]).length < 2 ^ 32) :
    ∃ enc' out', enc.pushRow out row = some (enc', out') ∧
      Holds start (rows ++ [row]) enc' out' := by
  have hcount : enc.count + 1 < 2 ^ 32 := by
    rw [h.count_eq]
    simpa using hfits
  refine ⟨⟨enc.countPos, enc.count + 1, hcount⟩, encodeRowInto out row, dif_pos hcount, ?_⟩
  refine ⟨h.countPos_eq, by simp [h.count_eq], ?_⟩
  rw [encodeRowInto_eq, h.out_eq, List.flatMap_append, List.flatMap_singleton, List.append_assoc]

/-- A chunk that is given rows in turn holds them behind the others. -/
theorem Holds.pushRows (h : Holds start rows enc out) (more : List (List Value))
    (hfits : (rows ++ more).length < 2 ^ 32) :
    ∃ enc' out', more.foldlM (fun state row => RowsChunkEncoder.pushRow state.1 state.2 row)
        (enc, out) = some (enc', out') ∧ Holds start (rows ++ more) enc' out' := by
  induction more generalizing rows enc out with
  | nil => exact ⟨enc, out, rfl, by simpa using h⟩
  | cons row more ih =>
    have hlen : (rows ++ [row]).length < 2 ^ 32 := by
      simp only [List.length_append, List.length_cons, List.length_nil] at hfits ⊢
      omega
    obtain ⟨mid, between, hpush, hmid⟩ := h.pushRow hlen
    obtain ⟨enc', out', hrest, hholds⟩ := ih hmid (by simpa using hfits)
    refine ⟨enc', out', ?_, by simpa using hholds⟩
    rw [List.foldlM_cons, hpush]
    exact hrest

/-- A chunk that is finished is the encoding of the rows it holds. -/
theorem Holds.finish (h : Holds start rows enc out) :
    enc.finish out = some (start ++ (Response.rowsChunk rows).encode) := by
  have hlen : enc.countPos + 4 ≤ out.length := by
    rw [h.countPos_eq, h.out_eq]
    simp only [List.length_append, List.length_cons, List.length_nil]
    omega
  have hpos : enc.countPos = (start ++ [Resp.rowsChunk]).length := by simp [h.countPos_eq]
  have hfield : ([0, 0, 0, 0] : List UInt8).length = (leBytes 4 rows.length).length := by simp
  rw [RowsChunkEncoder.finish, if_pos hlen, h.out_eq, hpos, h.count_eq,
    patch_append _ _ _ _ hfield, Response.encode_eq, Response.bytes, rowsBytes]
  simp only [List.append_assoc, List.cons_append, List.nil_append]

/-- **A chunk row by row.** For every buffer and fewer than 2^32 rows, starting a chunk,
appending the rows in turn and finishing leaves what the buffer held followed by the encoding
of the chunk. -/
theorem encodeAll_eq (out : List UInt8) (rows : List (List Value)) (h : rows.length < 2 ^ 32) :
    encodeAll out rows = some (out ++ (Response.rowsChunk rows).encode) := by
  obtain ⟨enc, out', hrows, hholds⟩ := (holds_begin out).pushRows rows (by simpa using h)
  rw [List.nil_append] at hholds
  unfold encodeAll
  rw [show begin out = ((begin out).1, (begin out).2) from rfl, hrows]
  exact hholds.finish

/-- A chunk of a row with one null and an empty row is encoded behind two other bytes, which
stay. -/
theorem encodeAll_two_rows :
    encodeAll [1, 2] [[Value.null], []] =
      some [1, 2, 6, 2, 0, 0, 0, 1, 0, 0, 0, 1, 0, 0, 0, 0, 0, 0, 0, 0] :=
  (encodeAll_eq [1, 2] [[Value.null], []] (by decide)).trans rfl

end RowsChunkEncoder

end Skaidb
