import Skaidb.Proto.Message

/-!
# The fields of messages

What the encoders append for the parts of a message, and how a cursor reads each part
back. A part is read back whatever follows it, a success does not depend on what
follows, and what is read fits the field it came from.
-/

namespace Skaidb

open Codec Reader

/-! ## Encoders append -/

/-- A loop that appends for every element appends the concatenation. -/
theorem foldl_eq_append_flatMap {α : Type} {f : List UInt8 → α → List UInt8} {g : α → List UInt8}
    (hf : ∀ out a, f out a = out ++ g a) (out : List UInt8) (items : List α) :
    items.foldl f out = out ++ items.flatMap g := by
  induction items generalizing out with
  | nil => simp
  | cons a items ih => rw [List.foldl_cons, ih, hf, List.flatMap_cons, List.append_assoc]

/-- Filling in a field overwrites it and nothing else. -/
theorem patch_append (out field rest bytes : List UInt8) (hlen : field.length = bytes.length) :
    patch (out ++ field ++ rest) out.length bytes = out ++ bytes ++ rest := by
  rw [patch, List.append_assoc out field rest, List.take_left' rfl, ← hlen,
    ← List.append_assoc out field rest, ← List.length_append, List.drop_left' rfl]

/-- The bytes of a value behind its length. -/
def cellBytes (v : Value) : List UInt8 := writeBytes v.encode

/-- A cell is appended as a value behind its length, like every other field of bytes. -/
theorem encodeCell_eq (out : List UInt8) (v : Value) : encodeCell out v = out ++ cellBytes v := by
  have hlen : (out ++ [0, 0, 0, 0] ++ v.encode).length - out.length - 4 = v.encode.length := by
    simp only [List.length_append, List.length_cons, List.length_nil]
    omega
  rw [encodeCell, hlen, patch_append _ _ _ _ (by simp), cellBytes, writeBytes, List.append_assoc]

/-! ## Reading parts back -/

/-- A 32-bit number is read back, whatever the error of a short message. -/
theorem reads_u32 (short : ProtoError) (n : UInt32) :
    Reads (Reader.take short 4 >>= fun bytes => pure (UInt32.ofNat (ofLeBytes bytes)))
      (leBytes 4 n.toNat) n := by
  have h := (Reads.take short (length_leBytes 4 n.toNat)).map
    (fun bytes => UInt32.ofNat (ofLeBytes bytes))
  rwa [ofLeBytes_leBytes_of_lt (show n.toNat < 256 ^ 4 from n.toNat_lt), UInt32.ofNat_toNat] at h

/-- A byte string behind its length is read back, for any error that a short input is given. -/
theorem reads_bytes (short : ProtoError) {b : List UInt8} (hlen : b.length < 2 ^ 32) :
    Reads (Reader.take short 4 >>= (fun bytes => pure (UInt32.ofNat (ofLeBytes bytes))) >>=
      fun n => Reader.take short n.toNat) (writeBytes b) b := by
  have hcount : (UInt32.ofNat b.length).toNat = b.length := UInt32.toNat_ofNat_of_lt' hlen
  have hread := reads_u32 short (UInt32.ofNat b.length)
  rw [hcount] at hread
  exact hread.bind (Reads.take short hcount.symm)

/-- A string behind its length is read back, for any errors of a short or ill-formed input. -/
theorem reads_string (short bad : ProtoError) {s : String} (hlen : (utf8 s).length < 2 ^ 32) :
    Reads (Reader.take short 4 >>= (fun bytes => pure (UInt32.ofNat (ofLeBytes bytes))) >>=
      (fun n => Reader.take short n.toNat) >>=
      fun bytes => Reader.ofOption bad (fromUtf8 bytes)) (writeBytes (utf8 s)) s := by
  have h := (reads_bytes short hlen).bind
    (f := fun bytes => Reader.ofOption bad (fromUtf8 bytes)) (y := [])
    (c := s) (by rw [fromUtf8_utf8]; exact Reads.pure s)
  rwa [List.append_nil] at h

namespace Cursor

/-- A byte is read back by `u8`, as the single byte it was written as. -/
theorem u8_reads (b : UInt8) : Reads u8 [b] b := Reads.symbol _ b

/-- A number behind a 16-bit field is read back modulo the field's range. -/
theorem u16_reads_ofNat (n : ℕ) : Reads u16 (leBytes 2 n) (UInt16.ofNat n) := by
  have h := (Reads.take (ProtoError.malformed "unexpected end") (length_leBytes 2 n)).map
    (fun bytes => UInt16.ofNat (ofLeBytes bytes))
  have hmod : UInt16.ofNat (n % 256 ^ 2) = UInt16.ofNat n := UInt16.toNat_inj.mp (by simp)
  rwa [ofLeBytes_leBytes, hmod] at h

/-- A 16-bit number is read back by `u16` from the two bytes it was written as. -/
theorem u16_reads (n : UInt16) : Reads u16 (leBytes 2 n.toNat) n := by
  have h := u16_reads_ofNat n.toNat
  rwa [UInt16.ofNat_toNat] at h

/-- A 32-bit number is read back by `u32` from the four bytes it was written as. -/
theorem u32_reads (n : UInt32) : Reads u32 (leBytes 4 n.toNat) n := reads_u32 _ n

/-- A 64-bit number is read back by `u64` from the eight bytes it was written as. -/
theorem u64_reads (n : UInt64) : Reads u64 (leBytes 8 n.toNat) n := by
  have h := (Reads.take (ProtoError.malformed "unexpected end") (length_leBytes 8 n.toNat)).map
    (fun bytes => UInt64.ofNat (ofLeBytes bytes))
  rwa [ofLeBytes_leBytes_of_lt (show n.toNat < 256 ^ 8 from n.toNat_lt), UInt64.ofNat_toNat] at h

/-- A list behind a 32-bit count that fits is read back when its elements are. -/
theorem counted_reads {α : Type} {r : Cursor α} {enc : α → List UInt8} {items : List α}
    (hlen : items.length < 2 ^ 32) (hr : ∀ a ∈ items, Reads r (enc a) a) :
    Reads (u32 >>= fun n => times n.toNat r) (leBytes 4 items.length ++ items.flatMap enc)
      items := by
  have hcount : (UInt32.ofNat items.length).toNat = items.length := UInt32.toNat_ofNat_of_lt' hlen
  have hread := u32_reads (UInt32.ofNat items.length)
  have htimes := Reads.times hr
  rw [hcount] at hread
  rw [← hcount] at htimes
  exact hread.bind htimes

/-- A byte string is read back by `bytes`, provided its length fits 32 bits. -/
theorem bytes_reads {b : List UInt8} (hlen : b.length < 2 ^ 32) :
    Reads bytes (writeBytes b) b := reads_bytes _ hlen

/-- A string is read back by `string`, provided its length fits 32 bits. -/
theorem string_reads {s : String} (hlen : (utf8 s).length < 2 ^ 32) :
    Reads string (writeBytes (utf8 s)) s := reads_string _ _ hlen

/-- A consistency level is read back from the byte it was written as. -/
theorem consistency_reads (c : Consistency) : Reads consistency [c.toU8] c := by
  cases c <;> exact fun _ => rfl

/-- A value behind its length is read back as the value, when the length fits its field. -/
theorem cell_reads {v : Value} (hlen : v.encode.length < 2 ^ 32) :
    Reads cell (cellBytes v) v := by
  have hdecode : Value.decode v.encode = .ok v :=
    Value.decode_encode (RawValue.sized_of_length hlen)
  have h := (bytes_reads hlen).bind (f := fun bytes =>
    Reader.ofOption (.malformed "bad value encoding") (Value.decode bytes).toOption) (y := [])
    (c := v) (by rw [hdecode]; exact Reads.pure v)
  rwa [List.append_nil] at h

/-! ## Success is stable -/

/-- What is read as a 16-bit number does not depend on what follows it. -/
theorem u16_stable : Stable u16 := (Stable.take _ 2).bind fun _ => Stable.pure _

/-- What is read as a 32-bit number does not depend on what follows it. -/
theorem u32_stable : Stable u32 := (Stable.take _ 4).bind fun _ => Stable.pure _

/-- What is read as a 64-bit number does not depend on what follows it. -/
theorem u64_stable : Stable u64 := (Stable.take _ 8).bind fun _ => Stable.pure _

/-- What is read as a byte string does not depend on what follows it. -/
theorem bytes_stable : Stable bytes := u32_stable.bind fun n => Stable.take _ n.toNat

/-- Reading a string is stable: what comes behind the string does not matter. -/
theorem string_stable : Stable string := bytes_stable.bind fun _ => Stable.ofOption _ _

/-- What is read as a consistency level does not depend on what follows it. -/
theorem consistency_stable : Stable consistency :=
  (Stable.symbol _).bind fun _ => Stable.ofOption _ _

/-- Reading a cell is stable: what comes behind the cell does not matter. -/
theorem cell_stable : Stable cell := bytes_stable.bind fun _ => Stable.ofOption _ _

/-! ## What is read fits its field -/

/-- A byte string is shorter than its length field allows. -/
theorem bytes_yields : Yields bytes fun b => b.length < 2 ^ 32 := by
  refine (Yields.trivial u32).bind fun n _ input out rest h => ?_
  rw [Yields.take _ _ _ _ _ h]
  exact n.toNat_lt

/-- A string is shorter than its length field allows. -/
theorem string_yields : Yields string fun s => (utf8 s).length < 2 ^ 32 := by
  refine bytes_yields.bind fun b hb input s rest h => ?_
  rwa [utf8_of_fromUtf8 (Yields.ofOption _ _ _ _ _ h)]

/-- The encoding of a value that was read is shorter than its length field allows. -/
theorem cell_yields : Yields cell fun v => v.encode.length < 2 ^ 32 := by
  refine bytes_yields.bind fun b hb input v rest h => ?_
  have hvalue := Yields.ofOption _ _ _ _ _ h
  cases hdecode : Value.decode b with
  | error e => simp [hdecode, Except.toOption] at hvalue
  | ok w =>
    obtain rfl : w = v := by simpa [hdecode, Except.toOption] using hvalue
    exact lt_of_le_of_lt (Value.sized_of_decode hdecode).2 hb

/-- A counted list is shorter than its count allows. -/
theorem counted_yields {α : Type} {r : Cursor α} {P : α → Prop} (hr : Yields r P) :
    Yields (u32 >>= fun n => times n.toNat r)
      fun items => items.length < 2 ^ 32 ∧ ∀ a ∈ items, P a := by
  refine (Yields.trivial u32).bind fun n _ input items rest h => ?_
  obtain ⟨hlen, hitems⟩ := hr.times n.toNat _ _ _ h
  exact ⟨by rw [hlen]; exact n.toNat_lt, hitems⟩

end Cursor

/-! ## The pipelining wrapper -/

/-- Behind a wrapper's tag there stand its identifier and then the message, as the decoder cuts
them. -/
theorem wrapper_parts (tag : UInt8) (id : UInt32) (rest : List UInt8) :
    UInt32.ofNat (ofLeBytes (((tag :: (leBytes 4 id.toNat ++ rest)).drop 1).take 4)) = id ∧
      (tag :: (leBytes 4 id.toNat ++ rest)).drop 5 = rest ∧
      (tag :: (leBytes 4 id.toNat ++ rest))[5]? = rest.head? ∧
      (tag :: (leBytes 4 id.toNat ++ rest)).length = rest.length + 5 := by
  have hlen : (leBytes 4 id.toNat).length = 4 := length_leBytes 4 id.toNat
  have hid : id.toNat < 256 ^ 4 := id.toNat_lt
  refine ⟨?_, ?_, ?_, ?_⟩
  · rw [List.drop_one, List.tail_cons, List.take_left' hlen, ofLeBytes_leBytes_of_lt hid,
      UInt32.ofNat_toNat]
  · exact List.drop_left' hlen
  · rw [List.getElem?_cons_succ, List.getElem?_append_right (by omega), hlen,
      List.head?_eq_getElem?]
  · simp only [List.length_cons, List.length_append, hlen]
    omega

end Skaidb
