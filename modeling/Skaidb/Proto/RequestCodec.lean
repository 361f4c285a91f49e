import Skaidb.Proto.Frame
import Skaidb.Proto.Fields

/-!
# The request wire format

Every request is read back from its encoding, whatever follows, provided the counts
and lengths in it fit the fields that carry them. The count of a parameter list
is a 16-bit field and is narrowed silently, so that a longer list is read back as
its first parameters only.
-/

namespace Skaidb

open Codec Reader

/-- The bytes of a parameter list behind its count. -/
def paramsBytes (params : List Value) : List UInt8 :=
  leBytes 2 params.length ++ params.flatMap cellBytes

/-- A parameter list is appended as a counted list of cells. -/
theorem encodeParams_eq (out : List UInt8) (params : List Value) :
    encodeParams out params = out ++ paramsBytes params := by
  rw [encodeParams, foldl_eq_append_flatMap encodeCell_eq, paramsBytes, List.append_assoc]

/-- Encoding a request into a buffer appends the bytes it is encoded as alone. -/
theorem ClientRequest.encodeInto_eq (out : List UInt8) (r : ClientRequest) :
    r.encodeInto out = out ++ r.encode := by
  unfold ClientRequest.encode
  cases r with
  | query sql consistency => simp [encodeInto]
  | prepare sql => simp [encodeInto]
  | execute id params consistency => simp [encodeInto, encodeParams_eq]
  | close id => simp [encodeInto]
  | queryStream sql params consistency =>
    by_cases h : params.isEmpty <;> simp [encodeInto, encodeParams_eq, h]
  | executeBatch id rows consistency =>
    simp [encodeInto, foldl_eq_append_flatMap encodeParams_eq]
  | hello clientName clientVersion => simp [encodeInto]

/-! ## Reading requests back -/

/-- A parameter list is read back up to its length modulo the range of the count. -/
theorem Cursor.params_reads_take {ps : List Value} (hcells : ∀ v ∈ ps, v.encode.length < 2 ^ 32) :
    Reads Cursor.params
      (leBytes 2 ps.length ++ (ps.take (ps.length % 65536)).flatMap cellBytes)
      (ps.take (ps.length % 65536)) := by
  have hcount : (UInt16.ofNat ps.length).toNat = (ps.take (ps.length % 65536)).length := by
    have hmod := Nat.mod_le ps.length 65536
    rw [List.length_take_of_le hmod]
    rfl
  have hcell : ∀ v ∈ ps.take (ps.length % 65536), Reads Cursor.cell (cellBytes v) v :=
    fun v hv => cell_reads (hcells v (List.mem_of_mem_take hv))
  have htimes := Reads.times hcell
  rw [← hcount] at htimes
  exact (u16_reads_ofNat ps.length).bind htimes

/-- A parameter list that fits its count is read back. -/
theorem Cursor.params_reads {ps : List Value} (hlen : ps.length ≤ 65535)
    (hcells : ∀ v ∈ ps, v.encode.length < 2 ^ 32) :
    Reads Cursor.params (paramsBytes ps) ps := by
  have h := params_reads_take hcells
  rwa [Nat.mod_eq_of_lt (by omega), List.take_length] at h

/-- What is read as a parameter list does not depend on what follows it. -/
theorem Cursor.params_stable : Stable Cursor.params :=
  u16_stable.bind fun _ => cell_stable.times _

/-- A parameter list that was read fits its count. -/
theorem Cursor.params_yields : Yields Cursor.params fun ps => ps.length ≤ 65535 := by
  refine (Yields.trivial Cursor.u16).bind fun n _ input ps rest h => ?_
  have hn := n.toNat_lt
  have hlen := ((Yields.trivial Cursor.cell).times n.toNat _ _ _ h).1
  omega

/-- Reading a request is stable, so that no proper prefix of an encoding is one. -/
theorem ClientRequest.read_stable : Stable ClientRequest.read := by
  refine (Stable.symbol _).bind fun op => ?_
  unfold ClientRequest.readBody
  split
  · exact Cursor.consistency_stable.bind fun _ => Cursor.string_stable.bind fun _ => Stable.pure _
  · exact Cursor.string_stable.bind fun _ => Stable.pure _
  · exact Cursor.consistency_stable.bind fun _ => Cursor.u32_stable.bind fun _ =>
      Cursor.params_stable.bind fun _ => Stable.pure _
  · exact Cursor.u32_stable.bind fun _ => Stable.pure _
  · exact Cursor.string_stable.bind fun _ => Cursor.string_stable.bind fun _ => Stable.pure _
  · exact Cursor.consistency_stable.bind fun _ => Cursor.u32_stable.bind fun _ =>
      Cursor.u32_stable.bind fun _ => (Cursor.params_stable.times _).bind fun _ => Stable.pure _
  · exact Cursor.consistency_stable.bind fun _ => Cursor.string_stable.bind fun _ => Stable.pure _
  · exact Cursor.consistency_stable.bind fun _ => Cursor.string_stable.bind fun _ =>
      Cursor.params_stable.bind fun _ => Stable.pure _
  · exact Stable.fail _

/-- The parameter lists that a request carries: one for an execution, one a row for a batch. -/
def ClientRequest.paramLists : ClientRequest → List (List Value)
  | .execute _ params _ => [params]
  | .queryStream _ params _ => [params]
  | .executeBatch _ rows _ => rows
  | _ => []

/-- A request is encoded as its opcode and then its fields, without the patched lengths. -/
theorem ClientRequest.encode_eq (r : ClientRequest) :
    r.encode = match r with
      | .query sql consistency => Op.query :: (consistency.toU8 :: writeBytes (utf8 sql))
      | .prepare sql => Op.prepare :: writeBytes (utf8 sql)
      | .execute id params consistency =>
        Op.execute :: (consistency.toU8 :: (leBytes 4 id.toNat ++ paramsBytes params))
      | .close id => Op.close :: leBytes 4 id.toNat
      | .queryStream sql params consistency =>
        if params.isEmpty then Op.queryStream :: (consistency.toU8 :: writeBytes (utf8 sql))
        else Op.queryStreamParams ::
          (consistency.toU8 :: (writeBytes (utf8 sql) ++ paramsBytes params))
      | .executeBatch id rows consistency =>
        Op.executeBatch :: (consistency.toU8 ::
          (leBytes 4 id.toNat ++ (leBytes 4 rows.length ++ rows.flatMap paramsBytes)))
      | .hello clientName clientVersion =>
        Op.hello :: (writeBytes (utf8 clientName) ++ writeBytes (utf8 clientVersion)) := by
  cases r with
  | query sql consistency => rfl
  | prepare sql => rfl
  | execute id params consistency =>
    simp [ClientRequest.encode, encodeInto, encodeParams_eq]
  | close id => rfl
  | queryStream sql params consistency =>
    by_cases h : params.isEmpty <;> simp [ClientRequest.encode, encodeInto, encodeParams_eq, h]
  | executeBatch id rows consistency =>
    simp [ClientRequest.encode, encodeInto, foldl_eq_append_flatMap encodeParams_eq]
  | hello clientName clientVersion => rfl

/-- The cells of a short parameter list are short. -/
theorem length_encode_lt_of_paramsBytes {ps : List Value}
    (hlen : (paramsBytes ps).length < 2 ^ 32) :
    ∀ v ∈ ps, v.encode.length < 2 ^ 32 := by
  intro v hv
  have hpart := length_le_length_flatMap (f := cellBytes) hv
  simp only [cellBytes, writeBytes, List.length_append] at hpart
  simp only [paramsBytes, List.length_append] at hlen
  omega

/-- A request whose parameter lists fit their counts is read back. -/
theorem ClientRequest.read_reads {r : ClientRequest}
    (hparams : ∀ ps ∈ r.paramLists, ps.length ≤ 65535) (hlen : r.encode.length < 2 ^ 32) :
    Reads ClientRequest.read r.encode r := by
  rw [encode_eq] at hlen ⊢
  cases r with
  | query sql consistency =>
    simp only [writeBytes, List.length_cons, List.length_append] at hlen
    have hsql := Cursor.string_reads (s := sql) (by omega)
    exact (Cursor.u8_reads _).bind
      ((Cursor.consistency_reads consistency).bind (hsql.map (ClientRequest.query · consistency)))
  | prepare sql =>
    simp only [writeBytes, List.length_cons, List.length_append] at hlen
    have hsql := Cursor.string_reads (s := sql) (by omega)
    exact (Cursor.u8_reads _).bind (hsql.map ClientRequest.prepare)
  | execute id params consistency =>
    simp only [List.length_cons, List.length_append] at hlen
    have hps := Cursor.params_reads (hparams params List.mem_cons_self)
      (length_encode_lt_of_paramsBytes (by omega))
    exact (Cursor.u8_reads _).bind ((Cursor.consistency_reads consistency).bind
      ((Cursor.u32_reads id).bind (hps.map (ClientRequest.execute id · consistency))))
  | close id => exact (Cursor.u8_reads _).bind ((Cursor.u32_reads id).map ClientRequest.close)
  | queryStream sql params consistency =>
    dsimp only at hlen ⊢
    split at hlen
    · next hempty =>
      obtain rfl := List.isEmpty_iff.mp hempty
      simp only [writeBytes, List.length_cons, List.length_append] at hlen
      have hsql := Cursor.string_reads (s := sql) (by omega)
      exact (Cursor.u8_reads _).bind ((Cursor.consistency_reads consistency).bind
        (hsql.map (ClientRequest.queryStream · [] consistency)))
    · next hempty =>
      rw [if_neg hempty]
      simp only [writeBytes, List.length_cons, List.length_append] at hlen
      have hsql := Cursor.string_reads (s := sql) (by omega)
      have hps := Cursor.params_reads (hparams params List.mem_cons_self)
        (length_encode_lt_of_paramsBytes (by omega))
      exact (Cursor.u8_reads _).bind ((Cursor.consistency_reads consistency).bind
        (hsql.bind (hps.map (ClientRequest.queryStream sql · consistency))))
  | executeBatch id rows consistency =>
    simp only [List.length_cons, List.length_append] at hlen
    have hcount := mul_length_le_length_flatMap (f := paramsBytes) (k := 2)
      (by simp [paramsBytes]) rows
    have hrow : ∀ row ∈ rows, Reads Cursor.params (paramsBytes row) row := by
      intro row hrow
      have hpart := length_le_length_flatMap (f := paramsBytes) hrow
      exact Cursor.params_reads (hparams row hrow) (length_encode_lt_of_paramsBytes (by omega))
    have hrows := Cursor.counted_reads (by omega) hrow
    have hbatch := hrows.map (ClientRequest.executeBatch id · consistency)
    -- The reader of the request continues inside the counted one.
    simp only [bind_assoc] at hbatch
    exact (Cursor.u8_reads _).bind ((Cursor.consistency_reads consistency).bind
      ((Cursor.u32_reads id).bind hbatch))
  | hello clientName clientVersion =>
    simp only [writeBytes, List.length_cons, List.length_append] at hlen
    have hname := Cursor.string_reads (s := clientName) (by omega)
    have hversion := Cursor.string_reads (s := clientVersion) (by omega)
    exact (Cursor.u8_reads _).bind (hname.bind (hversion.map (ClientRequest.hello clientName ·)))

/-- No request starts with the opcode of the pipelining wrapper, so a wrapped one can be told
apart. -/
theorem ClientRequest.encode_eq_cons (r : ClientRequest) :
    ∃ op body, r.encode = op :: body ∧ op ≠ Op.tagged := by
  rw [encode_eq]
  cases r with
  | queryStream sql params consistency =>
    dsimp only
    split <;> exact ⟨_, _, rfl, by decide⟩
  | _ => exact ⟨_, _, rfl, by decide⟩

/-- A request without the wrapper is decoded as it is. -/
theorem decodeClientRequest_plain {r : ClientRequest} {buf : List UInt8}
    (hhead : buf.head? ≠ some Op.tagged) (h : ClientRequest.decode buf = .ok r) :
    decodeClientRequest buf = .ok (none, r) := by
  rw [decodeClientRequest, if_neg hhead, h]
  rfl

/-- A request behind the wrapper is decoded with its identifier. -/
theorem decodeClientRequest_tagged {r : ClientRequest} {rest : List UInt8} (id : UInt32)
    (hne : rest ≠ []) (hhead : rest.head? ≠ some Op.tagged)
    (h : ClientRequest.decode rest = .ok r) :
    decodeClientRequest (Op.tagged :: (leBytes 4 id.toNat ++ rest)) = .ok (some id, r) := by
  obtain ⟨hid, hdrop, hnested, hlen⟩ := wrapper_parts Op.tagged id rest
  have hpos : 0 < rest.length := List.length_pos_iff.mpr hne
  rw [decodeClientRequest, if_pos List.head?_cons, if_neg (by omega), hnested, if_neg hhead]
  dsimp only
  rw [hid, hdrop, h]
  rfl

/-- A request in its original form is decoded from its encoding. -/
theorem Request.decode_encode {q : Request} (hlen : q.encode.length < 2 ^ 32) :
    Request.decode q.encode = .ok q := by
  simp only [Request.encode, writeBytes, List.length_append] at hlen
  have hsql := Cursor.string_reads (s := q.sql) (by omega)
  have hreads : Reads Request.read q.encode q :=
    (Cursor.u8_reads Op.query).bind ((Cursor.consistency_reads q.consistency).bind
      (hsql.map fun sql => (⟨sql, q.consistency⟩ : Request)))
  have h := hreads.parse []
  rwa [List.append_nil] at h

/-- **Request wire format.** A request whose parameter lists fit their counts and
whose encoding is shorter than a 32-bit length can tell is decoded from its
encoding, with or without the wrapper and whatever follows, and from no proper
prefix of it. The original form of a query has the same bytes. -/
theorem client_request_codec :
    (∀ r : ClientRequest, (∀ ps ∈ r.paramLists, ps.length ≤ 65535) → r.encode.length < 2 ^ 32 →
      (∀ t, ClientRequest.decode (r.encode ++ t) = .ok r) ∧
      (∀ bytes, bytes <+: r.encode → bytes ≠ r.encode →
        ∃ e, ClientRequest.decode bytes = .error e) ∧
      decodeClientRequest r.encode = .ok (none, r) ∧
      (∀ id, decodeClientRequest (encodeTaggedRequest id r []) = .ok (some id, r))) ∧
    (∀ q : Request, q.encode = (ClientRequest.query q.sql q.consistency).encode ∧
      (q.encode.length < 2 ^ 32 → Request.decode q.encode = .ok q)) := by
  refine ⟨fun r hparams hlen => ?_, fun q => ⟨rfl, Request.decode_encode⟩⟩
  have hreads := ClientRequest.read_reads hparams hlen
  have hdecode : ClientRequest.decode r.encode = .ok r := by
    have h := hreads.parse []
    rwa [List.append_nil] at h
  obtain ⟨op, body, hcons, hop⟩ := r.encode_eq_cons
  have hhead : r.encode.head? ≠ some Op.tagged := by
    rw [hcons]
    simpa using hop
  refine ⟨hreads.parse, ?_, decodeClientRequest_plain hhead hdecode, fun id => ?_⟩
  · intro bytes hpre hne
    obtain ⟨e, he⟩ := hreads.prefix_rejected ClientRequest.read_stable hpre hne
    exact ⟨e, parse_eq_error he⟩
  · have hwrapped : encodeTaggedRequest id r [] =
        Op.tagged :: (leBytes 4 id.toNat ++ r.encode) := by
      rw [encodeTaggedRequest, ClientRequest.encodeInto_eq]
      simp
    rw [hwrapped]
    exact decodeClientRequest_tagged id (by simp [hcons]) hhead hdecode

/-- A batch of two rows is decoded from its bytes. -/
theorem client_request_codec_batch :
    ClientRequest.decode [7, 1, 9, 0, 0, 0, 2, 0, 0, 0, 1, 0, 2, 0, 0, 0, 1, 1, 0, 0] =
      .ok (.executeBatch 9 [[⟨.bool true, by decide⟩], []] .quorum) := by
  have hbytes :
      (ClientRequest.executeBatch 9 [[⟨.bool true, by decide⟩], []] .quorum).encode ++ [] =
        [7, 1, 9, 0, 0, 0, 2, 0, 0, 0, 1, 0, 2, 0, 0, 0, 1, 1, 0, 0] := by decide
  have h := (client_request_codec.1 (.executeBatch 9 [[⟨.bool true, by decide⟩], []] .quorum)
    (by simp [ClientRequest.paramLists]) (by decide)).1 []
  rwa [hbytes] at h

/-! ## Parameter lists that do not fit their count -/

/-- The bytes a parameter list takes on the wire. -/
def paramsLen (ps : List Value) : ℕ := 2 + (ps.map fun v => 4 + v.encode.length).sum

/-- The bytes a request takes on the wire. -/
def ClientRequest.wireLen : ClientRequest → ℕ
  | .query sql _ => 6 + (utf8 sql).length
  | .prepare sql => 5 + (utf8 sql).length
  | .execute _ params _ => 6 + paramsLen params
  | .close _ => 5
  | .queryStream sql params _ =>
    6 + (utf8 sql).length + if params.isEmpty then 0 else paramsLen params
  | .executeBatch _ rows _ => 10 + (rows.map paramsLen).sum
  | .hello clientName clientVersion => 9 + (utf8 clientName).length + (utf8 clientVersion).length

/-- An encoded parameter list is as long as its count, its lengths and its values. -/
theorem length_paramsBytes (ps : List Value) : (paramsBytes ps).length = paramsLen ps := by
  simp [paramsBytes, paramsLen, List.length_flatMap, cellBytes, writeBytes]

/-- An encoded request is as long as `wireLen` says, which the frame limit is compared with. -/
theorem ClientRequest.length_encode (r : ClientRequest) : r.encode.length = r.wireLen := by
  rw [encode_eq]
  cases r with
  | queryStream sql params consistency =>
    dsimp only [wireLen]
    split <;> simp [writeBytes, length_paramsBytes] <;> omega
  | executeBatch id rows consistency =>
    have hrows : (rows.flatMap paramsBytes).length = (rows.map paramsLen).sum := by
      rw [List.length_flatMap]
      exact congrArg List.sum (List.map_congr_left fun ps _ => length_paramsBytes ps)
    simp [wireLen, hrows]
    omega
  | _ => simp [wireLen, writeBytes, length_paramsBytes] <;> omega

/-- The lists of a decoded request fit their counts. -/
theorem ClientRequest.read_yields :
    Yields ClientRequest.read fun r => ∀ ps ∈ r.paramLists, ps.length ≤ 65535 := by
  refine (Yields.trivial Cursor.u8).bind fun op _ => ?_
  unfold ClientRequest.readBody
  split
  · exact (Yields.trivial _).bind fun _ _ => (Yields.trivial _).bind fun _ _ =>
      Yields.pure (by simp [paramLists])
  · exact (Yields.trivial _).bind fun _ _ => Yields.pure (by simp [paramLists])
  · exact (Yields.trivial _).bind fun _ _ => (Yields.trivial _).bind fun _ _ =>
      Cursor.params_yields.bind fun ps hps => Yields.pure (by simpa [paramLists] using hps)
  · exact (Yields.trivial _).bind fun _ _ => Yields.pure (by simp [paramLists])
  · exact (Yields.trivial _).bind fun _ _ => (Yields.trivial _).bind fun _ _ =>
      Yields.pure (by simp [paramLists])
  · exact (Yields.trivial _).bind fun _ _ => (Yields.trivial _).bind fun _ _ =>
      (Yields.trivial _).bind fun n _ => (Cursor.params_yields.times n.toNat).bind fun rows hrows =>
        Yields.pure hrows.2
  · exact (Yields.trivial _).bind fun _ _ => (Yields.trivial _).bind fun _ _ =>
      Yields.pure (by simp [paramLists])
  · exact (Yields.trivial _).bind fun _ _ => (Yields.trivial _).bind fun _ _ =>
      Cursor.params_yields.bind fun ps hps => Yields.pure (by simpa [paramLists] using hps)
  · exact Yields.fail _ _

/-- A sent execution is decoded with its parameters up to their number modulo the
range of the count. -/
theorem ClientRequest.decode_encode_execute (id : UInt32) {ps : List Value}
    (hcells : ∀ v ∈ ps, v.encode.length < 2 ^ 32) (consistency : Consistency) :
    ClientRequest.decode (ClientRequest.execute id ps consistency).encode =
      .ok (.execute id (ps.take (ps.length % 65536)) consistency) := by
  have hreads : Reads ClientRequest.read _ _ := (Cursor.u8_reads Op.execute).bind
    ((Cursor.consistency_reads consistency).bind ((Cursor.u32_reads id).bind
      ((Cursor.params_reads_take hcells).map (ClientRequest.execute id · consistency))))
  have h := hreads.parse ((ps.drop (ps.length % 65536)).flatMap cellBytes)
  have hsplit : ps.flatMap cellBytes = (ps.take (ps.length % 65536)).flatMap cellBytes ++
      (ps.drop (ps.length % 65536)).flatMap cellBytes := by
    rw [← List.flatMap_append, List.take_append_drop]
  rw [encode_eq]
  simpa only [ClientRequest.decode, paramsBytes, hsplit, List.cons_append, List.append_assoc,
    List.nil_append] using h

/-- **Parameters on the wire.** A request that is sent is decoded with exactly its
parameters, and a list the count cannot express is refused, in each case exactly
when no list is longer than the count allows or the frame is too large anyway. -/
theorem params_sent_iff (r : ClientRequest) :
    (((∃ bytes, writeFrame r.encode = .ok bytes) → ClientRequest.decode r.encode = .ok r) ↔
      ((∀ ps ∈ r.paramLists, ps.length ≤ 65535) ∨ maxFrameLen < r.wireLen)) ∧
    (((∃ ps ∈ r.paramLists, 65535 < ps.length) → ∃ e, writeFrame r.encode = .error e) ↔
      ((∀ ps ∈ r.paramLists, ps.length ≤ 65535) ∨ maxFrameLen < r.wireLen)) := by
  rw [writeFrame_eq_ok_iff, writeFrame_eq_error_iff, r.length_encode]
  by_cases hfit : ∀ ps ∈ r.paramLists, ps.length ≤ 65535
  · have hlong : ¬ ∃ ps ∈ r.paramLists, 65535 < ps.length := by
      rintro ⟨ps, hps, hlt⟩
      exact absurd (hfit ps hps) (by omega)
    refine ⟨⟨fun _ => Or.inl hfit, fun _ hsent => ?_⟩,
      ⟨fun _ => Or.inl hfit, fun _ h => absurd h hlong⟩⟩
    have hlen : r.encode.length < 2 ^ 32 := by
      rw [r.length_encode]
      exact lt_of_le_of_lt hsent (by decide)
    have h := (ClientRequest.read_reads hfit hlen).parse []
    rwa [List.append_nil] at h
  · have hlong : ∃ ps ∈ r.paramLists, 65535 < ps.length := by
      by_contra hnone
      exact hfit fun ps hps => le_of_not_gt fun hlt => hnone ⟨ps, hps, hlt⟩
    refine ⟨⟨fun h => ?_, fun h hsent => ?_⟩, ⟨fun h => Or.inr (h hlong), fun h _ => ?_⟩⟩
    · right
      by_contra hsent
      exact hfit (ClientRequest.read_yields.parse (h (not_lt.mp hsent)))
    · exact absurd (h.resolve_left hfit) (not_lt.mpr hsent)
    · exact h.resolve_left hfit

/-- A request with `n` nulls as its parameters takes five bytes for each of them and eight in
front. -/
theorem ClientRequest.length_encode_execute_nulls (n : ℕ) :
    (ClientRequest.execute 0 (List.replicate n Value.null) .quorum).encode.length = 8 + n * 5 := by
  rw [ClientRequest.length_encode, ClientRequest.wireLen, paramsLen, List.map_replicate,
    List.sum_replicate_nat]
  change 6 + (2 + n * 5) = 8 + n * 5
  rw [← Nat.add_assoc]

/-- An execution with 65536 nulls fits a frame and is decoded without parameters. -/
theorem params_sent_none :
    (∃ bytes, writeFrame
      (ClientRequest.execute 0 (List.replicate 65536 Value.null) .quorum).encode = .ok bytes) ∧
    ClientRequest.decode
      (ClientRequest.execute 0 (List.replicate 65536 Value.null) .quorum).encode =
        .ok (.execute 0 [] .quorum) ∧
    ClientRequest.execute 0 [] .quorum ≠
      .execute 0 (List.replicate 65536 Value.null) .quorum := by
  refine ⟨?_, ?_, ?_⟩
  · rw [writeFrame_eq_ok_iff, ClientRequest.length_encode_execute_nulls]
    decide
  · rw [ClientRequest.decode_encode_execute, List.length_replicate, Nat.mod_self, List.take_zero]
    · intro v hv
      rw [List.eq_of_mem_replicate hv]
      decide
  · intro heq
    have hlen := congrArg List.length (ClientRequest.execute.inj heq).2.1
    rw [List.length_replicate] at hlen
    cases hlen

end Skaidb
