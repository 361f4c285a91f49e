import Mathlib.Data.List.Perm.Subperm
import Mathlib.Data.List.Range
import Skaidb.Driver.Pipeline
import Skaidb.Driver.Run

/-!
# The replies of a pipelined batch

A batch keeps one slot for each statement and files every reply under its identifier.
Filing a reply takes a free slot, so a batch that has filed as many replies as it
has slots has filled all of them. With one reply for each statement this happens
exactly when the identifiers are those of the batch in some order.
-/

namespace Skaidb

open Program Client

variable {σ : Type} {E : Env σ}

/-! ## Filing replies -/

/-- The first reply is filed, and the others after it. -/
theorem foldlM_fileReply_cons {frame : Frame} {rest : List Frame}
    {out out' : List (Option Response)} :
    (frame :: rest).foldlM fileReply out = .ok out' ↔
      ∃ out₁, fileReply out frame = .ok out₁ ∧ rest.foldlM fileReply out₁ = .ok out' := by
  rw [List.foldlM_cons]
  cases hfile : fileReply out frame with
  | error e =>
    constructor
    · intro h
      cases h
    · rintro ⟨_, hfirst, -⟩
      cases hfirst
  | ok out₁ =>
    refine ⟨fun h => ⟨out₁, rfl, h⟩, ?_⟩
    rintro ⟨_, hfirst, hrest⟩
    obtain rfl := Except.ok.inj hfirst
    exact hrest

/-- Replies can be filed one after another exactly when their slots are free and
different. -/
theorem foldlM_fileReply_iff {frames : List Frame} {out : List (Option Response)} :
    (∃ out', frames.foldlM fileReply out = .ok out') ↔ Files out frames := by
  induction frames generalizing out with
  | nil => exact iff_of_true ⟨out, rfl⟩ ⟨[], rfl, List.nodup_nil, by simp⟩
  | cons frame rest ih =>
    simp only [files_cons_iff, foldlM_fileReply_cons]
    constructor
    · rintro ⟨out', out₁, hfile, hrest⟩
      exact ⟨out₁, hfile, ih.mp ⟨out', hrest⟩⟩
    · rintro ⟨out₁, hfile, hrest⟩
      obtain ⟨out', hout⟩ := ih.mpr hrest
      exact ⟨out', out₁, hfile, hout⟩

/-- A reply that is filed takes one free slot. -/
theorem countP_isNone_of_fileReply {out out' : List (Option Response)} {frame : Frame}
    (h : fileReply out frame = .ok out') :
    out'.countP Option.isNone + 1 = out.countP Option.isNone := by
  obtain ⟨id, resp, -, hslot, rfl⟩ := fileReply_eq_ok_iff.mp h
  obtain ⟨hlt, hnone⟩ := List.getElem?_eq_some_iff.mp hslot
  have hpos : 0 < out.countP Option.isNone :=
    List.countP_pos_iff.mpr ⟨none, hnone ▸ List.getElem_mem hlt, rfl⟩
  rw [List.countP_set hlt, hnone]
  simp only [Option.isNone_none, Option.isNone_some, if_true]
  simp
  omega

/-- What filing keeps: the number of slots and the slots that are taken. -/
theorem slots_of_fileReply {out out' : List (Option Response)} {frame : Frame}
    (h : fileReply out frame = .ok out') :
    out'.length = out.length ∧
      (∀ (i : ℕ) (resp : Response), out[i]? = some (some resp) → out'[i]? = some (some resp)) ∧
      ∀ id resp, decodeTaggedResponse frame = .ok (some id, resp) →
        out'[id.toNat]? = some (some resp) := by
  obtain ⟨id, resp, hdecode, hslot, rfl⟩ := fileReply_eq_ok_iff.mp h
  refine ⟨List.length_set, fun i resp' hi => ?_, fun id' resp' hdecode' => ?_⟩
  · have hne : id.toNat ≠ i := by
      rintro rfl
      rw [hslot] at hi
      cases hi
    rwa [List.getElem?_set_ne hne]
  · rw [hdecode] at hdecode'
    cases hdecode'
    obtain ⟨hlt, -⟩ := List.getElem?_eq_some_iff.mp hslot
    exact List.getElem?_set_self hlt

/-- After a sequence of replies is filed, each of them is in its slot. -/
theorem slots_of_foldlM_fileReply {frames : List Frame} {out out' : List (Option Response)}
    (h : frames.foldlM fileReply out = .ok out') :
    out'.length = out.length ∧
      (∀ (i : ℕ) (resp : Response), out[i]? = some (some resp) → out'[i]? = some (some resp)) ∧
      ∀ frame ∈ frames, ∀ id resp, decodeTaggedResponse frame = .ok (some id, resp) →
        out'[id.toNat]? = some (some resp) := by
  induction frames generalizing out with
  | nil =>
    obtain rfl := Except.ok.inj h
    exact ⟨rfl, fun _ _ h => h, by simp⟩
  | cons frame rest ih =>
    obtain ⟨out₁, hfile, hfiled⟩ := foldlM_fileReply_cons.mp h
    obtain ⟨hlen, hkept, hnew⟩ := slots_of_fileReply hfile
    obtain ⟨hlen', hkept', hrest⟩ := ih hfiled
    refine ⟨hlen'.trans hlen, fun i resp hi => hkept' i resp (hkept i resp hi), ?_⟩
    intro frame' hframe id resp hdecode
    rcases List.mem_cons.mp hframe with rfl | hframe
    · exact hkept' _ _ (hnew id resp hdecode)
    · exact hrest frame' hframe id resp hdecode

/-- As many replies as there are free slots leave none free. -/
theorem countP_isNone_of_foldlM_fileReply {frames : List Frame} {out out' : List (Option Response)}
    (h : frames.foldlM fileReply out = .ok out') :
    out'.countP Option.isNone + frames.length = out.countP Option.isNone := by
  induction frames generalizing out with
  | nil =>
    obtain rfl := Except.ok.inj h
    rfl
  | cons frame rest ih =>
    obtain ⟨out₁, hfile, hfiled⟩ := foldlM_fileReply_cons.mp h
    have htaken := countP_isNone_of_fileReply hfile
    have hrest := ih hfiled
    rw [List.length_cons]
    omega

/-! ## The expectation that all identifiers were seen -/

/-- Slots that are all taken hold a list of responses. -/
theorem exists_eq_map_some {out : List (Option Response)} (h : out.countP Option.isNone = 0) :
    ∃ responses : List Response, out = responses.map some := by
  induction out with
  | nil => exact ⟨[], rfl⟩
  | cons slot out ih =>
    cases slot with
    | none => simp at h
    | some resp =>
      obtain ⟨responses, rfl⟩ := ih (by simpa using h)
      exact ⟨resp :: responses, rfl⟩

/-- The replies of a batch whose slots are all taken. -/
theorem expectAll_map_some (responses : List Response) :
    expectAll (responses.map some) = .ok responses := by
  have hmap : (responses.map some).mapM id = some responses := by
    induction responses with
    | nil => rfl
    | cons resp responses ih =>
      rw [List.map_cons, List.mapM_cons, ih]
      rfl
  rw [expectAll, hmap]

/-- A reply that is not filed is not the missing of one. -/
theorem fileReply_ne_missing (out : List (Option Response)) (frame : Frame) :
    fileReply out frame ≠ .error (.server "all ids seen") := by
  unfold fileReply
  split
  · simp
  · simp
  · split
    · simp
    · intro h
      have hhead := congrArg (fun s : String => s.toList.head?)
        (DriverError.server.inj (Except.error.inj h))
      simp at hhead

/-- A transport failure is not the missing of a reply. -/
theorem transport_ne_missing {α : Type} (frame : Except IoError α) :
    Triple (fun _ => True) (transport E frame) fun r _ =>
      r ≠ .error (.server "all ids seen") :=
  transport_triple (P := fun _ => True) (Q := fun r _ => r ≠ .error (.server "all ids seen"))
    (fun _ _ _ _ => by simp) fun _ _ _ _ => by simp

/-- The outcome of a request is not the missing of a reply. -/
theorem observed_ne_missing {α : Type} (frame : Except IoError α) :
    Triple (fun _ => True) (observed E frame) fun r _ =>
      r ≠ .error (.server "all ids seen") :=
  observed_triple (P := fun _ => True) (Q := fun r _ => r ≠ .error (.server "all ids seen"))
    (fun _ _ _ _ => by simp) fun _ _ _ _ => by simp

/-- Writing a batch never fails with the error for a missing reply, so that error says that the
reading was at its end. -/
theorem writeBatch_ne_missing (consistency : Consistency) (stmts : List String) (i : ℕ) :
    Triple (fun _ => True) (writeBatch E consistency stmts i) fun r _ =>
      r ≠ .error (.server "all ids seen") := by
  induction stmts generalizing i with
  | nil => exact Triple.pure fun _ _ => by simp
  | cons sql stmts ih =>
    refine Returns.bind (R := fun _ _ => True)
      ((writeFrame_returns (P := fun _ => True) (R := fun _ _ => True) fun _ _ _ _ _ => trivial))
      fun sent => ?_
    refine Triple.bind (transport_ne_missing sent) (fun _ => ?_) fun _ _ h => ?_
    · exact (ih (i + 1)).conseq (fun _ _ => trivial) fun _ _ h => h
    · simpa using h

/-- Reading a batch does not miss a reply, and takes a free slot for each of them. -/
theorem readBatch_ne_missing (first : Bool) (n : ℕ) (out : List (Option Response)) :
    Triple (fun _ => True) (readBatch E first n out) fun r _ =>
      r ≠ .error (.server "all ids seen") ∧
        ∀ out', r = .ok out' → out'.countP Option.isNone + n = out.countP Option.isNone := by
  induction n generalizing first out with
  | zero =>
    refine Triple.pure fun _ _ => ⟨by simp, fun out' h => ?_⟩
    obtain rfl := Except.ok.inj h
    rfl
  | succ n ih =>
    refine Returns.bind (R := fun _ _ => True)
      (readFrame_returns (P := fun _ => True) (R := fun _ _ => True) fun _ _ _ _ _ => trivial)
      fun frame => ?_
    refine Triple.bind (R := fun r _ => r ≠ .error (.server "all ids seen")) ?_
      (fun payload => ?_) fun e _ h => ⟨by simpa using h, fun _ h => nomatch h⟩
    · cases first with
      | true => exact observed_ne_missing frame
      | false => exact transport_ne_missing frame
    · refine Triple.bind (R := fun r _ => r = fileReply out payload)
        (Triple.settle fun _ _ => rfl) (fun out' => ?_) fun e _ h => ?_
      · intro w hfile
        have htaken := countP_isNone_of_fileReply hfile.symm
        obtain ⟨hne, hcount⟩ := ih false out' w trivial
        refine ⟨hne, fun out'' h => ?_⟩
        have hrest := hcount out'' h
        omega
      · refine ⟨fun heq => ?_, fun _ h => nomatch h⟩
        cases heq
        exact fileReply_ne_missing out payload h.symm

/-- Whatever the server answers, every slot of a batch is taken when the replies are
handed out. -/
theorem tryPipeline_ne_missing (stmts : List String) (consistency : Consistency) :
    Triple (fun _ => True) (tryPipeline E stmts consistency) fun r _ =>
      r ≠ .error (.server "all ids seen") := by
  refine Triple.bind (writeBatch_ne_missing consistency stmts 0) (fun _ => ?_)
    fun _ _ h => by simpa using h
  refine Triple.bind ((readBatch_ne_missing true _ _).conseq (fun _ _ => trivial) fun _ _ h => h)
    (fun out => ?_) fun _ _ h => by simpa using h.1
  refine Triple.settle fun w hw => ?_
  have hcount := hw.2 out rfl
  have hslots : (List.replicate stmts.length (none : Option Response)).countP Option.isNone =
      stmts.length := by
    simp [List.countP_replicate]
  have hfull : out.countP Option.isNone = 0 := by omega
  obtain ⟨responses, rfl⟩ := exists_eq_map_some hfull
  rw [expectAll_map_some]
  simp

/-! ## One reply for each statement -/

/-- These frames wait to be read on the connection, and none of them is above the limit of a
frame. -/
structure Waiting (conn : ℕ) (frames : List Frame) (s : Scene) : Prop where
  /-- The connection is the live one. -/
  conn : s.stream.id = conn
  /-- The frames can be read from it. -/
  inbox : s.stream.inbox = frames
  /-- They are frames of the protocol. -/
  fits : ∀ frame ∈ frames, frame.length ≤ maxFrameLen

/-- What waits on a stream waits on it whatever else the client remembers. -/
theorem Waiting.of_stream {conn : ℕ} {frames : List Frame} {s s' : Scene}
    (h : Waiting conn frames s) (hstream : s'.stream = s.stream) : Waiting conn frames s' :=
  ⟨hstream ▸ h.conn, hstream ▸ h.inbox, h.fits⟩

/-- The next frame that waits is read when the connection carries it. -/
theorem readFrame_waiting {conn : ℕ} (hreceive : ∀ env, (E.receive conn env).1 = .ok ())
    (frame : Frame) (rest : List Frame) :
    Returns (On (Waiting conn (frame :: rest))) (World.readFrame E) fun r w =>
      On (Waiting conn rest) w ∧ r = .ok frame := by
  rintro w ⟨hconn, hinbox, hfits⟩
  obtain ⟨hframe, hrest⟩ := List.forall_mem_cons.mp hfits
  refine ⟨.ok frame, ?_⟩
  have hok := hreceive w.env
  unfold World.readFrame
  rw [hconn]
  rcases hr : E.receive conn w.env with ⟨r, env⟩
  rw [hr] at hok
  obtain rfl : r = .ok () := hok
  simp only [hinbox, if_pos hframe]
  exact ⟨trivial, ⟨hconn, rfl, hrest⟩, trivial⟩

/-- While all frames of a batch arrive, reading them files each under its identifier in their
order. -/
theorem readBatch_waiting {conn : ℕ} (hreceive : ∀ env, (E.receive conn env).1 = .ok ())
    (first : Bool) (frames : List Frame) (out : List (Option Response)) :
    Triple (On (Waiting conn frames)) (readBatch E first frames.length out) fun r _ =>
      r = frames.foldlM fileReply out := by
  induction frames generalizing first out with
  | nil => exact Triple.pure fun _ _ => rfl
  | cons frame rest ih =>
    refine Returns.bind (readFrame_waiting hreceive frame rest) fun read => ?_
    refine Triple.assume ?_
    rintro rfl
    refine Triple.bind (R := fun r => On fun s => Waiting conn rest s ∧ r = .ok frame) ?_
      (fun payload => ?_) ?_
    · have hok : ∀ v s, (.ok frame : Except IoError Frame) = .ok v → Waiting conn rest s →
          Waiting conn rest s ∧ (.ok v : Except DriverError Frame) = .ok frame := by
        rintro v s hv hs
        cases hv
        exact ⟨hs, rfl⟩
      split
      · exact observed_triple hok fun _ _ he => nomatch he
      · exact transport_triple hok fun _ _ he => nomatch he
    · refine Triple.assume fun hpayload => ?_
      obtain rfl := Except.ok.inj hpayload
      refine Triple.bind (R := fun r w => On (Waiting conn rest) w ∧ r = fileReply out payload)
        (Triple.settle fun _ hw => ⟨hw, rfl⟩) (fun out' => ?_) fun e w hw => ?_
      · refine Triple.assume fun hfile => (ih false out').conseq (fun _ hw => hw) fun r _ hr => ?_
        rw [List.foldlM_cons, ← hfile]
        exact hr
      · rw [List.foldlM_cons, ← hw.2]
        rfl
    · exact fun e w hw => nomatch hw.2

/-- One of the next `n` unread frames is above the frame limit. -/
def LongAhead (n : ℕ) (s : Scene) : Prop :=
  ∃ frame ∈ s.stream.inbox.take n, maxFrameLen < frame.length

/-- A frame above the limit is still ahead once the frame in front of it was read. -/
theorem LongAhead.read {n : ℕ} {s s' : Scene} {r : Except IoError Frame}
    (h : LongAhead (n + 1) s) (hread : Read E s r s') {frame : Frame} (hr : r = .ok frame) :
    LongAhead n s' := by
  obtain ⟨long, hmem, hlong⟩ := h
  cases hread with
  | lost e left hleft => cases hr
  | @got front rest hinbox hfits =>
    rw [hinbox, List.take_succ_cons] at hmem
    obtain rfl | hrest := List.mem_cons.mp hmem
    · exact absurd hlong (not_lt.mpr hfits)
    · exact ⟨long, hrest, hlong⟩

/-- A batch is not read to its end when one of its frames is above the limit. -/
theorem readBatch_long (first : Bool) (n : ℕ) (out : List (Option Response)) :
    Triple (On (LongAhead n)) (readBatch E first n out) fun r _ => ∀ filed, r ≠ .ok filed := by
  induction n generalizing first out with
  | zero =>
    rintro w ⟨frame, hmem, -⟩
    rw [List.take_zero] at hmem
    exact absurd hmem List.not_mem_nil
  | succ n ih =>
    refine Returns.bind (R := fun r => On fun s => ∀ frame, r = .ok frame → LongAhead n s)
      (readFrame_returns fun s r s' hs hread frame hr => hs.read hread hr) fun read => ?_
    refine Triple.bind (R := fun r => On fun s => ∀ payload, r = .ok payload → LongAhead n s) ?_
      (fun payload => ?_) fun e w _ filed h => by cases h
    · have hok : ∀ v s, read = .ok v → (∀ frame, read = .ok frame → LongAhead n s) →
          ∀ payload, (.ok v : Except DriverError Frame) = .ok payload → LongAhead n s :=
        fun v s hv hs payload _ => hs v hv
      have herror : ∀ e s, read = .error e → (∀ frame, read = .ok frame → LongAhead n s) →
          ∀ payload, (.error (.io e) : Except DriverError Frame) = .ok payload →
            LongAhead n s := by
        intro e s _ _ payload h
        cases h
      cases first with
      | true => exact observed_triple hok herror
      | false => exact transport_triple hok herror
    · exact Triple.bind (R := fun _ => On (LongAhead n))
        (Triple.settle fun w hw => hw payload rfl) (fun out' => ih false out')
        fun e w _ filed h => by cases h

/-- The identifiers of correlated replies, one for each statement, are those of the
batch. -/
theorem perm_range_of_correlated {n : ℕ} {ids : List UInt32} (hlen : ids.length = n)
    (hnodup : ids.Nodup) (hlt : ∀ id ∈ ids, id.toNat < n) :
    (ids.map UInt32.toNat).Perm (List.range n) := by
  have hmap : (ids.map UInt32.toNat).Nodup :=
    hnodup.map fun _ _ h => UInt32.toNat_inj.mp h
  have hsubset : ids.map UInt32.toNat ⊆ List.range n := by
    intro i hi
    obtain ⟨id, hid, rfl⟩ := List.mem_map.mp hi
    exact List.mem_range.mpr (hlt id hid)
  refine (hmap.subperm hsubset).perm_of_length_le ?_
  rw [List.length_range, List.length_map, hlen]

/-- The replies are tagged with the identifiers of a batch of `n` statements, in some
order. -/
def TaggedInSomeOrder (n : ℕ) (replies : List (Option UInt32 × Response)) : Prop :=
  ∃ ids : List UInt32, replies.map Prod.fst = ids.map some ∧
    (ids.map UInt32.toNat).Perm (List.range n)

/-- The identifiers on frames are those that decoding the frames as tagged responses gives. -/
theorem map_taggedId {frames : List Frame} {replies : List (Option UInt32 × Response)}
    (h : frames.map decodeTaggedResponse = replies.map .ok) :
    frames.map taggedId = replies.map Prod.fst := by
  induction frames generalizing replies with
  | nil =>
    cases replies with
    | nil => rfl
    | cons reply replies => cases h
  | cons frame frames ih =>
    cases replies with
    | nil => cases h
    | cons reply replies =>
      rw [List.map_cons, List.map_cons, List.cons.injEq] at h
      obtain ⟨hframe, hrest⟩ := h
      rw [List.map_cons, List.map_cons, ih hrest, taggedId, hframe]
      obtain ⟨_ | id, resp⟩ := reply <;> rfl

/-- One reply for each statement can be filed exactly when the replies are tagged with
the identifiers of the batch. -/
theorem files_iff_taggedInSomeOrder {n : ℕ} {frames : List Frame}
    {replies : List (Option UInt32 × Response)} (hlen : frames.length = n)
    (hdecode : frames.map decodeTaggedResponse = replies.map .ok) :
    Files (List.replicate n none) frames ↔ TaggedInSomeOrder n replies := by
  rw [files_replicate_iff]
  unfold Correlated TaggedInSomeOrder
  rw [map_taggedId hdecode]
  constructor
  · rintro ⟨ids, hmap, hnodup, hlt⟩
    have hcount : ids.length = n := by
      have hids := congrArg List.length hmap
      have hframes := congrArg List.length hdecode
      simp only [List.length_map] at hids hframes
      omega
    exact ⟨ids, hmap, perm_range_of_correlated hcount hnodup hlt⟩
  · rintro ⟨ids, hmap, hperm⟩
    refine ⟨ids, hmap, ?_, fun id hid => ?_⟩
    · exact List.Nodup.of_map _ (hperm.nodup_iff.mpr List.nodup_range)
    · exact List.mem_range.mp (hperm.mem_iff.mp (List.mem_map_of_mem hid))

/-- What a batch returns when its frames wait to be read. -/
theorem tryPipeline_waiting {stmts : List String} {consistency : Consistency} {w w' : World σ}
    (hwrite : writeBatch E consistency stmts 0 w = (.ok (), w'))
    (hfits : ∀ frame ∈ w'.stream.inbox, frame.length ≤ maxFrameLen)
    (hreceive : ∀ env, (E.receive w'.stream.id env).1 = .ok ())
    (hlen : w'.stream.inbox.length = stmts.length) :
    (tryPipeline E stmts consistency w).1 =
      (w'.stream.inbox.foldlM fileReply (List.replicate stmts.length none)).bind expectAll := by
  have hread := readBatch_waiting hreceive true w'.stream.inbox
    (List.replicate stmts.length none) w' ⟨rfl, rfl, hfits⟩
  rw [hlen] at hread
  unfold tryPipeline
  rw [bind_apply, hwrite]
  simp only [bind_apply]
  rcases hbatch : readBatch E true stmts.length (List.replicate stmts.length none) w' with ⟨r, w''⟩
  rw [hbatch] at hread
  rw [← hread]
  cases r with
  | ok out => rfl
  | error e => rfl

/-- A batch fails when one of the frames that it has to read is above the limit. -/
theorem tryPipeline_long {stmts : List String} {consistency : Consistency} {w w' : World σ}
    (hwrite : writeBatch E consistency stmts 0 w = (.ok (), w'))
    (hlong : LongAhead stmts.length w'.toScene) (out : List Response) :
    (tryPipeline E stmts consistency w).1 ≠ .ok out := by
  have hread := readBatch_long (E := E) true stmts.length (List.replicate stmts.length none) w'
    hlong
  unfold tryPipeline
  rw [bind_apply, hwrite]
  simp only [bind_apply]
  rcases hbatch : readBatch E true stmts.length (List.replicate stmts.length none) w' with ⟨r, w''⟩
  rw [hbatch] at hread
  cases r with
  | ok filed => exact absurd rfl (hread filed)
  | error e =>
    intro h
    cases h

/-- **Correlation.** When the server sends one decodable frame of the protocol for each
statement of a batch, the batch succeeds exactly when the frames are tagged with the identifiers of
the statements in some order. It then returns for each statement the response
tagged with its number. A frame above the limit, which the protocol does not have, fails the batch.
Whatever the server does, no reply is missing when the responses are handed out. -/
theorem tryPipeline_correlated (stmts : List String) (consistency : Consistency) (w : World σ) :
    (∀ (w' : World σ) (frames : List Frame) (replies : List (Option UInt32 × Response)),
      writeBatch E consistency stmts 0 w = (.ok (), w') →
      (∀ env, (E.receive w'.stream.id env).1 = .ok ()) →
      w'.stream.inbox = frames → (∀ frame ∈ frames, frame.length ≤ maxFrameLen) →
      frames.length = stmts.length →
      frames.map decodeTaggedResponse = replies.map .ok →
        ((∃ out, (tryPipeline E stmts consistency w).1 = .ok out) ↔
          TaggedInSomeOrder stmts.length replies) ∧
        ∀ out, (tryPipeline E stmts consistency w).1 = .ok out → out.length = stmts.length ∧
          ∀ i < stmts.length, ∃ id resp, id.toNat = i ∧ (some id, resp) ∈ replies ∧
            out[i]? = some resp) ∧
    (∀ w' : World σ, writeBatch E consistency stmts 0 w = (.ok (), w') →
      (∃ frame ∈ w'.stream.inbox.take stmts.length, maxFrameLen < frame.length) →
      ∀ out, (tryPipeline E stmts consistency w).1 ≠ .ok out) ∧
    (tryPipeline E stmts consistency w).1 ≠ .error (.server "all ids seen") := by
  refine ⟨?_, fun w' hwrite hlong => tryPipeline_long hwrite hlong,
    tryPipeline_ne_missing stmts consistency w trivial⟩
  rintro w' frames replies hwrite hreceive rfl hfits hlen hdecode
  rw [tryPipeline_waiting hwrite hfits hreceive hlen, ← files_iff_taggedInSomeOrder hlen hdecode,
    ← foldlM_fileReply_iff]
  have hslots : (List.replicate stmts.length (none : Option Response)).countP Option.isNone =
      stmts.length := by
    simp [List.countP_replicate]
  cases hfiled : w'.stream.inbox.foldlM fileReply (List.replicate stmts.length none) with
  | error e =>
    refine ⟨iff_of_false ?_ ?_, fun out h => nomatch h⟩
    · exact fun ⟨out, h⟩ => nomatch h
    · exact fun ⟨out, h⟩ => nomatch h
  | ok slots =>
    have hcount := countP_isNone_of_foldlM_fileReply hfiled
    have hfull : slots.countP Option.isNone = 0 := by omega
    obtain ⟨responses, rfl⟩ := exists_eq_map_some hfull
    obtain ⟨hsize, -, hfilled⟩ := slots_of_foldlM_fileReply hfiled
    refine ⟨iff_of_true ⟨responses, expectAll_map_some responses⟩ ⟨_, rfl⟩, fun out hout => ?_⟩
    obtain rfl : responses = out :=
      Except.ok.inj ((expectAll_map_some responses).symm.trans hout)
    refine ⟨by simpa using hsize, fun i hi => ?_⟩
    -- The number of a statement is the identifier of some reply, which lies in its slot.
    obtain ⟨ids, hids, hperm⟩ :=
      (files_iff_taggedInSomeOrder hlen hdecode).mp (foldlM_fileReply_iff.mp ⟨_, hfiled⟩)
    obtain ⟨id, hid, rfl⟩ := List.mem_map.mp (hperm.mem_iff.mpr (List.mem_range.mpr hi))
    have htag : some id ∈ replies.map Prod.fst := hids ▸ List.mem_map_of_mem hid
    obtain ⟨⟨-, resp⟩, hreply, rfl⟩ := List.mem_map.mp htag
    have hframe : Except.ok (some id, resp) ∈ w'.stream.inbox.map decodeTaggedResponse :=
      hdecode ▸ List.mem_map_of_mem hreply
    obtain ⟨frame, hmem, hframe⟩ := List.mem_map.mp hframe
    have hslot := hfilled frame hmem id resp hframe
    rw [List.getElem?_map, Option.map_eq_some_iff] at hslot
    obtain ⟨resp', hget, hsome⟩ := hslot
    exact ⟨id, resp, rfl, hreply, Option.some.inj hsome ▸ hget⟩

/-- The replies to two statements arrive in the other order. -/
theorem tryPipeline_correlated_swapped :
    ∃ out, (tryPipeline scripted ["A", "B"] .quorum (hostSession scripted
      [.ok [[2]], .ok [], .ok [[8, 1, 0, 0, 0, 7], [8, 0, 0, 0, 0, 2]]]).world).1 = .ok out ∧
      out.length = 2 := by
  have h := (tryPipeline_correlated (E := scripted) ["A", "B"] .quorum (hostSession scripted
    [.ok [[2]], .ok [], .ok [[8, 1, 0, 0, 0, 7], [8, 0, 0, 0, 0, 2]]]).world).1 _
    [[8, 1, 0, 0, 0, 7], [8, 0, 0, 0, 0, 2]] [(some 1, .rowsEnd), (some 0, .ddl)]
    rfl (fun _ => rfl) rfl (by decide) rfl rfl
  obtain ⟨out, hout⟩ := h.1.mpr ⟨[1, 0], rfl, by decide⟩
  exact ⟨out, hout, (h.2 out hout).1⟩

end Skaidb
