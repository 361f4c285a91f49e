import Skaidb.Driver.Boundary

/-!
# The end of a pipelined batch

A batch writes every request before it reads a reply and stops reading at the first
reply that it cannot file under the identifier of one of its requests. No frame
is left exactly when that reply is the last one.
-/

namespace Skaidb

open Program Client

variable {σ : Type} {E : Env σ}

/-- A statement of a batch fits a frame together with its tag. -/
def FitsTagged (sql : String) : Prop := (utf8 sql).length + 11 ≤ maxFrameLen

instance (sql : String) : Decidable (FitsTagged sql) := inferInstanceAs (Decidable (_ ≤ _))

/-- The identifier that a tagged reply carries, none when the frame has no tag. -/
def taggedId (frame : Frame) : Option UInt32 :=
  match decodeTaggedResponse frame with
  | .ok (some id, _) => some id
  | _ => none

/-- The frames are replies to different requests whose slots are free. -/
def Files (out : List (Option Response)) (frames : List Frame) : Prop :=
  ∃ ids : List UInt32, frames.map taggedId = ids.map some ∧ ids.Nodup ∧
    ∀ id ∈ ids, out[id.toNat]? = some none

/-- The frames that are left when the client stops reading a batch of replies. -/
def unfiled : ℕ → List (Option Response) → List Frame → List Frame
  | 0, _, frames => frames
  | _ + 1, _, [] => []
  | n + 1, out, frame :: rest =>
    match fileReply out frame with
    | .ok out => unfiled n out rest
    | .error _ => rest

/-- A reply is filed when it is tagged and its slot is free. -/
theorem fileReply_eq_ok_iff {out out' : List (Option Response)} {frame : Frame} :
    fileReply out frame = .ok out' ↔ ∃ id resp, decodeTaggedResponse frame = .ok (some id, resp) ∧
      out[id.toNat]? = some none ∧ out' = out.set id.toNat (some resp) := by
  unfold fileReply
  constructor
  · intro h
    split at h
    · cases h
    · cases h
    · rename_i id resp hdecode
      split at h
      · rename_i hslot
        exact ⟨id, resp, hdecode, hslot, (Except.ok.inj h).symm⟩
      · cases h
  · rintro ⟨id, resp, hdecode, hslot, rfl⟩
    simp [hdecode, hslot]

/-- A reply that is not filed is not a transport error. -/
theorem fileReply_ne_io (out : List (Option Response)) (frame : Frame) (e : IoError) :
    fileReply out frame ≠ .error (.io e) := by
  unfold fileReply
  split
  · simp
  · simp
  · split <;> simp

/-- A batch with a slot left is not a transport error. -/
theorem expectAll_ne_io (out : List (Option Response)) (e : IoError) :
    expectAll out ≠ .error (.io e) := by
  unfold expectAll
  split <;> simp

/-- A reply that is filed occupies the slot of its identifier only. -/
theorem files_cons_iff {out : List (Option Response)} {frame : Frame} {rest : List Frame} :
    Files out (frame :: rest) ↔ ∃ out', fileReply out frame = .ok out' ∧ Files out' rest := by
  constructor
  · rintro ⟨ids, hmap, hnodup, hfree⟩
    obtain _ | ⟨id, ids⟩ := ids
    · cases hmap
    · obtain ⟨hid, hmap⟩ := List.cons.inj hmap
      obtain ⟨hnew, hnodup⟩ := List.nodup_cons.mp hnodup
      obtain ⟨resp, hdecode⟩ : ∃ resp, decodeTaggedResponse frame = .ok (some id, resp) := by
        unfold taggedId at hid
        split at hid
        · rename_i id' resp hdecode
          exact ⟨resp, Option.some.inj hid ▸ hdecode⟩
        · cases hid
      have hslot := hfree id List.mem_cons_self
      refine ⟨_, fileReply_eq_ok_iff.mpr ⟨id, resp, hdecode, hslot, rfl⟩, ids, hmap, hnodup, ?_⟩
      intro id' hid'
      have hne : id.toNat ≠ id'.toNat := fun h => hnew (UInt32.toNat_inj.mp h ▸ hid')
      rw [List.getElem?_set_ne hne]
      exact hfree id' (List.mem_cons_of_mem _ hid')
  · rintro ⟨out', hfile, ids, hmap, hnodup, hfree⟩
    obtain ⟨id, resp, hdecode, hslot, rfl⟩ := fileReply_eq_ok_iff.mp hfile
    have hne : ∀ id' ∈ ids, id'.toNat ≠ id.toNat := by
      intro id' hid' heq
      have hslot' := hfree id' hid'
      rw [heq, List.getElem?_set_self' ] at hslot'
      simp [hslot] at hslot'
    refine ⟨id :: ids, ?_, List.nodup_cons.mpr ⟨fun h => hne id h rfl, hnodup⟩, ?_⟩
    · simp [hmap, taggedId, hdecode]
    · intro id' hid'
      rcases List.mem_cons.mp hid' with rfl | hid'
      · exact hslot
      · have hslot' := hfree id' hid'
        rwa [List.getElem?_set_ne (hne id' hid').symm] at hslot'

/-- No frame is left exactly when all but the last one could be filed. -/
theorem unfiled_eq_nil_iff {n : ℕ} {out : List (Option Response)} {frames : List Frame}
    (hlen : frames.length ≤ n) : unfiled n out frames = [] ↔ Files out frames.dropLast := by
  have hnil : ∀ out, Files out [] := fun out => ⟨[], rfl, List.nodup_nil, by simp⟩
  induction frames generalizing n out with
  | nil => cases n <;> simp [unfiled, hnil]
  | cons frame rest ih =>
    obtain ⟨n, rfl⟩ : ∃ m, n = m + 1 := ⟨n - 1, by simp at hlen; omega⟩
    have hrest : rest.length ≤ n := by simpa using hlen
    by_cases hlast : rest = []
    · subst hlast
      refine iff_of_true ?_ (hnil out)
      unfold unfiled
      split
      · exact (ih hrest).mpr (hnil _)
      · rfl
    · rw [List.dropLast_cons_of_ne_nil hlast, files_cons_iff]
      unfold unfiled
      cases hfile : fileReply out frame with
      | ok out' => simp [ih hrest]
      | error e => simp [hlast]

/-- Replies to different requests of a batch of the given size. -/
def Correlated (n : ℕ) (frames : List Frame) : Prop :=
  ∃ ids : List UInt32, frames.map taggedId = ids.map some ∧ ids.Nodup ∧ ∀ id ∈ ids, id.toNat < n

/-- At the start of a batch every slot is free. -/
theorem files_replicate_iff {n : ℕ} {frames : List Frame} :
    Files (List.replicate n none) frames ↔ Correlated n frames := by
  unfold Files Correlated
  simp [List.getElem?_replicate]

/-- A tagged statement takes eleven bytes more than its text does. -/
theorem length_tagged_query (id : UInt32) (sql : String) (consistency : Consistency) :
    (Sent.tagged id (.query sql consistency)).payload.length = (utf8 sql).length + 11 := by
  simp [Sent.payload, encodeTaggedRequest, ClientRequest.encodeInto, writeBytes]
  omega

/-- The replies to a batch let the client read all of them: there are none, or every
statement was written and all replies but the last carry different identifiers of the
batch. -/
def BatchClear (stmts : List String) (frames : List Frame) : Prop :=
  frames = [] ∨ (∀ sql ∈ stmts, FitsTagged sql) ∧ Correlated stmts.length frames.dropLast

/-- A batch stopped by a transport error: the connection failed, or a statement was
refused before it was written. -/
def Stopped (base : List Exchange) (stmts : List String) (s : Scene) : Prop :=
  Down base s ∨ (∃ n, Owing base n s) ∧ ¬ ∀ sql ∈ stmts, FitsTagged sql

/-- A batch that was stopped leaves what it has been sent. -/
theorem Stopped.ends {base : List Exchange} {stmts : List String} {s : Scene}
    (h : Stopped base stmts s) : Ends base (BatchClear stmts) s := by
  obtain hdown | ⟨⟨n, new, hsince, hinbox, _, hempty⟩, hlong⟩ := h
  · exact hdown.ends
  · refine ⟨new, hsince, hempty, fun _ => ?_⟩
    rw [hinbox]
    exact ⟨.inl, fun h => h.resolve_right fun hfits => hlong hfits.1⟩

/-- Writing a batch: each frame adds at most one reply, none of which is read. -/
theorem writeBatch_triple (hE : E.OneReply) (base : List Exchange) (consistency : Consistency)
    (stmts : List String) (i n : ℕ) :
    Triple (On (Owing base n)) (writeBatch E consistency stmts i) fun r => On fun s =>
      match r with
      | .ok _ => Owing base (n + stmts.length) s ∧ ∀ sql ∈ stmts, FitsTagged sql
      | .error e => (∃ io, e = .io io) ∧ Stopped base stmts s := by
  induction stmts generalizing i n with
  | nil => exact Triple.pure fun w hw => ⟨hw, by simp⟩
  | cons sql stmts ih =>
    refine Returns.bind (R := fun r => On fun s => match r with
      | .ok _ => Owing base (n + 1) s ∧ FitsTagged sql
      | .error _ => Stopped base (sql :: stmts) s) ?_ fun sent => ?_
    · refine writeFrame_returns fun s r s' hs hwrote => ?_
      cases hwrote with
      | refused hlong e =>
        rw [length_tagged_query] at hlong
        refine .inr ⟨⟨n, hs⟩, fun hfits => ?_⟩
        exact absurd (hfits sql List.mem_cons_self) (not_le.mpr hlong)
      | lost e left hleft =>
        obtain ⟨new, hsince, -⟩ := hs
        exact .inl (hsince.down hE hleft)
      | sent hfits answer hanswer =>
        rw [length_tagged_query] at hfits
        exact ⟨hs.send (hE.answers _ _ (opensStream_tagged _ _) hanswer), hfits⟩
    · refine Triple.bind (R := fun r => On fun s => match r with
        | .ok _ => Owing base (n + 1) s ∧ FitsTagged sql
        | .error e => (∃ io, e = .io io) ∧ Stopped base (sql :: stmts) s) ?_ (fun _ => ?_) ?_
      · refine transport_triple ?_ ?_
        · rintro v s rfl hs
          exact hs
        · rintro e s rfl hs
          exact ⟨⟨e, rfl⟩, hs⟩
      · refine Triple.assume fun hsql => ?_
        refine (ih (i + 1) (n + 1)).conseq (fun _ hw => hw) fun r w hw => ?_
        cases r with
        | ok u =>
          refine ⟨?_, List.forall_mem_cons.mpr ⟨hsql, hw.2⟩⟩
          rw [List.length_cons, Nat.add_comm stmts.length, ← Nat.add_assoc]
          exact hw.1
        | error e => exact ⟨hw.1, hw.2.imp_right fun h => ⟨h.1, fun hall => h.2 (by simp_all)⟩⟩
      · exact fun e w hw => hw

/-- Reading a batch fails with the connection, or leaves what was not filed. -/
theorem readBatch_triple (s₀ : Scene) (first : Bool) (n : ℕ) (out : List (Option Response)) :
    Triple (On (· = s₀)) (readBatch E first n out) fun r => On fun s =>
      ((∃ left, E.Leaves left ∧ s = s₀.lose left) ∧ ∃ e, r = .error (.io e)) ∨
        (s = s₀.leave (unfiled n out s₀.stream.inbox) ∧ ∀ e, r ≠ .error (.io e)) := by
  induction n generalizing s₀ first out with
  | zero => exact Triple.pure fun w hw => .inr ⟨hw, fun e h => nomatch h⟩
  | succ n ih =>
    refine Returns.bind (R := fun r => On (Read E s₀ r)) ?_ fun frame => ?_
    · exact readFrame_returns fun s r s' hs hread => hs ▸ hread
    · refine Triple.bind (R := fun r => On (Received E s₀ r)) ?_ (fun payload => ?_) ?_
      · cases first with
        | true => exact observed_received s₀ frame
        | false => exact transport_received s₀ frame
      · refine Triple.bind (R := fun r => On fun s => r = fileReply out payload ∧
          Received E s₀ (.ok payload) s) (Triple.settle fun w hw => ⟨rfl, hw⟩) (fun out' => ?_) ?_
        · rintro w ⟨hfile, hreceived⟩
          obtain ⟨rest, hinbox, hw⟩ := hreceived.of_ok
          have hbatch := ih (s₀.leave rest) false out' w hw
          have hleft : unfiled (n + 1) out s₀.stream.inbox = unfiled n out' rest := by
            simp only [hinbox, unfiled, ← hfile]
          rw [hleft]
          exact hbatch
        · rintro e w ⟨hfile, hreceived⟩
          obtain ⟨rest, hinbox, hw⟩ := hreceived.of_ok
          refine .inr ⟨?_, fun io h => ?_⟩
          · simpa only [hinbox, unfiled, ← hfile] using hw
          · cases h
            exact fileReply_ne_io out payload io hfile.symm
      · intro e w hw
        obtain ⟨⟨io, rfl⟩, hlost⟩ := hw.of_error
        exact .inl ⟨hlost, io, rfl⟩

/-- A batch whose replies were read leaves a frame unless they were clear. -/
theorem Owing.ends {base : List Exchange} {stmts : List String} {s : Scene}
    (hfits : ∀ sql ∈ stmts, FitsTagged sql) (h : Owing base stmts.length s) :
    Ends base (BatchClear stmts)
      (s.leave (unfiled stmts.length (List.replicate stmts.length none) s.stream.inbox)) := by
  obtain ⟨new, hsince, hinbox, hlen, hempty⟩ := h
  refine ⟨new, ⟨hsince.log, hsince.opened, hsince.numbered⟩, fun hdown => ?_, fun _ => ?_⟩
  · change unfiled _ _ s.stream.inbox = []
    rw [hempty hdown]
    cases stmts.length <;> rfl
  · have hnil : Correlated stmts.length [] := ⟨[], rfl, List.nodup_nil, by simp⟩
    change unfiled _ _ s.stream.inbox = [] ↔ BatchClear stmts (answersOn s.stream.id new)
    rw [unfiled_eq_nil_iff hlen, files_replicate_iff, ← hinbox]
    refine ⟨fun h => .inr ⟨hfits, h⟩, fun h => h.elim (fun hnone => ?_) And.right⟩
    simpa [hnone] using hnil

/-- One pipelined attempt on a fresh stream leaves no frame exactly when its replies were clear, and
stops at an I/O error. -/
theorem tryPipeline_triple (hE : E.OneReply) {base : List Exchange} (stmts : List String)
    (consistency : Consistency) :
    Triple (On (Fresh base)) (tryPipeline E stmts consistency) fun r => On fun s =>
      Ends base (BatchClear stmts) s ∧ ∀ e, r = .error (.io e) → Stopped base stmts s := by
  have hwrite := writeBatch_triple hE base consistency stmts 0 0
  refine Triple.bind (hwrite.conseq (fun _ hw => Fresh.owing hw) fun _ _ hw => hw) (fun _ => ?_)
    fun e w hw => ⟨hw.2.ends, fun _ _ => hw.2⟩
  rintro w ⟨howing, hfits⟩
  rw [Nat.zero_add] at howing
  have hread : Triple (On (· = w.toScene))
      (readBatch E true stmts.length (List.replicate stmts.length none) >>= fun out =>
        settle (expectAll out)) fun r => On fun s =>
      Ends base (BatchClear stmts) s ∧ ∀ e, r = .error (.io e) → Stopped base stmts s := by
    have hdown : ∀ left, E.Leaves left → Down base (w.toScene.lose left) := by
      intro left hleft
      obtain ⟨new, hsince, -⟩ := howing
      exact hsince.down hE hleft
    refine Triple.bind (readBatch_triple w.toScene true _ _) (fun out => ?_) fun e w' hw' => ?_
    · refine Triple.settle fun w' hw' => ?_
      obtain ⟨-, e, h⟩ | ⟨hleft, -⟩ := hw'
      · cases h
      · refine ⟨?_, fun e h => absurd h (expectAll_ne_io out e)⟩
        rw [hleft]
        exact howing.ends hfits
    · obtain ⟨⟨left, hleft, hlost⟩, -⟩ | ⟨hleft, hio⟩ := hw'
      · simp only [On, hlost]
        exact ⟨(hdown left hleft).ends, fun _ _ => .inl (hdown left hleft)⟩
      · refine ⟨?_, fun e' h => absurd h (fun h => hio e' (by cases h; rfl))⟩
        rw [hleft]
        exact howing.ends hfits
  exact hread w rfl

/-- A pipelined batch from a boundary, its second attempt included, leaves no frame exactly when its
replies were clear. -/
theorem pipelineWith_triple (hE : E.OneReply) {base : List Exchange} (stmts : List String)
    (consistency : Consistency) :
    Triple (On (Fresh base)) (pipelineWith E stmts consistency) fun _ =>
      On (Ends base (BatchClear stmts)) := by
  have hnone : BatchClear stmts [] := .inl rfl
  unfold pipelineWith
  split
  · exact Triple.pure fun w hw => Fresh.ends hnone hw
  · refine Triple.bind (R := fun _ => On (Ends base (BatchClear stmts))) ?_ (fun out => ?_)
      fun _ _ hw => hw
    · refine orRetry_triple (tryPipeline_triple hE stmts consistency) (fun e => ?_)
        fun r w _ hw => hw.1
      have hreconnect : Triple (On (Stopped base stmts)) (reconnect E) fun r => On fun s =>
          Fresh base s ∨ Stopped base stmts s ∧ ∃ e, r = .error e :=
        Fresh.reconnect hE fun s hs => by
          obtain ⟨new, hsince, -⟩ | ⟨⟨n, new, hsince, -⟩, -⟩ := hs
          · exact ⟨new, hsince⟩
          · exact ⟨new, hsince⟩
      refine Triple.bind (hreconnect.conseq (fun w hw => hw.2 e rfl) fun _ _ hw => hw)
        (fun _ => ?_) fun e w hw => ?_
      · refine (tryPipeline_triple hE stmts consistency).conseq (fun w hw => ?_) fun _ _ hw => hw.1
        exact hw.resolve_right fun h => nomatch h.2
      · obtain hfresh | ⟨hstopped, -⟩ := hw
        · exact hfresh.ends hnone
        · exact hstopped.ends
    · exact Returns.bind (observeBatch_returns _ _) fun _ => Triple.pure fun _ hw => hw

end Skaidb
