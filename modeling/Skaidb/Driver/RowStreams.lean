import Skaidb.Driver.Boundary

/-!
# The end of a row stream

A stream reads chunks until a frame of another kind, whether the rows are asked for or the
stream is dropped, and a reply that does not begin a stream ends the exchange. No
frame is left exactly when that frame is the last one.
-/

namespace Skaidb

open Program Client

variable {σ : Type} {E : Env σ}

/-- The frame is a header of rows, after which chunks follow on the connection. -/
def isHeader (frame : Frame) : Bool :=
  match Response.decode frame with
  | .ok (.rowsHeader _) => true
  | _ => false

/-- The frame is a chunk of a stream. -/
def isChunk (frame : Frame) : Bool :=
  match Response.decode frame with
  | .ok (.rowsChunk _) => true
  | _ => false

/-- The frames after the first one that is not a chunk. -/
def afterChunks (frames : List Frame) : List Frame := (frames.dropWhile isChunk).drop 1

/-- The frames of an answer that the client does not read. -/
def unstreamed : List Frame → List Frame
  | [] => []
  | first :: rest => if isHeader first then afterChunks rest else rest

/-- The frames let the client read all of them: there is one at most, or a header is
followed by chunks up to the last frame. -/
def StreamClear : List Frame → Prop
  | [] => True
  | first :: rest => rest = [] ∨ isHeader first ∧ ∀ frame ∈ rest.dropLast, isChunk frame

/-- Nothing follows the first frame that is not a chunk exactly when that is the last. -/
theorem afterChunks_eq_nil_iff (frames : List Frame) :
    afterChunks frames = [] ↔ ∀ frame ∈ frames.dropLast, isChunk frame := by
  induction frames with
  | nil => simp [afterChunks]
  | cons frame rest ih =>
    by_cases hlast : rest = []
    · subst hlast
      cases hchunk : isChunk frame <;> simp [afterChunks, hchunk]
    · rw [List.dropLast_cons_of_ne_nil hlast, List.forall_mem_cons, ← ih]
      cases hchunk : isChunk frame <;> simp [afterChunks, hchunk, hlast]

/-- The client reads every frame exactly when the frames are clear. -/
theorem unstreamed_eq_nil_iff (frames : List Frame) :
    unstreamed frames = [] ↔ StreamClear frames := by
  cases frames with
  | nil => simp [unstreamed, StreamClear]
  | cons first rest =>
    simp only [unstreamed, StreamClear]
    by_cases hheader : isHeader first
    · rw [if_pos hheader, afterChunks_eq_nil_iff]
      refine ⟨fun h => .inr ⟨hheader, h⟩, fun h => h.elim (fun hrest => ?_) And.right⟩
      simp [hrest]
    · simp [hheader]

/-- The outcomes of fetching the next frame of a stream. -/
inductive Fetched (E : Env σ) (s₀ : Scene) (st : RowStream) :
    Except DriverError Unit × RowStream → Scene → Prop
  /-- The connection fails, or a frame cannot be read. -/
  | lost (e : DriverError) (st' : RowStream) (unread : List Frame) (hunread : E.Leaves unread) :
    Fetched E s₀ st (.error e, st') (s₀.lose unread)
  /-- A chunk is read. -/
  | chunk {frame : Frame} {rest : List Frame} (hinbox : s₀.stream.inbox = frame :: rest)
    (hchunk : isChunk frame = true) (st' : RowStream) (hdone : st'.done = st.done) :
    Fetched E s₀ st (.ok (), st') (s₀.leave rest)
  /-- A frame is read after which the client reads no more. -/
  | last {frame : Frame} {rest : List Frame} (hinbox : s₀.stream.inbox = frame :: rest)
    (hchunk : isChunk frame = false) (out : Except DriverError Unit × RowStream)
    (hdone : out.1 = .ok () → out.2.done = true) : Fetched E s₀ st out (s₀.leave rest)

/-- A frame is a chunk, or the client reads no more after it. -/
theorem Fetched.of_frame {s₀ : Scene} {frame : Frame} {rest : List Frame}
    (hinbox : s₀.stream.inbox = frame :: rest) (st : RowStream) :
    Fetched E s₀ st (st.takeFrame frame) (s₀.leave rest) := by
  unfold RowStream.takeFrame
  cases hdecode : Response.decode frame with
  | error e => exact .last hinbox (by simp [isChunk, hdecode]) _ (fun h => nomatch h)
  | ok resp =>
    cases resp with
    | rowsChunk rows => exact .chunk hinbox (by simp [isChunk, hdecode]) _ rfl
    | rowsEnd => exact .last hinbox (by simp [isChunk, hdecode]) _ fun _ => rfl
    | _ => exact .last hinbox (by simp [isChunk, hdecode]) _ (fun h => nomatch h)

/-- Fetching the next frame has one of these outcomes. -/
theorem nextFrame_returns (s₀ : Scene) (st : RowStream) :
    Returns (On (· = s₀)) (st.nextFrame E) fun out => On (Fetched E s₀ st out) := by
  refine Returns.bind (R := fun r => On (Read E s₀ r)) ?_ fun frame => ?_
  · exact readFrame_returns fun s r s' hs hread => hs ▸ hread
  · refine Triple.attempt (transport_received s₀ frame) fun r => ?_
    cases r with
    | error e =>
      refine Triple.pure fun w hw => ⟨_, rfl, ?_⟩
      obtain ⟨-, unread, hunread, hlost⟩ := hw.of_error
      simpa only [On, hlost] using Fetched.lost e st unread hunread
    | ok payload =>
      refine Triple.pure fun w hw => ⟨_, rfl, ?_⟩
      obtain ⟨rest, hinbox, hrest⟩ := hw.of_ok
      simpa only [On, hrest] using Fetched.of_frame hinbox st

/-- A fetch that succeeds takes a frame, so that the loops over a stream come to an end. -/
theorem Fetched.length_lt {s₀ s : Scene} {st : RowStream}
    {out : Except DriverError Unit × RowStream} (h : Fetched E s₀ st out s) (hok : out.1 = .ok ()) :
    s.stream.inbox.length < s₀.stream.inbox.length := by
  cases h with
  | lost => cases hok
  | chunk hinbox => simp [hinbox, Scene.leave, Scene.setStream]
  | last hinbox => simp [hinbox, Scene.leave, Scene.setStream]

/-- The bound of the iterator's loop is not reached when it exceeds the unread frames. -/
theorem nextLoop_bound {fuel : ℕ} {st : RowStream} {w : World σ}
    (hfuel : w.stream.inbox.length < fuel) :
    RowStream.nextLoop E (fuel + 1) st w = RowStream.nextLoop E fuel st w := by
  induction fuel generalizing st w with
  | zero => exact absurd hfuel (Nat.not_lt_zero _)
  | succ fuel ih =>
    rw [RowStream.nextLoop, RowStream.nextLoop]
    cases st.chunk with
    | cons row chunk => rfl
    | nil =>
      by_cases hdone : st.done
      · simp only [if_pos hdone]
      · simp only [if_neg hdone, bind_apply]
        obtain ⟨out, hout, hfetched⟩ := nextFrame_returns (E := E) w.toScene st w rfl
        rcases hrun : st.nextFrame E w with ⟨r, w'⟩
        rw [hrun] at hout hfetched
        obtain rfl : r = .ok out := hout
        obtain ⟨e | u, st'⟩ := out
        · rfl
        · have hshorter : w'.stream.inbox.length < w.stream.inbox.length :=
            Fetched.length_lt hfetched rfl
          exact ih (by omega)

/-- The connection of a stream has failed, which ended the stream, or what it will leave unread
are the given frames: those that are unread when it has ended, those after the chunks before
that. -/
def Draining (E : Env σ) (s₀ : Scene) (left : List Frame) (ended : Bool) (s : Scene) : Prop :=
  (ended = true ∧ ∃ unread, E.Leaves unread ∧ s = s₀.lose unread) ∨
    ∃ rest, s = s₀.leave rest ∧ (if ended then rest else afterChunks rest) = left

/-- The client reads no more frames after this outcome. -/
def endsStream : Except DriverError Unit × RowStream → Bool
  | (.ok (), st) => st.done
  | (.error _, _) => true

/-- A fetch takes its frame from those the stream has left and leaves what it should behind them. -/
theorem Fetched.draining {s₀ s s' : Scene} {left : List Frame} {st : RowStream}
    {out : Except DriverError Unit × RowStream} (hdone : st.done = false)
    (hs : Draining E s₀ left st.done s) (h : Fetched E s st out s') :
    Draining E s₀ left (endsStream out) s' := by
  obtain ⟨hended, -⟩ | ⟨rest', rfl, hleft⟩ := hs
  · simp [hdone] at hended
  rw [hdone] at hleft
  have hinboxed : ∀ {frame rest}, (s₀.leave rest').stream.inbox = frame :: rest →
      (s₀.leave rest').leave rest = s₀.leave rest ∧ afterChunks (frame :: rest) = left := by
    intro frame rest hinbox
    obtain rfl : rest' = frame :: rest := hinbox
    exact ⟨rfl, hleft⟩
  cases h with
  | lost e st' unread hunread => exact .inl ⟨rfl, unread, hunread, rfl⟩
  | chunk hinbox hchunk st' hdone' =>
    obtain ⟨hleave, hleft⟩ := hinboxed hinbox
    refine .inr ⟨_, hleave, ?_⟩
    rw [← hleft, endsStream, hdone', hdone]
    simp [afterChunks, hchunk]
  | last hinbox hchunk out hdone' =>
    obtain ⟨hleave, hleft⟩ := hinboxed hinbox
    refine .inr ⟨_, hleave, ?_⟩
    have hends : endsStream out = true := by
      obtain ⟨e | u, st'⟩ := out
      · rfl
      · exact hdone' rfl
    rw [← hleft, hends]
    simp [afterChunks, hchunk]

/-- Fetching from a stream that has not ended keeps what the stream will leave behind, and when it
succeeds there is one unread frame less. -/
theorem nextFrame_draining (s₀ : Scene) (left : List Frame) (n : ℕ) {st : RowStream}
    (hdone : st.done = false) :
    Returns (On fun s => Draining E s₀ left st.done s ∧ s.stream.inbox.length ≤ n) (st.nextFrame E)
      fun out => On fun s => Draining E s₀ left (endsStream out) s ∧
        (out.1 = .ok () → s.stream.inbox.length < n) := by
  intro w hw
  obtain ⟨out, hout, hfetched⟩ := nextFrame_returns (E := E) w.toScene st w rfl
  refine ⟨out, hout, Fetched.draining hdone hw.1 hfetched, fun hok => ?_⟩
  exact (Fetched.length_lt hfetched hok).trans_le hw.2

/-- Iterating over a stream, rows or errors, keeps what the stream will leave behind. -/
theorem nextLoop_draining (s₀ : Scene) (left : List Frame) (fuel : ℕ) (st : RowStream) :
    Returns (On (Draining E s₀ left st.done)) (RowStream.nextLoop E fuel st) fun out =>
      On (Draining E s₀ left out.2.done) := by
  induction fuel generalizing st with
  | zero => exact fun w hw => ⟨_, rfl, hw⟩
  | succ fuel ih =>
    unfold RowStream.nextLoop
    split
    · exact fun w hw => ⟨_, rfl, hw⟩
    · by_cases hdone : st.done
      · rw [if_pos hdone]
        exact fun w hw => ⟨_, rfl, hw⟩
      · rw [if_neg hdone]
        have hfetch : Returns (On (Draining E s₀ left st.done)) (st.nextFrame E) fun out =>
            On (Draining E s₀ left (endsStream out)) := fun w hw => by
          obtain ⟨out, hout, hdraining, -⟩ := nextFrame_draining (E := E) s₀ left _
            (Bool.eq_false_iff.mpr hdone) w ⟨hw, le_rfl⟩
          exact ⟨out, hout, hdraining⟩
        refine Returns.bind hfetch fun out => ?_
        obtain ⟨e | u, st'⟩ := out
        · exact fun w hw => ⟨_, rfl, hw⟩
        · exact ih st'

/-- Asking for rows keeps what a stream will leave. -/
theorem pull_draining (s₀ : Scene) (left : List Frame) (n : ℕ) (st : RowStream) :
    Returns (On (Draining E s₀ left st.done)) (st.pull E n) fun out =>
      On (Draining E s₀ left out.2.done) := by
  induction n generalizing st with
  | zero => exact fun w hw => ⟨_, rfl, hw⟩
  | succ n ih =>
    refine Returns.bind (R := fun out => On (Draining E s₀ left out.2.done)) ?_ fun out => ?_
    · refine Triple.reads fun unread => ?_
      exact (nextLoop_draining s₀ left _ st).conseq (fun _ hw => hw.1) fun _ _ hw => hw
    · exact Returns.bind (ih out.2) fun out' => fun w hw => ⟨_, rfl, hw⟩

/-- Draining ends with what the stream leaves, as each frame is read once. -/
theorem dropLoop_drained (s₀ : Scene) (left : List Frame) (fuel : ℕ) (st : RowStream) :
    Triple (On fun s => Draining E s₀ left st.done s ∧ s.stream.inbox.length < fuel)
      (RowStream.dropLoop E fuel st) fun _ => On (Draining E s₀ left true) := by
  induction fuel generalizing st with
  | zero => exact fun w hw => absurd hw.2 (Nat.not_lt_zero _)
  | succ fuel ih =>
    unfold RowStream.dropLoop
    by_cases hdone : st.done
    · rw [if_pos hdone]
      exact Triple.pure fun w hw => hdone ▸ hw.1
    · rw [if_neg hdone]
      have hfetch := nextFrame_draining (E := E) s₀ left fuel (Bool.eq_false_iff.mpr hdone)
      refine Returns.bind (hfetch.conseq (fun _ hw => ⟨hw.1, Nat.le_of_lt_succ hw.2⟩)
        fun _ _ hw => hw) fun out => ?_
      obtain ⟨e | u, st'⟩ := out
      · exact Triple.pure fun w hw => hw.1
      · exact (ih st').conseq (fun w hw => ⟨hw.1, hw.2 rfl⟩) fun _ _ hw => hw

/-- A stream that begins has ended unless its first reply is a header. -/
theorem start_done {frame : Frame} {resp : Response} {st : RowStream}
    (hdecode : Response.decode frame = .ok resp) (hstart : RowStream.start resp = .ok st) :
    (!isHeader frame) = st.done := by
  cases resp with
  | resultSets sets =>
    cases sets with
    | nil => cases hstart; simp [isHeader, hdecode]
    | cons set sets => cases hstart; simp [isHeader, hdecode]
  | rowsHeader columns => cases hstart; simp [isHeader, hdecode]
  | mutation affected => cases hstart; simp [isHeader, hdecode]
  | ddl => cases hstart; simp [isHeader, hdecode]
  | _ => cases hstart

/-- A first reply that begins no stream is not a header. -/
theorem start_error {frame : Frame} {resp : Response} {e : DriverError}
    (hdecode : Response.decode frame = .ok resp) (hstart : RowStream.start resp = .error e) :
    (!isHeader frame) = true := by
  cases resp with
  | rowsHeader columns => cases hstart
  | _ => simp [isHeader, hdecode]

/-- Reading the first reply of a stream fails with the connection, or settles what the
stream will leave. -/
theorem beginStream_triple (s₀ : Scene) (sql : String) :
    Triple (On (· = s₀)) (beginStream E sql) fun r => On fun s =>
      match r with
      | .ok st => Draining E s₀ (unstreamed s₀.stream.inbox) st.done s
      | .error _ => Draining E s₀ (unstreamed s₀.stream.inbox) true s := by
  refine Returns.bind (R := fun r => On (Read E s₀ r)) ?_ fun frame => ?_
  · exact readFrame_returns fun s r s' hs hread => hs ▸ hread
  · refine Triple.bind (observed_received s₀ frame) (fun payload => ?_) fun e w hw => ?_
    · have hwait : ∀ w : World σ, Received E s₀ (.ok payload) w.toScene →
          Draining E s₀ (unstreamed s₀.stream.inbox) (!isHeader payload) w.toScene := fun w hw => by
        obtain ⟨rest, hinbox, hrest⟩ := hw.of_ok
        refine .inr ⟨rest, hrest, ?_⟩
        cases hheader : isHeader payload <;> simp [hinbox, unstreamed, hheader]
      cases hdecode : Response.decode payload with
      | error e =>
        have hheader : isHeader payload = false := by simp [isHeader, hdecode]
        rw [hheader] at hwait
        exact Triple.fails fun w hw => hwait w hw
      | ok resp =>
        refine Returns.bind (R := fun _ => On (Received E s₀ (.ok payload))) ?_ fun _ => ?_
        · split
          · exact observeStatement_returns _ sql
          · exact fun w hw => ⟨(), rfl, hw⟩
        · refine Triple.settle fun w hw => ?_
          have hdraining := hwait w hw
          cases hstart : RowStream.start resp with
          | ok st => rwa [start_done hdecode hstart] at *
          | error e => rwa [start_error hdecode hstart] at hdraining
    · obtain ⟨-, unread, hunread, hlost⟩ := hw.of_error
      exact .inl ⟨rfl, unread, hunread, hlost⟩

/-- The request of a stream was written and its frames are owed, or it was not written. -/
def Opening {ε : Type} (base : List Exchange) (r : Except ε Unit) (s : Scene) : Prop :=
  match r with
  | .ok _ => ∃ n, Owing base n s
  | .error _ => Fresh base s

/-- Writing the request of a stream either leaves the stream fresh or begins to owe its frames. -/
theorem Fresh.wrote (hE : E.OneReply) {base : List Exchange} {sent : Sent} {s s' : Scene}
    {r : Except IoError Unit} (h : Fresh base s) (hwrote : Wrote E .statement sent s r s') :
    Opening base r s' := by
  cases hwrote with
  | refused hlong e => exact h
  | lost e left hleft =>
    obtain ⟨new, hsince, -, hanswers⟩ := h
    exact ⟨new, ⟨hsince.log, hsince.opened, hsince.numbered⟩, hE.left left hleft, hanswers⟩
  | sent hfits answer hanswer => exact ⟨_, h.owing.send le_rfl⟩

/-- Sending the request of a stream leaves its frames unread. -/
theorem sendStream_triple (hE : E.OneReply) {base : List Exchange} (req : Sent) :
    Triple (On (Fresh base)) (sendStream E req) fun r => On (Opening base r) := by
  have hwrite : Returns (On (Fresh base)) (World.writeFrame E .statement req) fun r =>
      On (Opening base r) := writeFrame_returns fun s r s' hs hwrote => hs.wrote hE hwrote
  have htransport : ∀ sent : Except IoError Unit, Triple (On (Opening base sent))
      (transport E sent) fun r => On (Opening base r) := by
    intro sent
    refine transport_triple ?_ ?_
    · rintro v s rfl hs
      exact hs
    · rintro e s rfl hs
      exact hs
  have hreconnect : Keeps (On (Fresh base)) (reconnect E) :=
    (Fresh.reconnect hE fun s ⟨new, hsince, _⟩ => ⟨new, hsince⟩).conseq (fun _ hw => hw)
      fun _ _ hw => hw.elim id And.left
  refine Returns.bind hwrite fun sent => Triple.attempt (htransport sent) fun r => ?_
  cases r with
  | ok u => exact Triple.pure fun w hw => hw
  | error e =>
    refine Triple.bind hreconnect (fun _ => ?_) fun e w hw => hw
    exact Returns.bind hwrite htransport

/-- A stream whose frames were read leaves a frame unless they were clear. -/
theorem Draining.ends (hE : E.OneReply) {base : List Exchange} {n : ℕ} {s₀ s : Scene}
    (h : Owing base n s₀) (hs : Draining E s₀ (unstreamed s₀.stream.inbox) true s) :
    Ends base StreamClear s := by
  obtain ⟨new, hsince, hinbox, -, hempty⟩ := h
  obtain ⟨-, unread, hunread, rfl⟩ | ⟨rest, rfl, hrest⟩ := hs
  · exact (hsince.down hE hunread).ends
  · obtain rfl : rest = unstreamed s₀.stream.inbox := by simpa using hrest
    refine ⟨new, ⟨hsince.log, hsince.opened, hsince.numbered⟩, fun hdown => ?_, fun _ => ?_⟩
    · change unstreamed s₀.stream.inbox = []
      rw [hempty hdown]
      rfl
    · change unstreamed s₀.stream.inbox = [] ↔ StreamClear (answersOn s₀.stream.id new)
      rw [unstreamed_eq_nil_iff, ← hinbox]

/-- Beginning a streamed query from a boundary gives a stream whose unread frames are its own. -/
theorem queryStreamParamsWith_triple (hE : E.OneReply) {base : List Exchange} (sql : String)
    (params : List Value) (consistency : Consistency) :
    Triple (On (Fresh base)) (queryStreamParamsWith E sql params consistency) fun r => On fun s =>
      match r with
      | .ok st => ∃ s₀ : Scene, (∃ n, Owing base n s₀) ∧
          Draining E s₀ (unstreamed s₀.stream.inbox) st.done s
      | .error _ => Ends base StreamClear s := by
  refine Triple.bind (sendStream_triple hE _) (fun _ => ?_) fun e w hw => Fresh.ends trivial hw
  rintro w ⟨n, howing⟩
  have hbegin := beginStream_triple (E := E) w.toScene sql w rfl
  generalize beginStream E sql w = out at hbegin ⊢
  obtain ⟨e | st, w'⟩ := out
  · exact Draining.ends hE howing hbegin
  · exact ⟨w.toScene, ⟨n, howing⟩, hbegin⟩

/-- A streamed query from a boundary, whatever rows are asked for, leaves no frame exactly when its
replies were clear. -/
theorem streamRows_triple (hE : E.OneReply) {base : List Exchange} (sql : String)
    (params : List Value) (consistency : Consistency) (rows : ℕ) :
    Triple (On (Fresh base)) (streamRows E sql params consistency rows) fun _ =>
      On (Ends base StreamClear) := by
  refine Triple.bind (queryStreamParamsWith_triple hE sql params consistency) (fun st => ?_)
    fun e w hw => hw
  refine Triple.ofExists fun s₀ => ?_
  rintro w ⟨⟨n, howing⟩, hw⟩
  have hrows : Triple (On (Draining E s₀ (unstreamed s₀.stream.inbox) st.done))
      (st.pull E rows >>= fun out => out.2.drop E >>= fun _ => pure out.1)
      fun _ => On (Ends base StreamClear) := by
    refine Returns.bind (pull_draining s₀ _ rows st) fun out => ?_
    refine Triple.bind (R := fun _ => On (Draining E s₀ (unstreamed s₀.stream.inbox) true)) ?_
      (fun _ => Triple.pure fun w hw => Draining.ends hE howing hw)
      fun e w hw => Draining.ends hE howing hw
    refine Triple.reads fun unread => ?_
    refine (dropLoop_drained s₀ _ (unread + 2) out.2).conseq (fun w hw => ?_) fun _ _ hw => hw
    exact ⟨hw.1, by rw [hw.2]; omega⟩
  exact hrows w hw

end Skaidb
