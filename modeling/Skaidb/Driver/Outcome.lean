import Skaidb.Driver.Client
import Skaidb.Proto.RequestCodec

/-!
# What a method can do

The inversion lemmas for frames and round trips: every outcome of writing, reading and
asking, with the scene it leads to. A server that answers every request once lets a
round trip read the answer to its own request, and a reconnect leaves the
scene as it is or replays the session on a fresh connection.
-/

namespace Skaidb

open Program

variable {σ : Type} {E : Env σ}

/-- A server may answer the payload with these frames. -/
def Env.Answers (E : Env σ) (payload : List UInt8) (answer : List Frame) : Prop :=
  ∃ conn env env', E.deliver conn payload env = (.ok answer, env')

/-- These frames may be left on a connection that fails. -/
def Env.Leaves (E : Env σ) (left : List Frame) : Prop := ∃ conn env, E.left conn env = left

/-- A property of the scene as a property of the world. -/
abbrev On (I : Scene → Prop) : World σ → Prop := fun w => I w.toScene

/-! ## Frames -/

/-- The outcomes of writing a frame: refused for its length, lost with the connection, or sent with
its answer under way. -/
inductive Wrote (E : Env σ) (purpose : Purpose) (sent : Sent) (s : Scene) :
    Except IoError Unit → Scene → Prop
  /-- The payload is above the limit. -/
  | refused (hlong : maxFrameLen < sent.payload.length) (e : IoError) :
    Wrote E purpose sent s (.error e) s
  /-- The connection fails. -/
  | lost (e : IoError) (left : List Frame) (hleft : E.Leaves left) :
    Wrote E purpose sent s (.error e) (s.lose left)
  /-- The frame is written and answered. -/
  | sent (hfits : sent.payload.length ≤ maxFrameLen)
    (answer : List Frame) (hanswer : E.Answers sent.payload answer) :
    Wrote E purpose sent s (.ok ()) (s.send purpose sent answer)

/-- Writing a frame has one of the outcomes of `Wrote`, so a proof about it needs no unfolding. -/
theorem writeFrame_wrote (purpose : Purpose) (sent : Sent) (w : World σ) :
    ∃ r, (World.writeFrame E purpose sent w).1 = .ok r ∧
      Wrote E purpose sent w.toScene r (World.writeFrame E purpose sent w).2.toScene := by
  unfold World.writeFrame Skaidb.writeFrame
  by_cases hlong : sent.payload.length > maxFrameLen
  · rw [if_pos hlong]
    exact ⟨_, rfl, .refused hlong _⟩
  · rw [if_neg hlong]
    rcases h : E.deliver w.stream.id sent.payload w.env with ⟨e | answer, env⟩
    · exact ⟨_, rfl, .lost e _ ⟨_, _, rfl⟩⟩
    · exact ⟨_, rfl, .sent (not_lt.mp hlong) answer ⟨_, _, _, h⟩⟩

/-- The outcomes of reading a frame: lost with the connection, or the next one that is unread. -/
inductive Read (E : Env σ) (s : Scene) : Except IoError Frame → Scene → Prop
  /-- The connection fails, or the next frame is above the limit. -/
  | lost (e : IoError) (left : List Frame) (hleft : E.Leaves left) :
    Read E s (.error e) (s.lose left)
  /-- The next unread frame is read. -/
  | got {frame : Frame} {rest : List Frame} (hinbox : s.stream.inbox = frame :: rest)
    (hfits : frame.length ≤ maxFrameLen) : Read E s (.ok frame) (s.leave rest)

/-- Reading a frame has one of the outcomes of `Read`, so a proof about it needs no unfolding. -/
theorem readFrame_read (w : World σ) :
    ∃ r, (World.readFrame E w).1 = .ok r ∧
      Read E w.toScene r (World.readFrame E w).2.toScene := by
  unfold World.readFrame
  rcases E.receive w.stream.id w.env with ⟨e | ⟨⟩, env⟩
  · exact ⟨_, rfl, .lost e _ ⟨_, _, rfl⟩⟩
  · rcases h : w.stream.inbox with _ | ⟨frame, rest⟩
    · exact ⟨_, rfl, .lost _ _ ⟨_, _, rfl⟩⟩
    · by_cases hfits : frame.length ≤ maxFrameLen
      · simp only [if_pos hfits]
        exact ⟨_, rfl, .got h hfits⟩
      · simp only [if_neg hfits]
        exact ⟨_, rfl, .lost _ _ ⟨_, _, rfl⟩⟩

/-- To prove something of a write, prove it of each outcome that `Wrote` lists. -/
theorem writeFrame_returns {purpose : Purpose} {sent : Sent} {P : Scene → Prop}
    {R : Except IoError Unit → Scene → Prop}
    (h : ∀ s r s', P s → Wrote E purpose sent s r s' → R r s') :
    Returns (On P) (World.writeFrame E purpose sent) fun r => On (R r) := by
  intro w hw
  obtain ⟨r, hr, hwrote⟩ := writeFrame_wrote (E := E) purpose sent w
  exact ⟨r, hr, h _ _ _ hw hwrote⟩

/-- To prove something of a read, prove it of each outcome that `Read` lists. -/
theorem readFrame_returns {P : Scene → Prop} {R : Except IoError Frame → Scene → Prop}
    (h : ∀ s r s', P s → Read E s r s' → R r s') :
    Returns (On P) (World.readFrame E) fun r => On (R r) := by
  intro w hw
  obtain ⟨r, hr, hread⟩ := readFrame_read (E := E) w
  exact ⟨r, hr, h _ _ _ hw hread⟩

/-! ## Reports -/

/-- A report does not fail and is not seen in the scene. -/
theorem report_returns (I : Scene → Prop) (r : Report) :
    Returns (On I) (report E r) fun _ => On I := by
  intro w hw
  refine ⟨(), rfl, ?_⟩
  change On I (if w.client.pooled then { w with env := E.report r w.env } else w)
  split <;> exact hw

/-- The outcome of a transport step is passed on and not seen in the scene. -/
theorem transport_triple {α : Type} {frame : Except IoError α} {P : Scene → Prop}
    {Q : Except DriverError α → Scene → Prop} (hok : ∀ v s, frame = .ok v → P s → Q (.ok v) s)
    (herror : ∀ e s, frame = .error e → P s → Q (.error (.io e)) s) :
    Triple (On P) (transport E frame) fun r => On (Q r) := by
  cases frame with
  | ok v => exact fun w hw => hok v _ rfl hw
  | error e =>
    refine Triple.reads fun endpoint => ?_
    have hreport : Returns (fun w => On P w ∧ w.client.connected = endpoint)
        (report E (.failed endpoint)) fun _ => On P :=
      (report_returns P _).conseq (fun _ h => h.1) fun _ _ h => h
    exact Returns.bind hreport fun _ => Triple.fails fun w hw => herror e _ rfl hw

/-- The outcome of a request is passed on and not seen in the scene. -/
theorem observed_triple {α : Type} {frame : Except IoError α} {P : Scene → Prop}
    {Q : Except DriverError α → Scene → Prop} (hok : ∀ v s, frame = .ok v → P s → Q (.ok v) s)
    (herror : ∀ e s, frame = .error e → P s → Q (.error (.io e)) s) :
    Triple (On P) (observed E frame) fun r => On (Q r) := by
  cases frame with
  | ok v =>
    refine Triple.reads fun endpoint => ?_
    have hreport : Returns (fun w => On P w ∧ w.client.connected = endpoint)
        (report E (.roundTrip endpoint)) fun _ => On P :=
      (report_returns P _).conseq (fun _ h => h.1) fun _ _ h => h
    exact Returns.bind hreport fun _ => Triple.pure fun w hw => hok v _ rfl hw
  | error e => exact transport_triple hok herror

/-- The outcome of a request is what its transport gave. -/
theorem observed_fst {α : Type} (frame : Except IoError α) (w : World σ) :
    (observed E frame w).1 = frame.mapError .io := by
  cases frame <;> rfl

/-- A successful statement is reported and not seen in the scene. -/
theorem observeStatement_returns (I : Scene → Prop) (sql : String) :
    Returns (On I) (observeStatement E sql) fun _ => On I := by
  refine Triple.reads fun endpoint => ?_
  exact (report_returns (E := E) I (.succeeded endpoint sql)).conseq (fun _ h => h.1) fun _ _ h => h

/-- Reports about a batch are not seen in the scene. -/
theorem observeBatch_returns (I : Scene → Prop) (batch : List (String × Response)) :
    Returns (On I) (Client.observeBatch E batch) fun _ => On I := by
  induction batch with
  | nil => exact fun w hw => ⟨(), rfl, hw⟩
  | cons entry rest ih =>
    obtain ⟨sql, resp⟩ := entry
    cases resp with
    | error msg => exact ih
    | _ => exact Returns.bind (observeStatement_returns I sql) fun _ => ih

/-- The outcomes of taking a frame from the stream. -/
inductive Received (E : Env σ) (s : Scene) : Except DriverError Frame → Scene → Prop
  /-- The connection fails. -/
  | lost (e : IoError) (left : List Frame) (hleft : E.Leaves left) :
    Received E s (.error (.io e)) (s.lose left)
  /-- The next unread frame is taken. -/
  | got {frame : Frame} {rest : List Frame} (hinbox : s.stream.inbox = frame :: rest) :
    Received E s (.ok frame) (s.leave rest)

/-- What `readFrame` reads is received, with its failures as errors of the transport. -/
theorem Read.received {s s' : Scene} {r : Except IoError Frame} (h : Read E s r s') :
    Received E s (r.mapError .io) s' := by
  cases h with
  | lost e left hleft => exact .lost e left hleft
  | got hinbox => exact .got hinbox

/-- A frame that is received was the next unread one. -/
theorem Received.of_ok {s s' : Scene} {frame : Frame} (h : Received E s (.ok frame) s') :
    ∃ rest, s.stream.inbox = frame :: rest ∧ s' = s.leave rest := by
  cases h with
  | got hinbox => exact ⟨_, hinbox, rfl⟩

/-- A frame that is not received is a transport error. -/
theorem Received.of_error {s s' : Scene} {e : DriverError} (h : Received E s (.error e) s') :
    (∃ io, e = .io io) ∧ ∃ left, E.Leaves left ∧ s' = s.lose left := by
  cases h with
  | lost io left hleft => exact ⟨⟨io, rfl⟩, left, hleft, rfl⟩

/-- Taking a frame after the first one of an answer. -/
theorem transport_received (s : Scene) (frame : Except IoError Frame) :
    Triple (On (Read E s frame)) (transport E frame) fun r => On (Received E s r) := by
  refine transport_triple ?_ ?_
  · rintro v s' rfl hread
    exact hread.received
  · rintro e s' rfl hread
    exact hread.received

/-- Reporting the first frame of an answer to the pool has the outcomes that `Received` lists. -/
theorem observed_received (s : Scene) (frame : Except IoError Frame) :
    Triple (On (Read E s frame)) (observed E frame) fun r => On (Received E s r) := by
  refine observed_triple ?_ ?_
  · rintro v s' rfl hread
    exact hread.received
  · rintro e s' rfl hread
    exact hread.received

/-! ## Round trips -/

/-- A reply that is passed on is what the frame decodes to. -/
theorem decode_of_interpret {frame : Frame} {resp : Response}
    (h : Client.interpret frame = .ok resp) : Response.decode frame = .ok resp := by
  unfold Client.interpret at h
  split at h
  · cases h
  · cases h
  · rename_i other _ hdecode
    exact hdecode.trans (congrArg _ (Except.ok.inj h))

/-- The outcomes of asking: the request is refused, the connection fails before or
after the request is written, or the next unread frame is taken for the reply. -/
inductive Asked (E : Env σ) (purpose : Purpose) (sent : Sent) (s : Scene) :
    Except DriverError Response → Scene → Prop
  /-- The payload is above the limit. -/
  | refused (hlong : maxFrameLen < sent.payload.length) (e : IoError) :
    Asked E purpose sent s (.error (.io e)) s
  /-- The connection fails before the frame is written. -/
  | lost (e : IoError) (left : List Frame) (hleft : E.Leaves left) :
    Asked E purpose sent s (.error (.io e)) (s.lose left)
  /-- The connection fails before a frame is read. -/
  | unanswered (hfits : sent.payload.length ≤ maxFrameLen)
    (answer : List Frame) (hanswer : E.Answers sent.payload answer) (e : IoError)
    (left : List Frame) (hleft : E.Leaves left) :
    Asked E purpose sent s (.error (.io e)) ((s.send purpose sent answer).lose left)
  /-- A frame is read. -/
  | answered (hfits : sent.payload.length ≤ maxFrameLen)
    (answer : List Frame) (hanswer : E.Answers sent.payload answer) {frame : Frame}
    {rest : List Frame} (hinbox : s.stream.inbox ++ answer = frame :: rest) :
    Asked E purpose sent s (Client.interpret frame) ((s.send purpose sent answer).leave rest)

/-- A frame that cannot be written cannot be asked. -/
theorem Wrote.asked {purpose : Purpose} {sent : Sent} {s s' : Scene} {e : IoError}
    (h : Wrote E purpose sent s (.error e) s') : Asked E purpose sent s (.error (.io e)) s' := by
  cases h with
  | refused hlong => exact .refused hlong e
  | lost _ left hleft => exact .lost e left hleft

/-- Asking ends with what is read after the frame is written. -/
theorem Read.asked {purpose : Purpose} {sent : Sent} {s s₁ s' : Scene}
    {r : Except IoError Frame} (hwrote : Wrote E purpose sent s (.ok ()) s₁)
    (hread : Read E s₁ r s') :
    Asked E purpose sent s ((r.mapError .io).bind Client.interpret) s' := by
  cases hwrote with
  | sent hfits answer hanswer =>
    cases hread with
    | lost e left hleft => exact .unanswered hfits answer hanswer e left hleft
    | got hinbox => exact .answered hfits answer hanswer hinbox

/-- Writing a frame and reading one has the outcomes that `Asked` lists. -/
theorem exchangeFrames_returns (purpose : Purpose) (sent : Sent) (s : Scene) :
    Returns (On (· = s)) (Client.exchangeFrames E purpose sent) fun r => On fun s' =>
      Asked E purpose sent s ((r.mapError .io).bind Client.interpret) s' := by
  refine Returns.bind (R := fun r => On (Wrote E purpose sent s r)) ?_ fun r => ?_
  · exact writeFrame_returns fun s₀ r s' hs hwrote => hs ▸ hwrote
  · cases r with
    | error e => exact Triple.pure fun w hw => ⟨_, rfl, Wrote.asked hw⟩
    | ok u => exact readFrame_returns fun s₁ r s' hwrote hread => hread.asked hwrote

/-- To prove something of a round trip, prove it of each outcome that `Asked` lists. -/
theorem ask_triple {purpose : Purpose} {sent : Sent} {P : Scene → Prop}
    {Q : Except DriverError Response → Scene → Prop}
    (h : ∀ s r s', P s → Asked E purpose sent s r s' → Q r s') :
    Triple (On P) (Client.ask E purpose sent) fun r => On (Q r) := by
  intro w hw
  have hasked : Triple (On (· = w.toScene)) (Client.ask E purpose sent) fun r => On (Q r) := by
    refine Returns.bind (exchangeFrames_returns purpose sent w.toScene) fun frame => ?_
    refine Triple.bind (R := fun r => On fun s' =>
      Asked E purpose sent w.toScene (r.bind Client.interpret) s') ?_ ?_ ?_
    · refine observed_triple ?_ ?_
      · rintro v s' rfl hs
        exact hs
      · rintro e s' rfl hs
        exact hs
    · exact fun payload => Triple.settle fun w' hw' => h _ _ _ hw hw'
    · exact fun e w' hw' => h _ _ _ hw hw'
  exact hasked w rfl

/-- Saying hello has the outcomes of asking, and none of them is a failure. -/
theorem sendHello_returns {P Q : Scene → Prop}
    (h : ∀ s r s', P s → Asked E .hello (.client Client.helloRequest) s r s' → Q s') :
    Returns (On P) (Client.sendHello E) fun _ => On Q := by
  refine Returns.bind (R := fun r => On fun s' => ∃ s, P s ∧
    Wrote E .hello (.client Client.helloRequest) s r s') ?_ fun r => ?_
  · exact writeFrame_returns fun s r s' hs hwrote => ⟨s, hs, hwrote⟩
  · cases r with
    | error e =>
      refine Triple.pure fun w hw => ?_
      obtain ⟨s, hs, hwrote⟩ := hw
      exact ⟨(), rfl, h _ _ _ hs hwrote.asked⟩
    | ok u =>
      refine Returns.bind (R := fun _ => On Q) (readFrame_returns fun s₁ r s' hs hread => ?_)
        fun _ => Triple.pure fun w hw => ⟨(), rfl, hw⟩
      obtain ⟨s, hs, hwrote⟩ := hs
      exact h _ _ _ hs (hread.asked hwrote)

/-! ## Servers that answer once -/

/-- The request is answered with a stream of frames. -/
def opensStream (payload : List UInt8) : Bool :=
  payload.head? == some Op.queryStream || payload.head? == some Op.queryStreamParams

/-- What is assumed of servers and connections where a statement is about which request a
frame answers: a request that does not open a stream is answered with at most one frame, and a
connection on which a write or a read has failed gives no more frames. -/
structure Env.OneReply (E : Env σ) : Prop where
  /-- A request that does not open a stream is answered with one frame; a connection that
  breaks first answers with none. -/
  answers : ∀ payload answer, opensStream payload = false → E.Answers payload answer →
    answer.length ≤ 1
  /-- After a failure nothing can be read any more, though the client may go on writing. -/
  left : ∀ left, E.Leaves left → left = []

/-- A statement sent as a plain request is not answered by a stream of chunks. -/
theorem opensStream_request (req : Request) : opensStream (Sent.request req).payload = false := rfl

/-- A tagged request does not open a stream, whatever the request in it, since its frame begins with
the tag of the wrapper. -/
theorem opensStream_tagged (id : UInt32) (req : ClientRequest) :
    opensStream (Sent.tagged id req).payload = false := by
  simp +decide [opensStream, Sent.payload, encodeTaggedRequest, ClientRequest.encodeInto_eq]

/-- Of the other requests only the streamed query opens a stream. -/
theorem opensStream_client {req : ClientRequest}
    (hreq : ∀ sql params consistency, req ≠ .queryStream sql params consistency) :
    opensStream (Sent.client req).payload = false := by
  cases req with
  | queryStream sql params consistency => exact absurd rfl (hreq sql params consistency)
  | _ => simp +decide [opensStream, Sent.payload, ClientRequest.encode_eq]

/-- Saying hello is not answered by a stream of chunks. -/
theorem opensStream_hello : opensStream (Sent.client Client.helloRequest).payload = false :=
  opensStream_client (by simp [Client.helloRequest])

/-- At a request boundary a round trip reads the answer to its own request. -/
theorem answer_eq_of_aligned (hE : E.OneReply) {sent : Sent} {s : Scene} {answer rest : List Frame}
    {frame : Frame} (hsent : opensStream sent.payload = false)
    (hanswer : E.Answers sent.payload answer) (hs : s.stream.inbox = [])
    (hinbox : s.stream.inbox ++ answer = frame :: rest) : answer = [frame] ∧ rest = [] := by
  rw [hs, List.nil_append] at hinbox
  have hlen := hE.answers _ _ hsent hanswer
  rw [hinbox, List.length_cons] at hlen
  have hrest : rest = [] := List.eq_nil_of_length_eq_zero (by omega)
  exact ⟨by rw [hinbox, hrest], hrest⟩

/-! ## Failover -/

/-- Choosing an order of endpoints is not seen in the scene. -/
theorem redialOrder_returns (I : Scene → Prop) :
    Returns (On I) (Client.redialOrder E) fun _ => On I := by
  intro w hw
  unfold Client.redialOrder
  by_cases hpooled : w.client.pooled
  · rw [if_pos hpooled]
    exact ⟨_, rfl, hw⟩
  · rw [if_neg hpooled]
    exact ⟨_, rfl, hw⟩

/-- Dialling is not seen in the scene before the connection is made the live one. -/
theorem dial_returns (I : Scene → Prop) (endpoint : String) :
    Returns (On I) (Client.dial E endpoint) fun _ => On I :=
  fun _ hw => ⟨_, rfl, hw⟩

/-- Dialling endpoints in turn leaves the scene as it is, or makes a fresh connection
the live one and replays the session on it. -/
theorem redial_triple {P : Scene → Prop} {Q : Except DriverError Unit → Scene → Prop}
    (hnone : ∀ msg s, P s → Q (.error (.noEndpoint msg)) s)
    (hmoved : Triple (On fun s' => ∃ s ep ordered, P s ∧ s' = s.install ep ordered)
      (Client.replaySession E) fun r => On (Q r)) (ordered eps : List String) (last : String) :
    Triple (On P) (Client.redial E ordered eps last) fun r => On (Q r) := by
  induction eps generalizing last with
  | nil => exact Triple.fails fun w hw => hnone last _ hw
  | cons ep rest ih =>
    refine Returns.bind (dial_returns P ep) fun outcome => ?_
    cases outcome with
    | ok u =>
      refine Returns.bind (R := fun _ => On fun s' => ∃ s ep ordered, P s ∧
        s' = s.install ep ordered) ?_ fun _ => ?_
      · exact fun w hw => ⟨(), rfl, w.toScene, ep, ordered, hw, rfl⟩
      · exact Returns.bind (report_returns _ _) fun _ => hmoved
    | error text => exact Returns.bind (report_returns P _) fun _ => ih _

/-- A reconnect leaves the scene as it is, or makes a fresh connection the live one and
replays the session on it. -/
theorem reconnect_triple {P : Scene → Prop} {Q : Except DriverError Unit → Scene → Prop}
    (hnone : ∀ msg s, P s → Q (.error (.noEndpoint msg)) s)
    (hmoved : Triple (On fun s' => ∃ s ep ordered, P s ∧ s' = s.install ep ordered)
      (Client.replaySession E) fun r => On (Q r)) :
    Triple (On P) (Client.reconnect E) fun r => On (Q r) :=
  Returns.bind (redialOrder_returns P) fun ordered => redial_triple hnone hmoved ordered ordered ""

/-- A retry runs after a transport failure and nowhere else. -/
theorem orRetry_triple {α : Type} {P : World σ → Prop} {first again : Driver σ α}
    {R Q : Except DriverError α → World σ → Prop} (hfirst : Triple P first R)
    (hagain : ∀ e, Triple (R (.error (.io e))) again Q)
    (hother : ∀ r w, (∀ e, r ≠ .error (.io e)) → R r w → Q r w) :
    Triple P (Client.orRetry first again) Q := by
  refine Triple.attempt hfirst fun r => ?_
  match r with
  | .ok v => exact Triple.settle fun w hw => hother _ w (fun e h => nomatch h) hw
  | .error (.io e) => exact hagain e
  | .error (.proto _) | .error (.server _) | .error (.unexpected _ _) | .error (.auth _)
  | .error (.noEndpoint _) => exact Triple.settle fun w hw => hother _ w (fun e h => nomatch h) hw

end Skaidb
