import Skaidb.Driver.Stepwise

/-!
# Request boundaries

The connection is at a request boundary when every frame that the server sent has been
read. Each call is owed the frames sent for its statements on the connection that
is live when it ends. A reconnect makes a fresh connection the live one and leaves
it at a boundary, as the requests that replay the session are answered once.
-/

namespace Skaidb

open Program Client

variable {σ : Type} {E : Env σ}

/-! ## Boundaries -/

/-- No frame is unread on the live connection. -/
def Aligned (s : Scene) : Prop := s.stream.inbox = []

/-- A round trip from a boundary ends at one. -/
theorem Aligned.asked (hE : E.OneReply) {purpose : Purpose} {sent : Sent} {s s' : Scene}
    {r : Except DriverError Response} (hsent : opensStream sent.payload = false) (h : Aligned s)
    (hasked : Asked E purpose sent s r s') : Aligned s' := by
  cases hasked with
  | refused => exact h
  | lost e left hleft => exact hE.left _ hleft
  | unanswered _ _ _ _ left hleft => exact hE.left _ hleft
  | answered hfits answer hanswer hinbox =>
    exact (answer_eq_of_aligned hE hsent hanswer h hinbox).2

/-- A property that the basic steps keep is kept by round trips, which end at a boundary. -/
theorem Stepwise.ask_aligned {I : Scene → Prop} {allowed : Purpose → Prop}
    (h : Stepwise E I allowed) (hE : E.OneReply) {purpose : Purpose} {sent : Sent}
    (hp : allowed purpose) (hsent : opensStream sent.payload = false) :
    Keeps (On fun s => I s ∧ Aligned s) (Client.ask E purpose sent) :=
  ask_triple fun _ _ _ hs hasked => ⟨h.asked hp hs.1 hasked, hs.2.asked hE hsent hasked⟩

/-- A reconnect that succeeds ends at a boundary, since each request of its replay is answered by at
most one frame, which is read. -/
theorem Stepwise.reconnect_aligned {I : Scene → Prop} {allowed : Purpose → Prop}
    (h : Stepwise E I allowed) (hE : E.OneReply) (hhello : allowed .hello)
    (hrebind : allowed .rebind) (hinstall : ∀ s ep ordered, I s → I (s.install ep ordered)) :
    Triple (On I) (Client.reconnect E) fun r => On (Settles (fun s => I s ∧ Aligned s) I r) := by
  have hask : ∀ sql consistency, Keeps (On fun s => I s ∧ Aligned s)
      (roundtrip E .rebind (.query sql consistency)) :=
    fun _ _ => h.ask_aligned hE hrebind (opensStream_client (by simp))
  have hreplay : Keeps (On fun s => I s ∧ Aligned s) (replaySession E) := by
    refine Returns.bind (sendHello_returns fun s r s' hs hasked => ?_) fun _ =>
      Keeps.bind (applyDatabase_keeps hask) fun _ =>
        Keeps.bind (applyScanBudget_keeps hask) fun _ =>
          Keeps.change fun w hw => ⟨h.enter _ hw.1, hw.2⟩
    exact ⟨h.asked hhello hs.1 hasked, hs.2.asked hE opensStream_hello hasked⟩
  refine reconnect_triple (fun _ _ hs => hs) (hreplay.conseq (fun w hw => ?_) fun r w hw => ?_)
  · obtain ⟨s, ep, ordered, hs, hw⟩ := hw
    simp only [On, hw]
    exact ⟨hinstall s ep ordered hs, rfl⟩
  · cases r with
    | ok u => exact hw
    | error e => exact hw.1

/-! ## The frames a call is owed -/

/-- The frames sent for statements on a connection, oldest first. -/
def answersOn (conn : ℕ) (log : List Exchange) : List Frame :=
  (log.reverse.filter fun e => e.purpose = .statement ∧ e.conn = conn).flatMap Exchange.answer

/-- The frames sent for the statements that were written since an earlier scene on the
connection that is live now. -/
def Scene.replies (s₀ s : Scene) : List Frame :=
  answersOn s.stream.id (s.log.take (s.log.length - s₀.log.length))

/-- A statement on the live connection adds its frames. -/
theorem answersOn_statement (s : Scene) (sent : Sent) (answer : List Frame)
    (log : List Exchange) : answersOn s.stream.id (s.exchange .statement sent answer :: log) =
      answersOn s.stream.id log ++ answer := by
  simp [answersOn, Scene.exchange, List.filter_append]

/-- An exchange that is not for a statement of the caller adds no answer to those of a
connection. -/
theorem answersOn_cons_other {conn : ℕ} {e : Exchange} {log : List Exchange}
    (hp : e.purpose ≠ .statement) : answersOn conn (e :: log) = answersOn conn log := by
  simp [answersOn, List.filter_append, hp]

/-- A connection on which nothing was written is owed nothing. -/
theorem answersOn_eq_nil {conn : ℕ} {log : List Exchange} (h : ∀ e ∈ log, e.conn ≠ conn) :
    answersOn conn log = [] := by
  have hfilter : (log.reverse.filter fun e => e.purpose = .statement ∧ e.conn = conn) = [] := by
    refine List.filter_eq_nil_iff.mpr fun e he => ?_
    simp [h e (List.mem_reverse.mp he)]
  rw [answersOn, hfilter, List.flatMap_nil]

/-- The exchanges since a base log, all on connections that have been opened. -/
structure Since (base new : List Exchange) (s : Scene) : Prop where
  /-- The log is the base log with the new exchanges. -/
  log : s.log = new ++ base
  /-- The new exchanges took place on connections that have been opened. -/
  opened : ∀ e ∈ new, e.conn < s.opened
  /-- The live connection has been opened. -/
  numbered : s.stream.id < s.opened

/-- The replies since an earlier scene are the frames of the new exchanges. -/
theorem Since.replies {new : List Exchange} {s₀ s : Scene} (h : Since s₀.log new s) :
    Scene.replies s₀ s = answersOn s.stream.id new := by
  simp [Scene.replies, h.log]

/-- Writing a frame begins an exchange, which is the newest of those that the scene remembers since
the base. -/
theorem Since.send {base new : List Exchange} {s : Scene} (h : Since base new s)
    (purpose : Purpose) (sent : Sent) (answer : List Frame) :
    Since base (s.exchange purpose sent answer :: new) (s.send purpose sent answer) where
  log := by simp [Scene.send, Scene.setStream, h.log]
  opened e he := by
    rcases List.mem_cons.mp he with rfl | he
    · exact h.numbered
    · exact h.opened e he
  numbered := h.numbered

/-- A connection that has just been dialled becomes the live one without any new exchange. -/
theorem Since.install {base new : List Exchange} {s : Scene} (h : Since base new s)
    (ep : String) (ordered : List String) : Since base new (s.install ep ordered) where
  log := h.log
  opened e he := Nat.lt_succ_of_lt (h.opened e he)
  numbered := Nat.lt_succ_self _

/-- The stream is at a boundary and no statement was written on it since the base log. -/
def Fresh (base : List Exchange) (s : Scene) : Prop :=
  ∃ new, Since base new s ∧ s.stream.inbox = [] ∧ answersOn s.stream.id new = []

/-- Every frame sent for statements since the base log is still unread, and there are
not more than the given number of them. -/
def Owing (base : List Exchange) (n : ℕ) (s : Scene) : Prop :=
  ∃ new, Since base new s ∧ s.stream.inbox = answersOn s.stream.id new ∧
    s.stream.inbox.length ≤ n ∧ (s.stream.up = false → s.stream.inbox = [])

/-- A write or a read on the live connection has failed, and no frame is left on it. -/
def Down (base : List Exchange) (s : Scene) : Prop :=
  ∃ new, Since base new s ∧ s.stream.up = false ∧ s.stream.inbox = []

/-- A stream that is fresh since the base has no exchange begun, so no reply is owed on it. -/
theorem Fresh.owing {base : List Exchange} {s : Scene} (h : Fresh base s) : Owing base 0 s := by
  obtain ⟨new, hsince, hinbox, hanswers⟩ := h
  exact ⟨new, hsince, by rw [hinbox, hanswers], by simp [hinbox], fun _ => hinbox⟩

/-- Sending a statement adds the frames of its answer to those that are owed, so the bound grows by
their number. -/
theorem Owing.send {base : List Exchange} {n k : ℕ} {s : Scene} {sent : Sent}
    {answer : List Frame} (h : Owing base n s) (hk : answer.length ≤ k) :
    Owing base (n + k) (s.send .statement sent answer) := by
  obtain ⟨new, hsince, hinbox, hlen, _⟩ := h
  refine ⟨_, hsince.send _ _ _, ?_, ?_, fun hdown => Bool.noConfusion hdown⟩
  · exact (congrArg (· ++ answer) hinbox).trans (answersOn_statement s sent answer new).symm
  · simp only [Scene.send, Scene.setStream, List.length_append]
    omega

/-- A connection whose write or read fails is down, as it gives no further frame. -/
theorem Since.down (hE : E.OneReply) {base new : List Exchange} {s : Scene} {left : List Frame}
    (h : Since base new s) (hleft : E.Leaves left) : Down base (s.lose left) :=
  ⟨new, ⟨h.log, h.opened, h.numbered⟩, rfl, hE.left left hleft⟩

/-! ## Reconnecting ends at a boundary -/

/-- A round trip for the session keeps a stream fresh. -/
theorem Fresh.asked (hE : E.OneReply) {base : List Exchange} {purpose : Purpose} {sent : Sent}
    {s s' : Scene} {r : Except DriverError Response} (hp : purpose ≠ .statement)
    (hsent : opensStream sent.payload = false) (h : Fresh base s)
    (hasked : Asked E purpose sent s r s') : Fresh base s' := by
  obtain ⟨new, hsince, hinbox, hanswers⟩ := h
  cases hasked with
  | refused => exact ⟨new, hsince, hinbox, hanswers⟩
  | lost e left hleft =>
    exact ⟨new, ⟨hsince.log, hsince.opened, hsince.numbered⟩, hE.left left hleft, hanswers⟩
  | unanswered hfits answer hanswer e left hleft =>
    have hsend := hsince.send purpose sent answer
    refine ⟨_, ⟨hsend.log, hsend.opened, hsend.numbered⟩, hE.left left hleft, ?_⟩
    exact (answersOn_cons_other hp).trans hanswers
  | answered hfits answer hanswer hrest =>
    have hsend := hsince.send purpose sent answer
    refine ⟨_, ⟨hsend.log, hsend.opened, hsend.numbered⟩, ?_, ?_⟩
    · exact (answer_eq_of_aligned hE hsent hanswer hinbox hrest).2
    · exact (answersOn_cons_other hp).trans hanswers

/-- A session statement for the driver's own purposes leaves a stream fresh for the caller's. -/
theorem Fresh.query (hE : E.OneReply) {base : List Exchange} {purpose : Purpose}
    (hp : purpose ≠ .statement) (sql : String) (consistency : Consistency) :
    Keeps (On (Fresh base)) (roundtrip E purpose (.query sql consistency)) :=
  ask_triple fun _ _ _ hs hasked =>
    hs.asked hE hp (opensStream_client (by simp)) hasked

/-- Saying hello on a fresh stream leaves it fresh, whatever the server answers. -/
theorem Fresh.sendHello (hE : E.OneReply) (base : List Exchange) :
    Returns (On (Fresh base)) (sendHello E) fun _ => On (Fresh base) :=
  sendHello_returns fun _ _ _ hs hasked =>
    hs.asked hE (by decide) opensStream_hello hasked

/-- The end of a replay keeps a stream fresh. -/
theorem Fresh.enter {base : List Exchange} {s : Scene} (h : Fresh base s) : Fresh base s.enter := by
  obtain ⟨new, hsince, hfresh⟩ := h
  exact ⟨new, ⟨hsince.log, hsince.opened, hsince.numbered⟩, hfresh⟩

/-- A reconnect makes a fresh stream the live one, or leaves the scene as it is. -/
theorem Fresh.reconnect (hE : E.OneReply) {base : List Exchange} {P : Scene → Prop}
    (hP : ∀ s, P s → ∃ new, Since base new s) :
    Triple (On P) (reconnect E) fun r => On fun s => Fresh base s ∨ P s ∧ ∃ e, r = .error e := by
  refine reconnect_triple (fun msg s hs => .inr ⟨hs, _, rfl⟩) ?_
  have hreplay : Keeps (On (Fresh base)) (replaySession E) :=
    Returns.bind (Fresh.sendHello hE base) fun _ =>
      Keeps.bind (applyDatabase_keeps (Fresh.query hE (by decide))) fun _ =>
        Keeps.bind (applyScanBudget_keeps (Fresh.query hE (by decide))) fun _ =>
          Keeps.change fun w hw => hw.enter
  refine hreplay.conseq ?_ fun _ _ h => .inl h
  rintro w ⟨s, ep, ordered, hs, hw⟩
  obtain ⟨new, hsince⟩ := hP s hs
  have hfresh : Fresh base (s.install ep ordered) :=
    ⟨new, hsince.install ep ordered, rfl, answersOn_eq_nil fun e he => (hsince.opened e he).ne⟩
  simpa only [On, hw] using hfresh

/-! ## The end of a call -/

/-- The call has ended: a failed connection holds nothing, and on a live one no frame
is left exactly when the replies were clear. -/
def Ends (base : List Exchange) (clear : List Frame → Prop) (s : Scene) : Prop :=
  ∃ new, Since base new s ∧ (s.stream.up = false → s.stream.inbox = []) ∧
    (s.stream.up = true → (s.stream.inbox = [] ↔ clear (answersOn s.stream.id new)))

/-- A call that ends on a failed connection leaves nothing unread there, whatever its caller meant
to leave. -/
theorem Down.ends {base : List Exchange} {clear : List Frame → Prop} {s : Scene}
    (h : Down base s) : Ends base clear s := by
  obtain ⟨new, hsince, hdown, hinbox⟩ := h
  exact ⟨new, hsince, fun _ => hinbox, fun hup => by simp [hdown] at hup⟩

/-- A call that ends without a frame for it. -/
theorem Fresh.ends {base : List Exchange} {clear : List Frame → Prop} {s : Scene}
    (hclear : clear []) (h : Fresh base s) : Ends base clear s := by
  obtain ⟨new, hsince, hinbox, hanswers⟩ := h
  exact ⟨new, hsince, fun _ => hinbox, fun _ => by simp [hinbox, hanswers, hclear]⟩

end Skaidb
