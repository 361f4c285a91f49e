import Skaidb.Driver.Pipeline
import Skaidb.Driver.RowStreams
import Skaidb.Driver.Run

/-!
# Request and response alignment

A call leaves the connection at a request boundary when every frame that the server sent
for its requests has been read. The servers here answer every request with one
frame, a streamed query apart, and the contents of the frames are arbitrary.
A statement always ends at a boundary. A pipelined batch and a streamed query do so
exactly when no frame before the last one makes the client stop reading.
-/

namespace Skaidb

open Program Client

variable {σ : Type} {E : Env σ}

/-- The live connection, which has been opened, is at a boundary. -/
structure Idle (s : Scene) : Prop where
  /-- Every frame has been read. -/
  aligned : Aligned s
  /-- The live connection has been opened. -/
  numbered : s.stream.id < s.opened

/-- At a boundary the call that begins is owed nothing. -/
theorem Idle.fresh {s : Scene} (h : Idle s) : Fresh s.log s :=
  ⟨[], ⟨rfl, by simp, h.numbered⟩, h.aligned, rfl⟩

/-- A stream with an empty log of its own has nothing unread either, so the client is at a
boundary. -/
theorem Fresh.idle {base : List Exchange} {s : Scene} (h : Fresh base s) : Idle s := by
  obtain ⟨new, hsince, hinbox, -⟩ := h
  exact ⟨hinbox, hsince.numbered⟩

/-- A round trip that opens no stream reads the one frame of its answer and ends at a boundary. -/
theorem Idle.asked (hE : E.OneReply) {purpose : Purpose} {sent : Sent} {s s' : Scene}
    {r : Except DriverError Response} (hsent : opensStream sent.payload = false) (h : Idle s)
    (hasked : Asked E purpose sent s r s') : Idle s' := by
  refine ⟨h.aligned.asked hE hsent hasked, ?_⟩
  cases hasked <;> exact h.numbered

/-- A reconnect, however it ends, leaves the client on a connection without unread frames. -/
theorem Idle.reconnect (hE : E.OneReply) : Keeps (On Idle) (reconnect E) := by
  intro w hw
  have hreconnect : Triple (On (Fresh w.log)) (Client.reconnect E) fun r => On fun s =>
      Fresh w.log s ∨ Fresh w.log s ∧ ∃ e, r = .error e :=
    Fresh.reconnect hE fun s ⟨new, hsince, _⟩ => ⟨new, hsince⟩
  exact ((hreconnect w hw.fresh).elim id And.left).idle

/-- Boundaries survive every call made of round trips and reconnects. -/
theorem idle_survives (hE : E.OneReply) : Survives E Idle Idle fun _ => True where
  weaken _ hs := hs
  ask _ hsent := ask_triple fun _ _ _ hs hasked => hs.asked hE hsent hasked
  reconnect := (Idle.reconnect hE).conseq (fun _ h => h) fun r w hw => by cases r <;> exact hw

/-- A session statement such as USE, sent from a boundary, leaves the client at one. -/
theorem Idle.query (hE : E.OneReply) (sql : String) (consistency : Consistency) :
    Keeps (On Idle) (roundtrip E .bind (.query sql consistency)) :=
  (idle_survives hE).ask trivial (opensStream_client (by simp))

/-- The replies that a call reads let it read all of them. -/
def Clear (E : Env σ) (s : Session σ) : Call → Prop
  | .pipeline stmts consistency => BatchClear stmts
      (s.world.toScene.replies (s.step E (.pipeline stmts consistency)).world.toScene)
  | .streamRows sql params consistency rows => StreamClear
      (s.world.toScene.replies (s.step E (.streamRows sql params consistency rows)).world.toScene)
  | _ => True

/-- What a call leaves, in terms of the replies to it. -/
theorem Ends.unread_iff {clear : List Frame → Prop} {s₀ s : Scene} (h : Ends s₀.log clear s) :
    s.stream.inbox = [] ↔ (s.stream.up = true → clear (s₀.replies s)) := by
  obtain ⟨new, hsince, hdown, hlive⟩ := h
  rw [hsince.replies]
  cases hup : s.stream.up with
  | true => simpa using hlive hup
  | false => simpa using hdown hup

/-- A call whose replies were clear ends at a boundary. -/
theorem Ends.idle {clear : List Frame → Prop} {s₀ s : Scene} (h : Ends s₀.log clear s)
    (hclear : clear (s₀.replies s)) : Idle s := by
  refine ⟨h.unread_iff.mpr fun _ => hclear, ?_⟩
  obtain ⟨new, hsince, -⟩ := h
  exact hsince.numbered

/-- A call whose replies were clear keeps the session at a boundary. -/
theorem Idle.step (hE : E.OneReply) {s : Session σ} {c : Call} (hclear : Clear E s c)
    (hs : Idle s.world.toScene) : Idle (s.step E c).world.toScene := by
  have h := idle_survives hE
  cases c with
  | useDatabase database =>
    rw [Session.step_useDatabase_world]
    exact useDatabase_keeps (Idle.query hE) (fun _ _ hs => ⟨hs.aligned, hs.numbered⟩) database _ hs
  | setScanBudgetRows rows =>
    exact setScanBudgetRows_keeps (Idle.query hE) (fun _ _ hs => ⟨hs.aligned, hs.numbered⟩)
      rows _ hs
  | setConsistency consistency => exact ⟨hs.aligned, hs.numbered⟩
  | addEndpoints more => exact ⟨hs.aligned, hs.numbered⟩
  | reconnect => exact Idle.reconnect hE _ hs
  | execute sql consistency => exact h.settled (h.executeWith trivial sql consistency _ hs)
  | pipeline stmts consistency =>
    exact (pipelineWith_triple hE stmts consistency _ hs.fresh).idle hclear
  | prepare sql =>
    rw [Session.step_prepare_world]
    exact h.settled (h.prepare trivial sql _ hs)
  | executePrepared handle params consistency =>
    refine Session.afterHandle_world (I := On Idle) hs fun stmt _ => ?_
    exact h.executePreparedWith trivial (fun _ => trivial) stmt params consistency _ hs
  | executeBatch handle rows =>
    refine Session.afterHandle_world (I := On Idle) hs fun stmt _ => ?_
    exact h.executeBatch trivial (fun _ => trivial) stmt rows _ hs
  | streamRows sql params consistency rows =>
    exact (streamRows_triple hE sql params consistency rows _ hs.fresh).idle hclear

/-- A client that has just been opened is at a boundary. -/
theorem Env.Opened.idle (hE : E.OneReply) {w : World σ} (h : E.Opened w) : Idle w.toScene := by
  refine h.scene (fun client hstream _ _ => ?_) (sendHello_returns fun _ _ _ hs hasked => ?_)
  · exact ⟨by simp [Aligned, Scene.stream, hstream], by simp [Scene.stream, hstream]⟩
  · exact hs.asked hE opensStream_hello hasked

end Skaidb
