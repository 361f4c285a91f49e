import Skaidb.Driver.Framewise
import Skaidb.Driver.Outcome

/-!
# Properties kept step by step

A property of scenes that survives a failing connection, a frame sent and a frame
read is kept by every method, apart from what happens at a re-dial. The
re-dial is a hypothesis here: some properties survive it by themselves and others
because the session is entered again.
-/

namespace Skaidb

open Program Client

variable {σ : Type} {E : Env σ} {I : Scene → Prop}

/-- The basic steps of a connection keep the property when frames are sent for an
allowed purpose. -/
structure Stepwise (E : Env σ) (I : Scene → Prop) (allowed : Purpose → Prop) : Prop where
  /-- A failure of the connection keeps the property. -/
  lose : ∀ s left, I s → E.Leaves left → I (s.lose left)
  /-- Writing a frame for an allowed purpose keeps the property. -/
  send : ∀ s purpose sent answer, I s → allowed purpose →
    sent.payload.length ≤ maxFrameLen → E.Answers sent.payload answer →
    I (s.send purpose sent answer)
  /-- Reading an unread frame keeps the property. -/
  leave : ∀ s frame rest, I s → s.stream.inbox = frame :: rest → I (s.leave rest)
  /-- Noting that a replay has come to its end keeps the property. -/
  enter : ∀ s, I s → I s.enter

/-! ## The session -/

/-- Binding a database keeps a property that is not about the binding. -/
theorem useDatabase_keeps
    (hask : ∀ sql consistency, Keeps (On I) (roundtrip E .bind (.query sql consistency)))
    (hset : ∀ (s : Scene) database, I s → I { s with client := { s.client with database } })
    (database : String) : Keeps (On I) (useDatabase E database) := by
  refine Keeps.reads fun previous => ?_
  refine Keeps.bind (Keeps.change fun w hw => hset _ _ hw) fun _ => ?_
  refine Keeps.attempt (applyDatabase_keeps hask) fun r => ?_
  cases r with
  | ok u => exact Keeps.pure _ _
  | error e => exact Keeps.bind (Keeps.change fun w hw => hset _ _ hw) fun _ => Keeps.fails _ _

/-- Setting a scan budget keeps a property that is not about the budget. -/
theorem setScanBudgetRows_keeps
    (hask : ∀ sql consistency, Keeps (On I) (roundtrip E .bind (.query sql consistency)))
    (hset : ∀ (s : Scene) scanBudgetRows, I s →
      I { s with client := { s.client with scanBudgetRows } })
    (rows : UInt64) : Keeps (On I) (setScanBudgetRows E rows) := by
  refine Keeps.reads fun client => ?_
  exact Keeps.bind (hask _ _) fun _ => Keeps.change fun w hw => hset _ _ hw

/-! ## Basic steps -/

section Keeps

variable {allowed : Purpose → Prop} (h : Stepwise E I allowed)

include h

/-- A property of the scenes that every basic step keeps is kept by writing a frame. -/
theorem Stepwise.writeFrame {purpose : Purpose} (hp : allowed purpose) (sent : Sent) :
    Returns (On I) (World.writeFrame E purpose sent) fun _ => On I := by
  refine writeFrame_returns fun s r s' hs hwrote => ?_
  cases hwrote with
  | refused => exact hs
  | lost e left hleft => exact h.lose s left hs hleft
  | sent hfits answer hanswer => exact h.send s _ _ _ hs hp hfits hanswer

/-- A property of the scenes that every basic step keeps is kept by reading a frame. -/
theorem Stepwise.readFrame : Returns (On I) (World.readFrame E) fun _ => On I := by
  refine readFrame_returns fun s r s' hs hread => ?_
  cases hread with
  | lost e left hleft => exact h.lose s left hs hleft
  | got hinbox => exact h.leave s _ _ hs hinbox

/-- A property that every step of an exchange keeps is kept by an exchange with an allowed
purpose. -/
theorem Stepwise.asked {purpose : Purpose} {sent : Sent} {s s' : Scene}
    {r : Except DriverError Response} (hp : allowed purpose) (hs : I s)
    (hasked : Asked E purpose sent s r s') : I s' := by
  cases hasked with
  | refused => exact hs
  | lost e left hleft => exact h.lose s left hs hleft
  | unanswered hfits answer hanswer e left hleft =>
    exact h.lose _ left (h.send s _ _ _ hs hp hfits hanswer) hleft
  | answered hfits answer hanswer hinbox =>
    exact h.leave _ _ _ (h.send s _ _ _ hs hp hfits hanswer) hinbox

/-- A property that every basic step keeps is kept by everything over one connection. -/
theorem Stepwise.framewise : Framewise E (On I) allowed where
  writeFrame hp sent := (h.writeFrame hp sent).keeps
  readFrame := h.readFrame.keeps
  report r := (report_returns I r).keeps
  enter := Keeps.change fun w hw => h.enter w.toScene hw

/-- A property that every basic step keeps is kept by a round trip. -/
theorem Stepwise.ask {purpose : Purpose} (hp : allowed purpose) (sent : Sent) :
    Keeps (On I) (ask E purpose sent) := h.framewise.ask hp sent

/-- A property that every step of an exchange keeps is kept by `sendHello`. -/
theorem Stepwise.sendHello (hp : allowed .hello) :
    Returns (On I) (sendHello E) fun _ => On I :=
  sendHello_returns fun _ _ _ hs hasked => h.asked hp hs hasked

end Keeps

/-! ## Calls with a retry -/

/-- A stronger property after a success, a weaker one after a failure. -/
def Settles {α : Type} (J I : Scene → Prop) : Except DriverError α → Scene → Prop
  | .ok _ => J
  | .error _ => I

/-- A method after another one settles what both settle, and survives where one of them fails. -/
theorem Settles.bind {J I : Scene → Prop} {α β : Type} {m : Driver σ α} {f : α → Driver σ β}
    (hm : Triple (On J) m fun r => On (Settles J I r))
    (hf : ∀ a, Triple (On J) (f a) fun r => On (Settles J I r)) :
    Triple (On J) (m >>= f) fun r => On (Settles J I r) :=
  Triple.bind hm hf fun _ _ hw => hw

/-- The property `J` holds while a call runs, and `I` is left after it: a round trip
keeps `J`, a reconnect that succeeds restores it, one that fails leaves `I`. -/
structure Survives (E : Env σ) (J I : Scene → Prop) (allowed : Purpose → Prop) : Prop where
  /-- The property between calls is the weaker one. -/
  weaken : ∀ s, J s → I s
  /-- A round trip that opens no stream keeps the property. -/
  ask : ∀ {purpose sent}, allowed purpose → opensStream sent.payload = false →
    Keeps (On J) (Client.ask E purpose sent)
  /-- A reconnect that succeeds brings the property about from what survived. -/
  reconnect : Triple (On J) (Client.reconnect E) fun r => On (Settles J I r)

/-- A property that the basic steps and reconnects keep survives. -/
theorem Stepwise.survives {allowed : Purpose → Prop} (h : Stepwise E I allowed)
    (hreconnect : Keeps (On I) (Client.reconnect E)) : Survives E I I allowed where
  weaken _ hs := hs
  ask hp _ := h.ask hp _
  reconnect := hreconnect.conseq (fun _ h => h) fun r w hw => by cases r <;> exact hw

section Survives

variable {J : Scene → Prop} {allowed : Purpose → Prop} (h : Survives E J I allowed)

include h

/-- What is left after a call, whatever its outcome. -/
theorem Survives.settled {α : Type} {r : Except DriverError α} {s : Scene}
    (hs : Settles J I r s) : I s := by
  cases r with
  | ok v => exact h.weaken s hs
  | error e => exact hs

/-- A method that keeps the property settles, since after a failure the weaker property is asked
for. -/
theorem Survives.settles {α : Type} {m : Driver σ α} (hm : Keeps (On J) m) :
    Triple (On J) m fun r => On (Settles J I r) := by
  refine hm.conseq (fun _ h => h) fun r w hw => ?_
  cases r with
  | ok v => exact hw
  | error e => exact h.weaken _ hw

/-- A method that is retried once after a reconnect. -/
theorem Survives.orRetry {α : Type} {m : Driver σ α} (hm : Keeps (On J) m) :
    Triple (On J) (orRetry m (Client.reconnect E >>= fun _ => m))
      fun r => On (Settles J I r) := by
  refine orRetry_triple hm (fun e => ?_) fun r w _ hw => ?_
  · exact Settles.bind h.reconnect fun _ => h.settles hm
  · cases r with
    | ok v => exact hw
    | error e => exact h.weaken _ hw

/-- `executeWith` settles when the property survives statements and the re-dial between its two
attempts. -/
theorem Survives.executeWith (hp : allowed .statement) (sql : String) (consistency : Consistency) :
    Triple (On J) (executeWith E sql consistency) fun r => On (Settles J I r) := by
  refine Settles.bind (h.orRetry (h.ask hp (opensStream_request _))) fun out => ?_
  exact Returns.bind (observeStatement_returns J sql) fun _ => h.settles (Keeps.pure _ _)

/-- `pipelineWith` settles when the property survives statements and the re-dial between its two
attempts. -/
theorem Survives.pipelineWith (hstep : Stepwise E J allowed) (hp : allowed .statement)
    (stmts : List String) (consistency : Consistency) :
    Triple (On J) (pipelineWith E stmts consistency) fun r => On (Settles J I r) := by
  unfold Client.pipelineWith
  split
  · exact h.settles (Keeps.pure _ _)
  · refine Settles.bind (h.orRetry (hstep.framewise.tryPipeline hp stmts consistency)) fun out => ?_
    exact Returns.bind (observeBatch_returns J _) fun _ => h.settles (Keeps.pure _ _)

/-- `prepare` settles when the property survives statements and the re-dial between its two
attempts. -/
theorem Survives.prepare (hp : allowed .statement) (sql : String) :
    Triple (On J) (prepare E sql) fun r => On (Settles J I r) := by
  refine Settles.bind (h.orRetry (h.ask hp (opensStream_client (by simp)))) fun resp => ?_
  exact h.settles (Keeps.reads fun _ => Keeps.settle _ _)

/-- A request that names a prepared statement survives, with the preparing anew and the second try
after a reconnect. -/
theorem Survives.withPrepared (hp : allowed .statement) (hhandle : ∀ sql, allowed (.handle sql))
    (stmt : Prepared) {request : UInt32 → ClientRequest}
    (hrequest : ∀ id, opensStream (Sent.client (request id)).payload = false) :
    Triple (On J) (withPrepared E stmt request) fun _ => On I := by
  have hleft : ∀ out, Triple (On J) (pure out : Driver σ (Except DriverError Response × Prepared))
      fun _ => On I := fun out => Triple.pure fun w hw => h.weaken _ hw
  refine Triple.attempt (h.ask (hhandle _) (hrequest _)) fun r => ?_
  match r with
  | .error (.io e) =>
    refine Triple.attempt (Settles.bind h.reconnect fun _ => h.prepare hp stmt.sql) fun fresh => ?_
    cases fresh with
    | error e => exact Triple.pure fun w hw => hw
    | ok fresh => exact Triple.attempt (h.ask (hhandle _) (hrequest _)) fun out => hleft _
  | .ok _ | .error (.proto _) | .error (.server _) | .error (.unexpected _ _) | .error (.auth _)
  | .error (.noEndpoint _) => exact hleft _

/-- `executePreparedWith` settles when the property survives statements and preparing its handle
again. -/
theorem Survives.executePreparedWith (hp : allowed .statement)
    (hhandle : ∀ sql, allowed (.handle sql)) (stmt : Prepared) (params : List Value)
    (consistency : Consistency) :
    Triple (On J) (executePreparedWith E stmt params consistency) fun _ => On I := by
  have hrequest : ∀ id,
      opensStream (Sent.client (.execute id params consistency)).payload = false :=
    fun _ => opensStream_client (by simp)
  refine Triple.bind (h.withPrepared hp hhandle stmt hrequest) (fun r => ?_) fun _ _ hw => hw
  obtain ⟨e | resp, stmt'⟩ := r
  · exact Triple.pure fun w hw => hw
  · exact Returns.bind (observeStatement_returns I _) fun _ => Triple.pure fun w hw => hw

/-- Executing a prepared statement for several rows survives, since it is one request that names the
statement. -/
theorem Survives.executeBatch (hp : allowed .statement) (hhandle : ∀ sql, allowed (.handle sql))
    (stmt : Prepared) (rows : List (List Value)) :
    Triple (On J) (executeBatch E stmt rows) fun _ => On I := by
  refine Triple.reads fun consistency => ?_
  have hrequest : ∀ id,
      opensStream (Sent.client (.executeBatch id rows consistency)).payload = false :=
    fun _ => opensStream_client (by simp)
  refine Triple.bind ((h.withPrepared hp hhandle stmt hrequest).conseq (fun _ hw => hw.1)
    fun _ _ hw => hw) (fun r => ?_) fun _ _ hw => hw
  obtain ⟨e | resp, stmt'⟩ := r
  · exact Triple.pure fun w hw => hw
  · cases resp with
    | mutation affected =>
      exact Returns.bind (observeStatement_returns I _) fun _ => Triple.pure fun w hw => hw
    | _ => exact Triple.pure fun w hw => hw

/-- Sending the request of a stream keeps what survives a re-dial, and settles it when the re-dial
was needed. -/
theorem Survives.sendStream (hstep : Stepwise E J allowed) (hp : allowed .statement) (req : Sent) :
    Triple (On J) (sendStream E req) fun r => On (Settles J I r) := by
  refine Returns.bind (hstep.writeFrame hp _) fun sent => ?_
  refine Triple.attempt (hstep.framewise.transport sent) fun r => ?_
  cases r with
  | ok u => exact h.settles (Keeps.pure _ _)
  | error e =>
    refine Settles.bind h.reconnect fun _ => ?_
    refine Returns.bind (hstep.writeFrame hp _) fun sent => ?_
    exact h.settles (hstep.framewise.transport sent)

/-- `streamRows` settles when the property survives statements and the re-dial between its two
attempts. -/
theorem Survives.streamRows (hstep : Stepwise E J allowed) (hp : allowed .statement)
    (sql : String) (params : List Value) (consistency : Consistency) (rows : ℕ) :
    Triple (On J) (streamRows E sql params consistency rows) fun r => On (Settles J I r) := by
  refine Settles.bind (Settles.bind (h.sendStream hstep hp _) fun _ => ?_) fun s => ?_
  · exact h.settles (hstep.framewise.beginStream sql)
  · exact h.settles (hstep.framewise.drainStream rows s)

end Survives

end Skaidb
