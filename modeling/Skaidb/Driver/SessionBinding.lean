import Skaidb.Driver.Boundary
import Skaidb.Driver.Run

/-!
# The session survives failover

A client may bind a database and a scan budget. Every statement must then be written on a
connection on which the server has acknowledged both. A reconnect replays them on the
fresh connection before anything else. When the replay does not come to its end, because the
server refuses a statement of it or the connection fails under it, the fresh connection stays
the live one without the binding, and the next call is written there.
-/

namespace Skaidb

open Program Client

variable {σ : Type} {E : Env σ}

/-! ## Acknowledged statements -/

/-- The server answered with a frame that decodes and is not an error. -/
def Accepted (e : Exchange) : Prop := ∃ frame resp, e.answer = [frame] ∧ interpret frame = .ok resp

/-- The log has a session statement written on the connection whose answer is one frame that decodes
and is not an error. -/
def Acked (log : List Exchange) (conn : ℕ) (sql : String) : Prop :=
  ∃ e ∈ log, e.conn = conn ∧ (∃ consistency, e.sent = .client (.query sql consistency)) ∧ Accepted e

/-- The session database and the scan budget were acknowledged on the connection. -/
def BoundTo (log : List Exchange) (conn : ℕ) (database : Option String) (budget : UInt64) : Prop :=
  (∀ db, database = some db → Acked log conn (useSql db)) ∧
    (budget ≠ 0 → Acked log conn (budgetSql budget))

/-- A frame for a statement of the caller, prepared or not. -/
def ForCaller (purpose : Purpose) : Prop := purpose = .statement ∨ ∃ sql, purpose = .handle sql

/-- A statement of the caller is written where the session of the time was acknowledged. -/
def WrittenBound (log : List Exchange) (e : Exchange) : Prop :=
  ForCaller e.purpose → BoundTo log e.conn e.database e.budget

/-- Binding the session is the driver's own affair and not a request for the caller. -/
theorem not_forCaller_bind : ¬ ForCaller .bind := by simp [ForCaller]

/-- Replaying the session is the driver's own affair and not a request for the caller. -/
theorem not_forCaller_rebind : ¬ ForCaller .rebind := by simp [ForCaller]

/-- Saying hello is the driver's own affair and not a request for the caller. -/
theorem not_forCaller_hello : ¬ ForCaller .hello := by simp [ForCaller]

/-- A session statement that was acknowledged stays acknowledged as the log grows. -/
theorem Acked.mono {log log' : List Exchange} {conn : ℕ} {sql : String} (h : Acked log conn sql)
    (hlog : log <:+ log') : Acked log' conn sql := by
  obtain ⟨e, he, hacked⟩ := h
  exact ⟨e, hlog.subset he, hacked⟩

/-- A statement fits a frame together with the six bytes around its text. -/
def FitsQuery (sql : String) : Prop := (utf8 sql).length + 6 ≤ maxFrameLen

/-- The length of a session statement does not depend on its consistency. -/
theorem length_query (sql : String) (consistency : Consistency) :
    (Sent.client (.query sql consistency)).payload.length = (utf8 sql).length + 6 := by
  simp [Sent.payload, ClientRequest.encode, ClientRequest.encodeInto, writeBytes]
  omega

/-! ## What happens on one connection -/

/-- More has happened on the same connection, and no replay has come to its end on it. -/
structure Grows (s s' : Scene) : Prop where
  /-- The log has grown. -/
  log : s.log <:+ s'.log
  /-- The connection is the same. -/
  id : s'.stream.id = s.stream.id
  /-- The session was entered before if it is now. -/
  entered : s'.entered = true → s.entered = true

/-- A connection that fails forgets none of the exchanges that were made. -/
theorem Grows.lose (s : Scene) (left : List Frame) : Grows s (s.lose left) :=
  ⟨List.suffix_rfl, rfl, fun h => h⟩

/-- Writing a frame adds an exchange to those that were made. -/
theorem Grows.send (s : Scene) (purpose : Purpose) (sent : Sent) (answer : List Frame) :
    Grows s (s.send purpose sent answer) :=
  ⟨List.suffix_cons _ _, rfl, fun h => h⟩

/-- Reading a frame forgets none of the exchanges that were made. -/
theorem Grows.leave (s : Scene) (rest : List Frame) : Grows s (s.leave rest) :=
  ⟨List.suffix_rfl, rfl, fun h => h⟩

/-- What has grown in one step and then in another has grown in both. -/
theorem Grows.trans {s s' s'' : Scene} (h : Grows s s') (h' : Grows s' s'') : Grows s s'' :=
  ⟨h.log.trans h'.log, h'.id.trans h.id, fun hentered => h.entered (h'.entered hentered)⟩

/-- A round trip changes no connection for another and only adds to the log. -/
theorem Asked.grows {purpose : Purpose} {sent : Sent} {s s' : Scene}
    {r : Except DriverError Response} (h : Asked E purpose sent s r s') : Grows s s' := by
  cases h with
  | refused => exact ⟨List.suffix_rfl, rfl, fun h => h⟩
  | lost e left => exact Grows.lose s left
  | unanswered hfits answer hanswer e left =>
    exact (Grows.send s purpose sent answer).trans (Grows.lose _ left)
  | answered hfits answer => exact (Grows.send s purpose sent answer).trans (Grows.leave _ _)

/-- A round trip does not change what the client remembers. -/
theorem Asked.remembers {purpose : Purpose} {sent : Sent} {s s' : Scene}
    {r : Except DriverError Response} (h : Asked E purpose sent s r s') :
    s'.client.database = s.client.database ∧
      s'.client.scanBudgetRows = s.client.scanBudgetRows := by
  cases h <;> exact ⟨rfl, rfl⟩

/-- A session statement that succeeds at a boundary was acknowledged. -/
theorem Asked.acked (hE : E.OneReply) {purpose : Purpose} {sql : String} {consistency : Consistency}
    {s s' : Scene} {resp : Response} (hs : Aligned s)
    (h : Asked E purpose (.client (.query sql consistency)) s (.ok resp) s') :
    Acked s'.log s'.stream.id sql := by
  have hquery : opensStream (Sent.client (.query sql consistency)).payload = false :=
    opensStream_client (by simp)
  generalize hr : (Except.ok resp : Except DriverError Response) = r at h
  cases h with
  | refused => cases hr
  | lost => cases hr
  | unanswered => cases hr
  | @answered hfits answer hanswer frame rest hinbox =>
    obtain ⟨rfl, -⟩ := answer_eq_of_aligned hE hquery hanswer hs hinbox
    exact ⟨_, List.mem_cons_self, rfl, ⟨consistency, rfl⟩, frame, resp, rfl, hr.symm⟩

/-! ## What is known of the session -/

/-- A condition that does not become true again on a connection. -/
def Receding (C : Scene → Prop) : Prop := ∀ s s', Grows s s' → C s' → C s

/-- A condition that does not depend on the scene recedes. -/
theorem receding_const (p : Prop) : Receding fun _ => p := fun _ _ _ h => h

/-- The session was entered again on the live connection, or no re-dial opened it. -/
abbrev Replayed (s : Scene) : Prop := s.entered = true

/-- That the session was entered recedes, as only the end of a replay brings it about. -/
theorem receding_replayed : Receding Replayed := fun _ _ hgrows h => hgrows.entered h

/-- A session statement was acknowledged on the live connection, if the condition holds. -/
def Holds (C : Scene → Prop) (sql : String) (s : Scene) : Prop :=
  C s → Acked s.log s.stream.id sql

/-- What holds of a session statement goes on to hold. -/
theorem Holds.grows {C : Scene → Prop} (hC : Receding C) {sql : String} {s s' : Scene}
    (h : Holds C sql s) (hgrows : Grows s s') : Holds C sql s' := by
  intro hc
  rw [hgrows.id]
  exact (h (hC s s' hgrows hc)).mono hgrows.log

/-- Every statement so far was written where its session was acknowledged, and under the
conditions the statements that bind the given session hold. -/
structure Keeping (C D : Scene → Prop) (database : Option String) (budget : UInt64) (s : Scene) :
    Prop where
  /-- Every statement so far was written where the session was bound. -/
  log : Throughout WrittenBound s.log
  /-- Under the first condition, the USE of the database is acknowledged. -/
  database : ∀ db, database = some db → Holds C (useSql db) s
  /-- Under the second condition, the SET of the scan budget is acknowledged. -/
  budget : budget ≠ 0 → Holds D (budgetSql budget) s

/-- The session database and the scan budget that the client remembers are acknowledged on the live
connection. -/
def Entered (s : Scene) : Prop :=
  Keeping (fun _ => True) (fun _ => True) s.client.database s.client.scanBudgetRows s

/-- The session is acknowledged on the live connection unless a re-dial opened that and its
replay did not come to its end. -/
def AtRest (s : Scene) : Prop :=
  Keeping Replayed Replayed s.client.database s.client.scanBudgetRows s

/-- What is known under some conditions is known under stronger ones. -/
theorem Keeping.weaken {C D C' D' : Scene → Prop} {database : Option String} {budget : UInt64}
    {s : Scene} (h : Keeping C D database budget s) (hC : C' s → C s) (hD : D' s → D s) :
    Keeping C' D' database budget s where
  log := h.log
  database db hdb hc := h.database db hdb (hC hc)
  budget hne hd := h.budget hne (hD hd)

/-- The statements so far are kept by frames that are not for statements of the caller. -/
theorem writtenBound_stepwise : Stepwise E (fun s => Throughout WrittenBound s.log)
    fun purpose => ¬ ForCaller purpose where
  lose _ _ hs _ := hs
  send _ _ _ _ hs hp _ _ := Throughout.cons (fun h => absurd h hp) hs
  leave _ _ _ hs _ := hs
  enter _ hs := hs

/-- In an entered session a statement is written where the session is acknowledged. -/
theorem Entered.bound {s : Scene} (h : Entered s) :
    BoundTo s.log s.stream.id s.client.database s.client.scanBudgetRows :=
  ⟨fun db hdb => h.database db hdb trivial, fun hne => h.budget hne trivial⟩

/-- A session that was entered stays entered while more happens on the connection, if the
statements that are written meanwhile are written where it is acknowledged. -/
theorem Entered.grows {s s' : Scene} (h : Entered s) (hgrows : Grows s s')
    (hdatabase : s'.client.database = s.client.database)
    (hbudget : s'.client.scanBudgetRows = s.client.scanBudgetRows)
    (hlog : Throughout WrittenBound s'.log) : Entered s' where
  log := hlog
  database db hdb := (h.database db (hdatabase ▸ hdb)).grows (receding_const True) hgrows
  budget hne := by
    rw [hbudget] at hne ⊢
    exact (h.budget hne).grows (receding_const True) hgrows

/-- Writes, reads and failures for the caller's statements keep the session entered. -/
theorem entered_stepwise : Stepwise E Entered fun _ => True where
  lose s left hs _ := hs.grows (Grows.lose s left) rfl rfl hs.log
  send s purpose sent answer hs _ _ _ := hs.grows (Grows.send s purpose sent answer) rfl rfl
    (Throughout.cons (fun _ => hs.bound) hs.log)
  leave s _ rest hs _ := hs.grows (Grows.leave s rest) rfl rfl hs.log
  enter _ hs := ⟨hs.log, hs.database, hs.budget⟩

/-! ## Session statements -/

/-- The connection is at a boundary, and something is known of one session while the client
remembers another. -/
structure Asking (C D : Scene → Prop) (database : Option String) (budget : UInt64)
    (database' : Option String) (budget' : UInt64) (s : Scene) : Prop
    extends Keeping C D database budget s where
  /-- The connection has no unread frame, or it is down. -/
  aligned : Aligned s
  /-- The database that the client remembers. -/
  remembersDatabase : s.client.database = database'
  /-- The scan budget that the client remembers. -/
  remembersBudget : s.client.scanBudgetRows = budget'

/-- A round trip that is not for the caller keeps what is known. -/
theorem Asking.asked (hE : E.OneReply) {C D : Scene → Prop} (hC : Receding C) (hD : Receding D)
    {database database' : Option String} {budget budget' : UInt64} {purpose : Purpose}
    {sent : Sent} {s s' : Scene} {r : Except DriverError Response}
    (hp : ¬ ForCaller purpose)
    (hsent : opensStream sent.payload = false)
    (hs : Asking C D database budget database' budget' s) (hasked : Asked E purpose sent s r s') :
    Asking C D database budget database' budget' s' := by
  refine ⟨⟨?_, ?_, ?_⟩, ?_, ?_, ?_⟩
  · exact writtenBound_stepwise.asked hp hs.log hasked
  · exact fun db hdb => (hs.database db hdb).grows hC hasked.grows
  · exact fun hne => (hs.budget hne).grows hD hasked.grows
  · exact hs.aligned.asked hE hsent hasked
  · exact hasked.remembers.1.trans hs.remembersDatabase
  · exact hasked.remembers.2.trans hs.remembersBudget

/-- A session statement at a boundary keeps what is known. If it succeeds it was
acknowledged. -/
theorem session_triple (hE : E.OneReply) {C D : Scene → Prop} (hC : Receding C) (hD : Receding D)
    {database database' : Option String} {budget budget' : UInt64} {purpose : Purpose}
    (hp : ¬ ForCaller purpose) (sql : String)
    (consistency : Consistency) :
    Triple (On (Asking C D database budget database' budget'))
      (roundtrip E purpose (.query sql consistency)) fun r => On fun s =>
        Asking C D database budget database' budget' s ∧
        ∀ resp, r = .ok resp → Acked s.log s.stream.id sql := by
  refine ask_triple fun s r s' hs hasked => ⟨?_, fun resp hr => ?_⟩
  · exact hs.asked hE hC hD hp (opensStream_client (by simp)) hasked
  · subst hr
    exact hasked.acked hE hs.aligned

/-! ## Replaying the session -/

/-- Replaying the database. A failure leaves what was known before. -/
theorem applyDatabase_rebind (hE : E.OneReply) (database : Option String) (budget : UInt64) :
    Triple (On (Asking Replayed Replayed database budget database budget))
      (applyDatabase E .rebind) fun r =>
      On (Settles (Asking (fun _ => True) Replayed database budget database budget)
        (Asking Replayed Replayed database budget database budget) r) := by
  refine Triple.reads fun client => ?_
  refine Triple.conseq (Triple.assume fun (hclient : client.database = database) => ?_)
    (fun w hw => ⟨hw.1, hw.2 ▸ hw.1.remembersDatabase⟩) fun _ _ hw => hw
  subst hclient
  cases client.database with
  | none =>
    refine Triple.pure fun w hw => ?_
    exact ⟨⟨hw.log, (fun db hdb => nomatch hdb), hw.budget⟩, hw.aligned, hw.remembersDatabase,
      hw.remembersBudget⟩
  | some db =>
    refine Triple.bind (session_triple hE receding_replayed receding_replayed
      not_forCaller_rebind _ _) (fun resp => Triple.pure fun w hw => ?_) fun e w hw => hw.1
    obtain ⟨hasking, hacked⟩ := hw
    refine ⟨⟨hasking.log, fun db' hdb' => ?_, hasking.budget⟩, hasking.aligned,
      hasking.remembersDatabase, hasking.remembersBudget⟩
    cases hdb'
    exact fun _ => hacked resp rfl

/-- Replaying the scan budget, after the database, ends with the session entered or not replayed. -/
theorem applyScanBudget_rebind (hE : E.OneReply) (database : Option String) (budget : UInt64) :
    Triple (On (Asking (fun _ => True) Replayed database budget database budget))
      (applyScanBudget E .rebind) fun r => On (Settles Entered
        (Asking (fun _ => True) Replayed database budget database budget) r) := by
  refine Triple.reads fun client => ?_
  refine Triple.conseq (Triple.assume fun (hclient : client.scanBudgetRows = budget) => ?_)
    (fun w hw => ⟨hw.1, hw.2 ▸ hw.1.remembersBudget⟩) fun _ _ hw => hw
  subst hclient
  have hentered : ∀ s, Asking (fun _ => True) Replayed database client.scanBudgetRows
      database client.scanBudgetRows s → (client.scanBudgetRows ≠ 0 →
        Acked s.log s.stream.id (budgetSql client.scanBudgetRows)) → Entered s := by
    intro s hs hacked
    refine ⟨hs.log, fun db hdb => hs.database db (hs.remembersDatabase ▸ hdb), fun hne => ?_⟩
    rw [hs.remembersBudget] at hne ⊢
    exact fun _ => hacked hne
  by_cases hzero : client.scanBudgetRows = 0
  · rw [if_pos hzero]
    exact Triple.pure fun w hw => hentered _ hw fun hne => absurd hzero hne
  · rw [if_neg hzero]
    refine Triple.bind (session_triple hE (receding_const True) receding_replayed
      not_forCaller_rebind _ _) (fun resp => Triple.pure fun w hw => ?_) fun e w hw => hw.1
    exact hentered _ hw.1 fun _ => hw.2 resp rfl

/-- What is known while a session is replayed is known when the replay does not come to its
end, with the session at rest. -/
theorem Asking.atRest {C D : Scene → Prop} {database : Option String} {budget : UInt64} {s : Scene}
    (h : Asking C D database budget database budget s) (hC : Replayed s → C s)
    (hD : Replayed s → D s) : AtRest s := by
  have hkeeping := h.toKeeping.weaken hC hD
  rw [← h.remembersDatabase, ← h.remembersBudget] at hkeeping
  exact hkeeping

/-- Replaying the session on a new connection leaves it with the database and the budget of the
client entered, unless it fails. -/
theorem replaySession_triple (hE : E.OneReply) (database : Option String) (budget : UInt64) :
    Triple (On (Asking Replayed Replayed database budget database budget))
      (replaySession E) fun r => On (Settles Entered AtRest r) := by
  have hhello : Returns (On (Asking Replayed Replayed database budget database budget))
      (sendHello E) fun _ => On (Asking Replayed Replayed database budget database budget) :=
    sendHello_returns fun s r s' hs hasked => hs.asked hE receding_replayed
      receding_replayed not_forCaller_hello opensStream_hello hasked
  refine Returns.bind hhello fun _ => ?_
  refine Triple.bind (applyDatabase_rebind hE _ _) (fun _ => ?_) fun e w hw => hw.atRest id id
  refine Triple.bind (applyScanBudget_rebind hE _ _) (fun _ => ?_)
    fun e w hw => hw.atRest (fun _ => trivial) id
  exact Triple.change fun w hw => (entered_stepwise (E := E)).enter _ hw

/-- A reconnect that succeeds enters the session on the fresh connection. One that fails
leaves the session at rest. -/
theorem AtRest.reconnect (hE : E.OneReply) :
    Triple (On AtRest) (reconnect E) fun r => On (Settles Entered AtRest r) := by
  refine reconnect_triple (fun _ _ hs => hs) ?_
  rintro w ⟨s, ep, ordered, hs, hw⟩
  have hstart : Asking Replayed Replayed s.client.database s.client.scanBudgetRows
      s.client.database s.client.scanBudgetRows (s.install ep ordered) :=
    ⟨⟨hs.log, fun _ _ h => Bool.noConfusion h, fun _ h => Bool.noConfusion h⟩, rfl, rfl, rfl⟩
  exact replaySession_triple hE _ _ w (by simpa only [On, hw] using hstart)

/-! ## Binding the session -/

/-- The `USE` for a new database at a boundary. -/
theorem applyDatabase_bind (hE : E.OneReply) (previous : Option String) (budget : UInt64)
    (db : String) :
    Triple (On (Asking Replayed Replayed previous budget (some db) budget))
      (applyDatabase E .bind) fun r => On fun s =>
        Asking Replayed Replayed previous budget (some db) budget s ∧
        ∀ u, r = .ok u → Acked s.log s.stream.id (useSql db) := by
  refine Triple.reads fun client => ?_
  refine Triple.conseq (Triple.assume fun (hclient : client.database = some db) => ?_)
    (fun w hw => ⟨hw.1, hw.2 ▸ hw.1.remembersDatabase⟩) fun _ _ hw => hw
  simp only [hclient]
  refine Triple.bind (session_triple hE receding_replayed receding_replayed not_forCaller_bind
    _ _) (fun resp => ?_) fun e w hw => ⟨hw.1, fun _ h => nomatch h⟩
  exact Triple.pure fun w hw => ⟨hw.1, fun _ _ => hw.2 resp rfl⟩

/-- Remembering another database does not change what is known. -/
theorem setDatabase_returns {previous : Option String} {budget budget' : UInt64}
    (database database' : Option String) :
    Returns (On (Asking Replayed Replayed previous budget database budget'))
      (setDatabase database' : Driver σ Unit) fun _ =>
        On (Asking Replayed Replayed previous budget database' budget') :=
  fun w hw => by
  have hgrows : Grows w.toScene (setDatabase database' w : _ × World σ).2.toScene :=
    ⟨List.suffix_rfl, rfl, fun h => h⟩
  refine ⟨(), rfl, ⟨⟨hw.log, fun db hdb => ?_, fun hne => ?_⟩, hw.aligned, rfl, hw.remembersBudget⟩⟩
  · exact (hw.database db hdb).grows receding_replayed hgrows
  · exact (hw.budget hne).grows receding_replayed hgrows

/-- Binding a database at a boundary: it is acknowledged, or the previous one is kept. -/
theorem useDatabase_triple (hE : E.OneReply) (database : String) :
    Triple (On fun s => AtRest s ∧ Aligned s) (useDatabase E database) fun _ => On AtRest := by
  refine Triple.reads fun previous => ?_
  refine Triple.conseq (P := fun w => ∃ budget,
    On (Asking Replayed Replayed previous budget previous budget) w)
    (Triple.ofExists fun budget => ?_) ?_ fun _ _ hw => hw
  swap
  · rintro w ⟨⟨hrest, haligned⟩, rfl⟩
    exact ⟨w.client.scanBudgetRows, hrest, haligned, rfl, rfl⟩
  refine Returns.bind (setDatabase_returns previous (some database)) fun _ => ?_
  refine Triple.attempt (applyDatabase_bind hE previous budget database) fun r => ?_
  cases r with
  | ok u =>
    refine Triple.pure fun w hw => ?_
    obtain ⟨hasking, hacked⟩ := hw
    refine ⟨hasking.log, fun db hdb => ?_, fun hne => ?_⟩
    · rw [hasking.remembersDatabase] at hdb
      cases hdb
      exact fun _ => hacked u rfl
    · rw [hasking.remembersBudget] at hne ⊢
      exact hasking.budget hne
  | error e =>
    refine Returns.bind ((setDatabase_returns (some database) previous).conseq (fun _ hw => hw.1)
      fun _ _ hw => hw) fun _ => Triple.fails fun w hw => hw.atRest id id

/-- Setting a scan budget at a boundary: it is acknowledged, or the previous one is kept. -/
theorem setScanBudgetRows_triple (hE : E.OneReply) (rows : UInt64) :
    Triple (On fun s => AtRest s ∧ Aligned s) (setScanBudgetRows E rows) fun _ => On AtRest := by
  refine Triple.reads fun client => ?_
  refine Triple.conseq (P := fun w => ∃ database budget,
    On (Asking Replayed Replayed database budget database budget) w)
    (Triple.ofExists fun database => Triple.ofExists fun budget => ?_) ?_ fun _ _ hw => hw
  swap
  · rintro w ⟨⟨hrest, haligned⟩, -⟩
    exact ⟨w.client.database, w.client.scanBudgetRows, hrest, haligned, rfl, rfl⟩
  refine Triple.bind (session_triple hE receding_replayed receding_replayed not_forCaller_bind
    _ _) (fun resp => ?_) fun e w hw => hw.1.atRest id id
  refine Triple.change fun w hw => ?_
  obtain ⟨hasking, hacked⟩ := hw
  refine ⟨hasking.log, fun db hdb => hasking.database db (hasking.remembersDatabase ▸ hdb), ?_⟩
  intro hne
  have hset := hacked resp rfl
  rw [if_neg hne] at hset
  exact fun _ => hset

/-! ## Runs -/

/-- A session that was entered is at rest, whether or not a re-dial opened the live connection. -/
theorem Entered.atRest {s : Scene} (h : Entered s) : AtRest s :=
  h.weaken (fun _ => trivial) fun _ => trivial

/-- Unless a replay broke off on the live connection, a session at rest is entered. -/
theorem AtRest.entered {s : Scene} (h : AtRest s) (hreplayed : Replayed s) : Entered s :=
  h.weaken (fun _ => hreplayed) fun _ => hreplayed

/-- The session survives every call that begins when it is entered. -/
theorem entered_survives (hE : E.OneReply) : Survives E Entered AtRest fun _ => True where
  weaken _ hs := hs.atRest
  ask hp _ := entered_stepwise.ask hp _
  reconnect := (AtRest.reconnect hE).conseq (fun _ hw => hw.atRest) fun _ _ hw => hw

/-- Statements are called for while the replay of the re-dial that opened the live connection,
if there was one, has run to its end, and the session is bound at a request boundary. -/
def SessionReplayed (s : Session σ) : Call → Prop
  | .useDatabase _ | .setScanBudgetRows _ => s.world.stream.inbox = []
  | .setConsistency _ | .addEndpoints _ | .reconnect => True
  | _ => s.world.entered = true

/-- A call under these conditions leaves the session at rest. -/
theorem AtRest.step (hE : E.OneReply) {s : Session σ} {c : Call} (hready : SessionReplayed s c)
    (hs : AtRest s.world.toScene) : AtRest (s.step E c).world.toScene := by
  have h := entered_survives hE
  have hstep := entered_stepwise (E := E)
  cases c with
  | useDatabase database =>
    rw [Session.step_useDatabase_world]
    exact useDatabase_triple hE database s.world ⟨hs, hready⟩
  | setScanBudgetRows rows => exact setScanBudgetRows_triple hE rows s.world ⟨hs, hready⟩
  | setConsistency consistency => exact ⟨hs.log, hs.database, hs.budget⟩
  | addEndpoints more => exact ⟨hs.log, hs.database, hs.budget⟩
  | reconnect => exact h.settled (AtRest.reconnect hE s.world hs)
  | execute sql consistency =>
    exact h.settled (h.executeWith trivial sql consistency s.world (hs.entered hready))
  | pipeline stmts consistency =>
    exact h.settled (h.pipelineWith hstep trivial stmts consistency s.world (hs.entered hready))
  | prepare sql =>
    rw [Session.step_prepare_world]
    exact h.settled (h.prepare trivial sql s.world (hs.entered hready))
  | executePrepared handle params consistency =>
    refine Session.afterHandle_world (I := On AtRest) hs fun stmt _ => ?_
    exact h.executePreparedWith trivial (fun _ => trivial) stmt params consistency s.world
      (hs.entered hready)
  | executeBatch handle rows =>
    refine Session.afterHandle_world (I := On AtRest) hs fun stmt _ => ?_
    exact h.executeBatch trivial (fun _ => trivial) stmt rows s.world (hs.entered hready)
  | streamRows sql params consistency rows =>
    exact h.settled (h.streamRows hstep trivial sql params consistency rows s.world
      (hs.entered hready))

/-- **Session binding.** In every run that binds the session at request boundaries and makes
no call for a statement after a replay broke off on the live connection, every statement was
written on a connection on which the server had acknowledged a `USE` of the database bound
at the time and a `SET` of the scan budget remembered at the time. -/
theorem statements_bound (hE : E.OneReply) {w : World σ} (hopened : E.Opened w)
    {s : Session σ} (hrun : Run (Session.step E) SessionReplayed ⟨w, []⟩ s) :
    ∀ later e earlier, s.world.log = later ++ e :: earlier → ForCaller e.purpose →
      (∀ db, e.database = some db → Acked earlier e.conn (useSql db)) ∧
        (e.budget ≠ 0 → Acked earlier e.conn (budgetSql e.budget)) := by
  have hstart : AtRest w.toScene := by
    refine Entered.atRest (hopened.scene (fun client _ hdatabase hbudget => ?_)
      (entered_stepwise.sendHello trivial))
    refine ⟨Throughout.nil _, fun db hdb => ?_, fun hne => ?_⟩
    · cases hdatabase.symm.trans hdb
    · exact absurd hbudget hne
  have hs := hrun.invariant (I := fun s : Session σ => AtRest s.world.toScene)
    (fun _ _ hready hs => hs.step hE hready) hstart
  exact hs.log

/-- A database is bound and a statement is executed on one connection. -/
theorem statements_bound_of_one : ∃ e, (((hostSession (answering politeReply) ()).step
      (answering politeReply) (.useDatabase "app")).step (answering politeReply)
        (.execute "X" .quorum)).world.log.head? = some e ∧
    ForCaller e.purpose ∧ e.database = some "app" ∧
    ∃ earlier, Acked earlier e.conn (useSql "app") := by
  have huse : SessionReplayed (hostSession (answering politeReply) ()) (.useDatabase "app") := rfl
  have hexecute : SessionReplayed ((hostSession (answering politeReply) ()).step
      (answering politeReply) (.useDatabase "app")) (.execute "X" .quorum) := rfl
  have hbound := statements_bound politeReply_oneReply (opened_answering politeReply)
    ((Run.refl.tail huse).tail hexecute)
  have hhead : (((hostSession (answering politeReply) ()).step (answering politeReply)
      (.useDatabase "app")).step (answering politeReply) (.execute "X" .quorum)).world.log.head?.map
        (fun e => (e.purpose, e.database)) = some (.statement, some "app") := by decide
  rw [Option.map_eq_some_iff] at hhead
  obtain ⟨e, he, hfields⟩ := hhead
  obtain ⟨hpurpose, hdatabase⟩ := Prod.mk.inj hfields
  obtain ⟨earlier, hlog⟩ := List.head?_eq_some_iff.mp he
  exact ⟨e, he, .inl hpurpose, hdatabase, earlier,
    (hbound [] e earlier hlog (.inl hpurpose)).1 "app" hdatabase⟩

/-- The session statement that a request carries, such as USE or SET SCAN BUDGET. -/
def Sent.querySql : Sent → Option String
  | .client (.query sql _) => some sql
  | _ => none

/-- A database is bound, the connection fails under a statement, and the server refuses the
`USE` that is replayed on the new connection. -/
def refusedSession : Session (List (Except IoError (List Frame))) :=
  [.useDatabase "app", .execute "X" .quorum, .execute "Y" .quorum].foldl
    (Session.step scripted) (hostSession scripted
      [.ok [[2]], .ok [[2]], .error ⟨.connectionReset, "connection reset"⟩, .ok [[2]],
        .ok [[3, 0, 0, 0, 0]], .ok [[2]]])

/-- The next statement is written on the new connection while the database counts as bound,
though no `USE` was acknowledged there. -/
theorem statement_not_bound : ∃ e earlier, refusedSession.world.log = e :: earlier ∧
    e.purpose = .statement ∧ e.conn = 1 ∧ e.database = some "app" ∧
    ¬ Acked earlier 1 (useSql "app") := by
  refine ⟨_, _, rfl, rfl, rfl, rfl, ?_⟩
  have hnone : refusedSession.world.log.tail.all fun e =>
      e.conn ≠ 1 || e.sent.querySql ≠ some (useSql "app") || e.answer = [[3, 0, 0, 0, 0]] := by
    decide
  rintro ⟨e, he, hconn, ⟨consistency, hsent⟩, frame, resp, hanswer, hok⟩
  have hrefused := List.all_eq_true.mp hnone e he
  simp only [hconn, hsent, Sent.querySql, ne_eq, not_true_eq_false, decide_false, Bool.false_or,
    decide_eq_true_eq] at hrefused
  obtain rfl : frame = [3, 0, 0, 0, 0] := List.singleton_inj.mp (hanswer.symm.trans hrefused)
  cases hok

end Skaidb
