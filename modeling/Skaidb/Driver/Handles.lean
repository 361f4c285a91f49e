import Skaidb.Driver.Boundary
import Skaidb.Driver.Run

/-!
# Prepared handles

The identifiers of prepared statements belong to a connection. A request written for a
handle must carry an identifier that the connection it is written on returned for a
`Prepare` of the handle's own text. The client keeps this as long as a handle is
used on the connection it came from, also when that connection has failed or fails
during the call. It does not notice that another call has moved it to a new connection,
and it writes there whether the last exchange on that connection went through or not.
-/

namespace Skaidb

open Program Client

variable {σ : Type} {E : Env σ}

/-- The identifier of a prepared statement that a request names, if it executes one. -/
def Sent.handleId : Sent → Option UInt32
  | .client (.execute id _ _) => some id
  | .client (.executeBatch id _ _) => some id
  | _ => none

/-- The connection returned the identifier for a `Prepare` of the text. -/
def Returned (log : List Exchange) (conn : ℕ) (sql : String) (id : UInt32) : Prop :=
  ∃ e ∈ log, e.conn = conn ∧ e.sent = .client (.prepare sql) ∧
    ∃ frame ∈ e.answer, ∃ params, Response.decode frame = .ok (.prepared id params)

/-- A request written for a handle names an identifier that its connection has returned
for the handle's text. -/
def NamesReturned (log : List Exchange) (e : Exchange) : Prop :=
  ∀ sql id, e.purpose = .handle sql → e.sent.handleId = some id → Returned log e.conn sql id

/-- What a connection has returned stays in the log. -/
theorem Returned.cons {log : List Exchange} {conn : ℕ} {sql : String} {id : UInt32}
    (h : Returned log conn sql id) (e : Exchange) : Returned (e :: log) conn sql id := by
  obtain ⟨e', he', hreturned⟩ := h
  exact ⟨e', List.mem_cons_of_mem _ he', hreturned⟩

/-- Every request so far named its own statement, and the handles name theirs on the
connection they came from. -/
structure HandlesOk (handles : List Prepared) (s : Scene) : Prop where
  /-- The requests so far. -/
  log : Throughout NamesReturned s.log
  /-- The identifier of each handle was returned for its text on its home connection. -/
  home : ∀ stmt ∈ handles, Returned s.log stmt.home stmt.sql stmt.id

/-- A request that is not for a handle, or that names its own statement. -/
theorem HandlesOk.send {handles : List Prepared} {s : Scene} (h : HandlesOk handles s)
    {purpose : Purpose} {sent : Sent} (answer : List Frame)
    (hnames : ∀ sql id, purpose = .handle sql → sent.handleId = some id →
      Returned s.log s.stream.id sql id) : HandlesOk handles (s.send purpose sent answer) where
  log := Throughout.cons hnames h.log
  home stmt hstmt := (h.home stmt hstmt).cons _

/-- This purpose is another one than a request for a prepared handle. -/
def NotHandle (purpose : Purpose) : Prop := ∀ sql, purpose ≠ .handle sql

/-- A statement that the caller gave as text is not a request for a handle. -/
theorem notHandle_statement : NotHandle .statement := fun _ h => nomatch h

/-- Requests for other purposes, and failures, leave every handle with the connection it was
prepared on. -/
theorem handlesOk_stepwise (handles : List Prepared) :
    Stepwise E (HandlesOk handles) NotHandle where
  lose _ _ hs _ := ⟨hs.log, hs.home⟩
  send _ _ _ answer hs hp _ _ := hs.send answer fun sql _ h => absurd h (hp sql)
  leave _ _ _ hs _ := ⟨hs.log, hs.home⟩
  enter _ hs := ⟨hs.log, hs.home⟩

/-- A reconnect keeps the handles and ends at a boundary if it succeeds. -/
theorem HandlesOk.reconnect (hE : E.OneReply) (handles : List Prepared) :
    Triple (On (HandlesOk handles)) (reconnect E) fun r =>
      On (Settles (fun s => HandlesOk handles s ∧ Aligned s) (HandlesOk handles) r) :=
  (handlesOk_stepwise handles).reconnect_aligned hE (fun _ h => nomatch h) (fun _ h => nomatch h)
    fun _ _ _ hs => ⟨hs.log, hs.home⟩

/-- Calls other than those on handles keep the handles. -/
theorem handlesOk_survives (hE : E.OneReply) (handles : List Prepared) :
    Survives E (HandlesOk handles) (HandlesOk handles) NotHandle := by
  refine (handlesOk_stepwise handles).survives ?_
  refine (HandlesOk.reconnect hE handles).conseq (fun _ hw => hw) fun r w hw => ?_
  cases r with
  | ok u => exact hw.1
  | error e => exact hw

/-! ## Preparing -/

/-- The reply to a `Prepare` at a boundary is what its connection returned. -/
theorem ask_prepare_triple (hE : E.OneReply) (handles : List Prepared) (sql : String) :
    Triple (On fun s => HandlesOk handles s ∧ Aligned s)
      (roundtrip E .statement (.prepare sql)) fun r => On fun s => HandlesOk handles s ∧
        ∀ id params, r = .ok (.prepared id params) → Returned s.log s.stream.id sql id := by
  refine ask_triple fun s r s' hs hasked => ?_
  have hprepare : opensStream (Sent.client (.prepare sql)).payload = false :=
    opensStream_client (by simp)
  refine ⟨(handlesOk_stepwise handles).asked notHandle_statement hs.1 hasked, ?_⟩
  intro id params hr
  cases hasked with
  | refused => cases hr
  | lost => cases hr
  | unanswered => cases hr
  | answered hfits answer hanswer hinbox =>
    obtain ⟨rfl, -⟩ := answer_eq_of_aligned hE hprepare hanswer hs.2 hinbox
    exact ⟨_, List.mem_cons_self, rfl, rfl, _, List.mem_singleton_self _, params,
      decode_of_interpret hr⟩

/-- A statement prepared at a boundary is a handle of the live connection. -/
theorem prepare_triple (hE : E.OneReply) (handles : List Prepared) (sql : String) :
    Triple (On fun s => HandlesOk handles s ∧ Aligned s) (prepare E sql) fun r => On fun s =>
      HandlesOk handles s ∧ ∀ stmt, r = .ok stmt → stmt.home = s.stream.id ∧
        Returned s.log s.stream.id stmt.sql stmt.id := by
  refine Triple.bind (R := fun r => On fun s => HandlesOk handles s ∧ ∀ id params,
    r = .ok (.prepared id params) → Returned s.log s.stream.id sql id) ?_ (fun resp => ?_) ?_
  · refine orRetry_triple (ask_prepare_triple hE handles sql) (fun e => ?_) fun _ _ _ hw => hw
    refine Triple.bind ((HandlesOk.reconnect hE handles).conseq (fun _ hw => hw.1)
      fun _ _ hw => hw) (fun _ => ask_prepare_triple hE handles sql) fun e w hw => ?_
    exact ⟨hw, fun id params h => nomatch h⟩
  · refine Triple.reads fun home => Triple.settle fun w hw => ?_
    obtain ⟨⟨hok, hreturned⟩, rfl⟩ := hw
    refine ⟨hok, fun stmt hstmt => ?_⟩
    cases resp with
    | prepared id params =>
      cases hstmt
      exact ⟨rfl, hreturned id params rfl⟩
    | _ => cases hstmt
  · exact fun e w hw => ⟨hw.1, fun stmt h => nomatch h⟩

/-! ## Using a handle -/

/-- The handle names its statement on the live connection. -/
def Current (stmt : Prepared) (s : Scene) : Prop :=
  Returned s.log s.stream.id stmt.sql stmt.id

/-- A request for a current handle keeps the handles. -/
theorem HandlesOk.asked {handles : List Prepared} {stmt : Prepared}
    {request : UInt32 → ClientRequest} {s s' : Scene} {r : Except DriverError Response}
    (hrequest : ∀ id, (Sent.client (request id)).handleId = some id) (h : HandlesOk handles s)
    (hcurrent : Current stmt s)
    (hasked : Asked E (.handle stmt.sql) (.client (request stmt.id)) s r s') :
    HandlesOk handles s' := by
  have hsend : ∀ answer,
      HandlesOk handles (s.send (.handle stmt.sql) (.client (request stmt.id)) answer) := by
    intro answer
    refine h.send answer fun sql id hsql hid => ?_
    rw [hrequest] at hid
    cases hsql
    cases hid
    exact hcurrent
  cases hasked with
  | refused => exact h
  | lost => exact ⟨h.log, h.home⟩
  | unanswered hfits answer => exact ⟨(hsend answer).log, (hsend answer).home⟩
  | answered hfits answer => exact ⟨(hsend answer).log, (hsend answer).home⟩

/-- The handles are kept, and the one that a method returns names its statement on the
connection it came from. -/
def LeavesHandle {α : Type} (handles : List Prepared) (r : Except DriverError (α × Prepared))
    (s : Scene) : Prop :=
  HandlesOk handles s ∧ ∀ out, r = .ok out → Returned s.log out.2.home out.2.sql out.2.id

/-- A method returns a handle that names its statement. -/
theorem LeavesHandle.pure {α : Type} {handles : List Prepared} {stmt : Prepared} {s : Scene}
    (h : HandlesOk handles s) (hstmt : Returned s.log stmt.home stmt.sql stmt.id) (out : α) :
    LeavesHandle handles (.ok (out, stmt)) s :=
  ⟨h, fun _ heq => by cases heq; exact hstmt⟩

/-- A method passes on the handle that another one returned. -/
theorem LeavesHandle.mk {α β : Type} {handles : List Prepared} {stmt : Prepared} {a : α}
    {s : Scene} (h : LeavesHandle handles (.ok (a, stmt)) s) (b : β) :
    LeavesHandle handles (.ok (b, stmt)) s :=
  LeavesHandle.pure h.1 (h.2 _ rfl) b

/-- A method that fails hands out no handle, so that the handles are those from before. -/
theorem LeavesHandle.error {α β : Type} {handles : List Prepared} {e : DriverError} {s : Scene}
    (h : LeavesHandle (α := α) handles (.error e) s) : LeavesHandle (α := β) handles (.error e) s :=
  ⟨h.1, fun _ heq => nomatch heq⟩

/-- A request for a handle: the handle it leaves is the one it was given, or one prepared
again on the connection that is live now. -/
theorem withPrepared_triple (hE : E.OneReply) {handles : List Prepared} {stmt : Prepared}
    {request : UInt32 → ClientRequest} (hmem : stmt ∈ handles)
    (hrequest : ∀ id, (Sent.client (request id)).handleId = some id) :
    Triple (On fun s => HandlesOk handles s ∧ Current stmt s) (withPrepared E stmt request)
      fun r => On (LeavesHandle handles r) := by
  have hkept : ∀ out : Except DriverError Response, Triple (On (HandlesOk handles))
      (pure (out, stmt) : Driver σ _) fun r => On (LeavesHandle handles r) :=
    fun out => Triple.pure fun w hw => LeavesHandle.pure hw (hw.home stmt hmem) out
  refine Triple.attempt (ask_triple (Q := fun _ => HandlesOk handles) fun s r s' hs hasked =>
    hs.1.asked hrequest hs.2 hasked) fun r => ?_
  match r with
  | .error (.io e) =>
    have hfresh := Triple.bind (HandlesOk.reconnect hE handles)
      (fun _ => prepare_triple hE handles stmt.sql) fun e w hw => ⟨hw, fun stmt h => nomatch h⟩
    refine Triple.attempt hfresh fun fresh => ?_
    cases fresh with
    | error e => exact (hkept (.error e)).conseq (fun _ hw => hw.1) fun _ _ hw => hw
    | ok fresh =>
      refine Triple.attempt (R := fun _ => On (HandlesOk (fresh :: handles)))
        (ask_triple fun s r s' hs hasked => ?_) fun out => Triple.pure fun w hw => ?_
      · obtain ⟨hhome, hreturned⟩ := hs.2 fresh rfl
        have hok : HandlesOk (fresh :: handles) s :=
          ⟨hs.1.log, List.forall_mem_cons.mpr ⟨hhome ▸ hreturned, hs.1.home⟩⟩
        exact hok.asked hrequest hreturned hasked
      · have hok : HandlesOk handles w.toScene :=
          ⟨hw.log, fun stmt hstmt => hw.home stmt (List.mem_cons_of_mem _ hstmt)⟩
        exact LeavesHandle.pure hok (hw.home fresh List.mem_cons_self) out
  | .ok _ | .error (.proto _) | .error (.server _) | .error (.unexpected _ _) | .error (.auth _)
  | .error (.noEndpoint _) => exact hkept _

/-- Executing a prepared statement on a connection where its handle is current leaves a handle that
is current, whatever happens to the connection. -/
theorem executePreparedWith_triple (hE : E.OneReply) {handles : List Prepared} {stmt : Prepared}
    (hmem : stmt ∈ handles) (params : List Value) (consistency : Consistency) :
    Triple (On fun s => HandlesOk handles s ∧ Current stmt s)
      (executePreparedWith E stmt params consistency) fun r => On (LeavesHandle handles r) := by
  refine Triple.bind (withPrepared_triple hE hmem fun id => rfl) (fun r => ?_)
    fun e w hw => hw.error
  obtain ⟨e | resp, stmt'⟩ := r
  · exact Triple.pure fun w hw => hw
  · exact Returns.bind (observeStatement_returns _ _) fun _ => Triple.pure fun w hw => hw

/-- Executing a handle for several rows names its identifier only on the connection that returned
it. -/
theorem executeBatch_triple (hE : E.OneReply) {handles : List Prepared} {stmt : Prepared}
    (hmem : stmt ∈ handles) (rows : List (List Value)) :
    Triple (On fun s => HandlesOk handles s ∧ Current stmt s) (executeBatch E stmt rows)
      fun r => On (LeavesHandle handles r) := by
  refine Triple.reads fun consistency => ?_
  have hrequest : ∀ id, (Sent.client (.executeBatch id rows consistency)).handleId = some id :=
    fun _ => rfl
  refine Triple.bind ((withPrepared_triple hE hmem hrequest).conseq (fun _ hw => hw.1)
    fun _ _ hw => hw) (fun r => ?_) fun e w hw => hw.error
  obtain ⟨e | resp, stmt'⟩ := r
  · exact Triple.pure fun w hw => hw.mk _
  · cases resp with
    | mutation affected =>
      exact Returns.bind (observeStatement_returns _ _) fun _ => Triple.pure fun w hw => hw.mk _
    | _ => exact Triple.pure fun w hw => hw.mk _

/-! ## Runs -/

/-- A handle is used while the client is on the connection that it came from, whether that
has failed or not, and statements are prepared at a request boundary. -/
def UsesOwnHandles (s : Session σ) : Call → Prop
  | .prepare _ => s.world.stream.inbox = []
  | .executePrepared handle _ _ | .executeBatch handle _ =>
    ∀ stmt, s.handles[handle]? = some stmt → stmt.home = s.world.stream.id
  | _ => True

/-- A handle used on the connection that it came from is current. -/
theorem HandlesOk.current {handles : List Prepared} {stmt : Prepared} {s : Scene}
    (h : HandlesOk handles s) (hmem : stmt ∈ handles)
    (huse : stmt.home = s.stream.id) : Current stmt s := by
  unfold Current
  rw [← huse]
  exact h.home stmt hmem

/-- A method on a handle keeps the handles of the session. -/
theorem HandlesOk.afterHandle {α : Type} {s : Session σ} {handle : ℕ}
    {m : Prepared → Driver σ (α × Prepared)} (hs : HandlesOk s.handles s.world.toScene)
    (hm : ∀ stmt, s.handles[handle]? = some stmt →
      LeavesHandle s.handles (m stmt s.world).1 (m stmt s.world).2.toScene) :
    HandlesOk (s.afterHandle handle m).handles (s.afterHandle handle m).world.toScene := by
  unfold Session.afterHandle
  split
  · exact hs
  · rename_i stmt hstmt
    obtain ⟨hok, hleft⟩ := hm stmt hstmt
    split
    · rename_i out stmt' w hrun
      rw [hrun] at hok hleft
      refine ⟨hok.log, fun other hother => ?_⟩
      rcases List.mem_or_eq_of_mem_set hother with hother | rfl
      · exact hok.home other hother
      · exact hleft _ rfl
    · rename_i e w hrun
      rwa [hrun] at hok

/-- A call that uses its own handles keeps the handles of the session. -/
theorem HandlesOk.step (hE : E.OneReply) {s : Session σ} {c : Call} (huse : UsesOwnHandles s c)
    (hs : HandlesOk s.handles s.world.toScene) :
    HandlesOk (s.step E c).handles (s.step E c).world.toScene := by
  have h := handlesOk_survives hE s.handles
  have hstep := handlesOk_stepwise (E := E) s.handles
  have hbind : NotHandle .bind := fun _ h => nomatch h
  cases c with
  | useDatabase database =>
    have hkeeps : Keeps (On (HandlesOk s.handles)) (Client.useDatabase E database) :=
      useDatabase_keeps (fun _ _ => hstep.ask hbind _) (fun _ _ hs => ⟨hs.log, hs.home⟩) database
    simp only [Session.step, Session.after]
    exact hkeeps s.world hs
  | setScanBudgetRows rows =>
    have hkeeps : Keeps (On (HandlesOk s.handles)) (Client.setScanBudgetRows E rows) :=
      setScanBudgetRows_keeps (fun _ _ => hstep.ask hbind _) (fun _ _ hs => ⟨hs.log, hs.home⟩) rows
    simp only [Session.step, Session.after]
    exact hkeeps s.world hs
  | setConsistency consistency => exact ⟨hs.log, hs.home⟩
  | addEndpoints more => exact ⟨hs.log, hs.home⟩
  | reconnect => exact h.settled (h.reconnect s.world hs)
  | execute sql consistency =>
    exact h.settled (h.executeWith notHandle_statement sql consistency s.world hs)
  | pipeline stmts consistency =>
    exact h.settled (h.pipelineWith hstep notHandle_statement stmts consistency s.world hs)
  | prepare sql =>
    obtain ⟨hok, hnew⟩ := prepare_triple hE s.handles sql s.world ⟨hs, huse⟩
    simp only [Session.step]
    split
    · rename_i stmt w hrun
      rw [hrun] at hok hnew
      refine ⟨hok.log, fun other hother => ?_⟩
      rcases List.mem_append.mp hother with hother | hother
      · exact hok.home other hother
      · obtain rfl := List.mem_singleton.mp hother
        obtain ⟨hhome, hreturned⟩ := hnew other rfl
        exact hhome ▸ hreturned
    · rename_i e w hrun
      rwa [hrun] at hok
  | executePrepared handle params consistency =>
    refine hs.afterHandle fun stmt hstmt => ?_
    have hmem := List.mem_of_getElem? hstmt
    exact executePreparedWith_triple hE hmem params consistency s.world
      ⟨hs, hs.current hmem (huse stmt hstmt)⟩
  | executeBatch handle rows =>
    refine hs.afterHandle fun stmt hstmt => ?_
    have hmem := List.mem_of_getElem? hstmt
    exact executeBatch_triple hE hmem rows s.world ⟨hs, hs.current hmem (huse stmt hstmt)⟩
  | streamRows sql params consistency rows =>
    exact h.settled (h.streamRows hstep notHandle_statement sql params consistency rows s.world hs)

/-- **Prepared handles.** In every run that uses each handle on the connection it came
from and prepares at request boundaries, every request written for a handle names an
identifier that its own connection returned before for the text of the handle. -/
theorem handle_requests_named (hE : E.OneReply) {w : World σ} (hopened : E.Opened w)
    {s : Session σ} (hrun : Run (Session.step E) UsesOwnHandles ⟨w, []⟩ s) :
    ∀ later e earlier, s.world.log = later ++ e :: earlier → ∀ sql id,
      e.purpose = .handle sql → e.sent.handleId = some id → Returned earlier e.conn sql id := by
  have hstart : HandlesOk [] w.toScene := by
    refine hopened.scene (fun _ _ _ _ => ⟨Throughout.nil _, by simp⟩) ?_
    exact (handlesOk_stepwise []).sendHello fun _ h => nomatch h
  have hs := hrun.invariant (I := fun s : Session σ => HandlesOk s.handles s.world.toScene)
    (fun _ _ huse hs => hs.step hE huse) hstart
  exact hs.log

/-- A statement is prepared and executed on one connection. -/
theorem handle_requests_named_of_one : ∃ e, (((hostSession (answering politeReply) ()).step
      (answering politeReply) (.prepare "A")).step (answering politeReply)
        (.executePrepared 0 [] .quorum)).world.log.head? = some e ∧
    e.purpose = .handle "A" ∧ e.sent.handleId = some 0 ∧
    ∃ earlier, Returned earlier e.conn "A" 0 := by
  have hprepare : UsesOwnHandles (hostSession (answering politeReply) ()) (.prepare "A") := rfl
  have hexecute : UsesOwnHandles ((hostSession (answering politeReply) ()).step
      (answering politeReply) (.prepare "A")) (.executePrepared 0 [] .quorum) := by
    rintro stmt ⟨⟩
    rfl
  have hnamed := handle_requests_named politeReply_oneReply (opened_answering politeReply)
    ((Run.refl.tail hprepare).tail hexecute)
  exact ⟨_, rfl, rfl, rfl, _, hnamed [] _ _ rfl "A" 0 rfl rfl⟩

/-- The text that a request asks the server to prepare, if it does so. -/
def Sent.preparedSql : Sent → Option String
  | .client (.prepare sql) => some sql
  | _ => none

/-- A client is moved to a new connection while it executes a statement, and the new
connection gives the identifier of an old handle to another statement. -/
def movedSession : Session (List (Except IoError (List Frame))) :=
  [.prepare "A", .execute "X" .quorum, .prepare "B", .executePrepared 0 [] .quorum].foldl
    (Session.step scripted) (hostSession scripted
      [.ok [[2]], .ok [[4, 0, 0, 0, 0, 0, 0]], .error ⟨.connectionReset, "connection reset"⟩,
        .ok [[2]], .ok [[2]], .ok [[4, 0, 0, 0, 0, 0, 0]], .ok [[2]]])

/-- The old handle then runs the other statement: its request names an identifier that the
new connection returned for that statement and not for the text of the handle. -/
theorem handle_runs_other_statement : ∃ e earlier, movedSession.world.log = e :: earlier ∧
    e.purpose = .handle "A" ∧ e.sent.handleId = some 0 ∧ e.conn = 1 ∧
    Returned earlier 1 "B" 0 ∧ ¬ Returned earlier 1 "A" 0 := by
  refine ⟨_, _, rfl, rfl, rfl, rfl, ?_, ?_⟩
  · exact ⟨_, List.mem_cons_self, rfl, rfl, _, List.mem_cons_self, 0, rfl⟩
  · have hnone : movedSession.world.log.tail.all fun e =>
        e.conn ≠ 1 || e.sent.preparedSql ≠ some "A" := by decide
    rintro ⟨e, he, hconn, hsent, -⟩
    have hother := List.all_eq_true.mp hnone e he
    simp [hconn, hsent, Sent.preparedSql] at hother

end Skaidb
