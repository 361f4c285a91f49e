import Skaidb.Driver.Iteration
import Skaidb.Logic.Simulation
import Skaidb.Proto.RequestCodec

/-!
# A service behind the wire

What a client is for: its methods are calls of a service. A service answers requests
one at a time, and the same methods can be written directly against it, with no frames, no
identifiers and no re-dials. An environment hosts a service when it answers the requests that
the protocol's decoder reads from the payloads and loses nothing. What a service replies fits
the frames of the protocol.
-/

namespace Skaidb

open Program Client

/-! ## Services -/

/-- The response fits a frame, also behind the identifier of a batched request. -/
def Response.FitsFrame (response : Response) : Prop := response.encode.length + 5 ≤ maxFrameLen

/-- A response that fits a frame is decoded from it. -/
theorem Response.FitsFrame.fits {response : Response} (h : response.FitsFrame) : response.Fits := by
  refine Response.fits_of_length ?_
  unfold Response.FitsFrame maxFrameLen at h
  omega

/-- What a service replies to a streamed query. -/
inductive StreamReply where
  /-- A single response, which is not the beginning of rows. -/
  | single (response : Response)
  /-- A result in chunks, which may fail at the end. -/
  | rows (columns : List String) (chunks : List (List (List Value))) (failure : Option String)

namespace StreamReply

/-- The last response of a result: its end, or the error that broke it off. -/
def last (failure : Option String) : Response := (failure.map Response.error).getD .rowsEnd

/-- The responses that a reply to a streamed query is sent as, one frame for each. -/
def responses : StreamReply → List Response
  | single response => [response]
  | rows columns chunks failure =>
    .rowsHeader columns :: (chunks.map .rowsChunk ++ [last failure])

/-- The reply is not taken for the beginning of another one and its responses fit frames. -/
def WellFormed (reply : StreamReply) : Prop :=
  (∀ response ∈ reply.responses, response.FitsFrame) ∧
    ∀ columns, reply ≠ single (.rowsHeader columns)

/-- What a caller who asks for `n` rows of the reply is given. -/
def firstRows (n : ℕ) : StreamReply → Except DriverError (List (Except DriverError (List Value)))
  | single (.error msg) => .error (.server msg)
  | single (.mutation _) => .ok []
  | single .ddl => .ok []
  | single (.resultSets []) => .ok []
  | single (.resultSets (set :: _)) => .ok ((set.2.map .ok).take n)
  | single other => .error (.unexpected "unexpected response to QueryStream: " other)
  | rows _ chunks failure => .ok ((resultItems chunks failure).take n)

end StreamReply

/-- A service: it answers the requests of each connection. -/
structure Service (ς : Type) where
  /-- The response to a request that is not streamed. -/
  serve : ℕ → ClientRequest → ς → Response × ς
  /-- The reply to a streamed query. -/
  stream : ℕ → String → List Value → Consistency → ς → StreamReply × ς
  /-- Every response of the service fits a frame with its tag. -/
  serve_fits : ∀ conn req s, (serve conn req s).1.FitsFrame
  /-- Replies to streamed queries fit frames. -/
  stream_fits : ∀ conn sql params consistency s, (stream conn sql params consistency s).1.WellFormed

variable {σ ς : Type}

namespace Service

variable (S : Service ς)

/-- The frames the service answers a request with; a tagged one is answered with its
identifier. -/
def frames (conn : ℕ) : Option UInt32 → ClientRequest → ς → List Frame × ς
  | some id, req, s =>
    let (response, s) := S.serve conn req s
    ([response.encodeInto (tagResponse [] id)], s)
  | none, .queryStream sql params consistency, s =>
    let (reply, s) := S.stream conn sql params consistency s
    (reply.responses.map Response.encode, s)
  | none, req, s =>
    let (response, s) := S.serve conn req s
    ([response.encode], s)

/-- No frame of an answer is above the limit of the protocol. -/
theorem frames_fit (conn : ℕ) (tag : Option UInt32) (req : ClientRequest) (s : ς) :
    ∀ frame ∈ (S.frames conn tag req s).1, frame.length ≤ maxFrameLen := by
  have hplain {response : Response} (h : response.FitsFrame) :
      response.encode.length ≤ maxFrameLen := (Nat.le_add_right _ 5).trans h
  have hserve := S.serve_fits conn req s
  cases tag with
  | some id =>
    refine List.forall_mem_singleton.mpr ?_
    change ((S.serve conn req s).1.encodeInto (tagResponse [] id)).length ≤ maxFrameLen
    rw [encodeInto_tagResponse, List.length_cons, List.length_append, Codec.length_leBytes]
    unfold Response.FitsFrame at hserve
    omega
  | none =>
    cases req with
    | queryStream sql params consistency =>
      intro frame hframe
      obtain ⟨response, hresponse, rfl⟩ := List.mem_map.mp hframe
      exact hplain ((S.stream_fits conn sql params consistency s).1 response hresponse)
    | _ => exact List.forall_mem_singleton.mpr (hplain hserve)

end Service

/-- The environment hosts the service: every member can be dialled, a payload is answered as
the request that is decoded from it, and nothing else touches the service. -/
structure Hosts (E : Env σ) (S : Service ς) (view : σ → ς) : Prop where
  /-- Every dial succeeds and changes nothing at the service. -/
  dial : ∀ ep env, (E.dial ep env).1 = .ok () ∧ view (E.dial ep env).2 = view env
  /-- Measuring a latency changes nothing at the service. -/
  probe : ∀ ep env, view (E.probe ep env).2 = view env
  /-- The order of a re-dial has an endpoint and changes nothing at the service. -/
  dialOrder : ∀ lost env, (E.dialOrder lost env).1 ≠ [] ∧ view (E.dialOrder lost env).2 = view env
  /-- A request that is written is answered by the frames of the service. -/
  deliver : ∀ conn payload tag req env, decodeClientRequest payload = .ok (tag, req) →
    (E.deliver conn payload env).1 = .ok (S.frames conn tag req (view env)).1 ∧
      view (E.deliver conn payload env).2 = (S.frames conn tag req (view env)).2
  /-- A frame that is on its way arrives. -/
  receive : ∀ conn env, (E.receive conn env).1 = .ok () ∧
    view (E.receive conn env).2 = view env
  /-- Telling the pool changes nothing at the service. -/
  report : ∀ r env, view (E.report r env) = view env

/-! ## The methods, directly -/

/-- What a caller of the service keeps between its calls, beside what the service keeps itself. -/
structure Desk (ς : Type) where
  /-- The state of the service behind the connection. -/
  service : ς
  /-- The number of the connection to it. -/
  conn : ℕ
  /-- The number of connections opened. -/
  opened : ℕ
  /-- The consistency of statements that do not name one. -/
  defaultConsistency : Consistency
  /-- The database to enter after a re-dial. -/
  database : Option String
  /-- The session scan budget; zero for none. -/
  scanBudgetRows : UInt64

/-- A method of the driver as it is at the desk, where no network lies between it and the
service. -/
abbrev Local (ς α : Type) := Prog (Desk ς) DriverError α

/-- What the caller of a client sees of the whole world: the client's settings and the service
behind it. -/
def World.desk (view : σ → ς) (w : World σ) : Desk ς :=
  ⟨view w.env, w.stream.id, w.opened, w.client.defaultConsistency, w.client.database,
    w.client.scanBudgetRows⟩

namespace Service

variable (S : Service ς)

/-- Ask the service, which answers the request and goes on to another state. -/
def respond (req : ClientRequest) : Local ς Response := fun d =>
  let (response, service) := S.serve d.conn req d.service
  (.ok response, { d with service := service })

/-- An error response is an error of the caller. -/
def judge : Response → Except DriverError Response
  | .error msg => .error (.server msg)
  | other => .ok other

/-- Send one request to the service; a response that is an error is the failure of the call. -/
def call (req : ClientRequest) : Local ς Response := do
  let response ← S.respond req
  settle (judge response)

/-- Send one statement after another to the service and collect the responses. -/
def respondAll (consistency : Consistency) : List String → Local ς (List Response)
  | [] => pure []
  | sql :: stmts => do
    let response ← S.respond (.query sql consistency)
    let responses ← respondAll consistency stmts
    pure (response :: responses)

/-- Enter the session database, if there is one. -/
def enterDatabase : Local ς Unit := do
  let d ← reads id
  match d.database with
  | none => pure ()
  | some db =>
    let _ ← S.call (.query (useSql db) d.defaultConsistency)
    pure ()

/-- Set the scan budget, if there is one. -/
def enterScanBudget : Local ς Unit := do
  let d ← reads id
  if d.scanBudgetRows = 0 then pure ()
  else
    let _ ← S.call (.query (budgetSql d.scanBudgetRows) d.defaultConsistency)
    pure ()

/-- Remember a session database at the desk, as `setDatabase` does on the client. -/
def bindDatabase (database : Option String) : Local ς Unit :=
  change fun d => { d with database := database }

/-- Bind a session database, unless the service refuses. -/
def useDatabase (database : String) : Local ς Unit := do
  let previous ← reads Desk.database
  bindDatabase (some database)
  match ← attempt S.enterDatabase with
  | .error e => do
    bindDatabase previous
    fails e
  | .ok () => pure ()

/-- Set a scan budget at the service and remember it for later re-dials. -/
def setScanBudgetRows (rows : UInt64) : Local ς Unit := do
  let d ← reads id
  let sql := if rows = 0 then "SET SCAN BUDGET DEFAULT" else budgetSql rows
  let _ ← S.call (.query sql d.defaultConsistency)
  change fun d => { d with scanBudgetRows := rows }

/-- Go on with a new connection: say hello and enter the session again. -/
def reconnect : Local ς Unit := do
  change fun d => { d with conn := d.opened, opened := d.opened + 1 }
  let _ ← S.respond helloRequest
  S.enterDatabase
  S.enterScanBudget

/-- Prepare a statement with the service, and return the handle that it is known by. -/
def prepare (sql : String) : Local ς Prepared := do
  let response ← S.call (.prepare sql)
  let home ← reads Desk.conn
  settle (preparedOf home sql response)

/-- The number of rows that a batch has affected, or the error that the response to it stands
for. -/
def affected : Response → Except DriverError UInt64
  | .mutation affected => .ok affected
  | .error msg => .error (.server msg)
  | other => .error (.unexpected "unexpected response to ExecuteBatch: " other)

/-- A request that names a prepared statement; the handle stays as it is. -/
def onPrepared (stmt : Prepared) (request : UInt32 → ClientRequest) :
    Local ς (Except DriverError Response × Prepared) := do
  let out ← attempt (S.call (request stmt.id))
  pure (out, stmt)

/-- Execute a prepared statement with the service, and return its handle as the driver does. -/
def executePrepared (stmt : Prepared) (params : List Value) (consistency : Consistency) :
    Local ς (Except DriverError Response × Prepared) :=
  S.onPrepared stmt fun id => .execute id params consistency

/-- Execute a prepared statement for each row in turn and add up what the rows affected. -/
def executeBatch (stmt : Prepared) (rows : List (List Value)) :
    Local ς (Except DriverError UInt64 × Prepared) := do
  let consistency ← reads Desk.defaultConsistency
  let (out, stmt) ← S.onPrepared stmt fun id => .executeBatch id rows consistency
  pure (out.bind affected, stmt)

/-- Run a streamed query for its first rows. -/
def streamRows (sql : String) (params : List Value) (consistency : Consistency) (rows : ℕ) :
    Local ς (List (Except DriverError (List Value))) := fun d =>
  let (reply, service) := S.stream d.conn sql params consistency d.service
  (reply.firstRows rows, { d with service := service })

end Service

/-! ## One interface -/

/-- The methods a client offers, over some state. -/
structure Methods (ω : Type) where
  /-- Bind a session database. -/
  useDatabase : String → Prog ω DriverError Unit
  /-- Set a scan budget. -/
  setScanBudgetRows : UInt64 → Prog ω DriverError Unit
  /-- Choose the consistency of statements that do not name one. -/
  setConsistency : Consistency → Prog ω DriverError Unit
  /-- Name more endpoints to dial when the connection is lost. -/
  addEndpoints : List String → Prog ω DriverError Unit
  /-- Open a new connection. -/
  reconnect : Prog ω DriverError Unit
  /-- Execute a statement at a consistency level. -/
  execute : String → Consistency → Prog ω DriverError Response
  /-- Execute a batch of statements at a consistency level. -/
  pipeline : List String → Consistency → Prog ω DriverError (List Response)
  /-- Prepare a statement, for a handle to execute it by. -/
  prepare : String → Prog ω DriverError Prepared
  /-- Execute a prepared statement. -/
  executePrepared : Prepared → List Value → Consistency →
    Prog ω DriverError (Except DriverError Response × Prepared)
  /-- Execute a prepared statement for each row. -/
  executeBatch : Prepared → List (List Value) →
    Prog ω DriverError (Except DriverError UInt64 × Prepared)
  /-- Run a streamed query for its first rows. -/
  streamRows : String → List Value → Consistency → ℕ →
    Prog ω DriverError (List (Except DriverError (List Value)))

/-- What a caller gets back from a call. -/
inductive Answer where
  /-- Nothing but whether it worked. -/
  | done (r : Except DriverError Unit)
  /-- What a call that asks for one response returns. -/
  | response (r : Except DriverError Response)
  /-- The responses of a batch. -/
  | responses (r : Except DriverError (List Response))
  /-- What a call that prepares a statement returns. -/
  | prepared (r : Except DriverError Prepared)
  /-- A number of rows. -/
  | affected (r : Except DriverError UInt64)
  /-- What a call that streams rows returns. -/
  | rows (r : Except DriverError (List (Except DriverError (List Value))))
  /-- There is no such handle. -/
  | noHandle

namespace Methods

variable {ω : Type}

/-- A method on a handle: the handle may have been prepared again. -/
def onHandle {α : Type} (answer : Except DriverError α → Answer)
    (m : Prepared → Prog ω DriverError (Except DriverError α × Prepared)) (handle : ℕ)
    (s : ω × List Prepared) : Answer × ω × List Prepared :=
  match s.2[handle]? with
  | none => (.noHandle, s)
  | some stmt =>
    match m stmt s.1 with
    | (.ok (r, stmt), w) => (answer r, w, s.2.set handle stmt)
    | (.error e, w) => (answer (.error e), w, s.2)

/-- A method that has nothing to do with the handles. -/
def plain {α : Type} (answer : Except DriverError α → Answer) (m : Prog ω DriverError α)
    (s : ω × List Prepared) : Answer × ω × List Prepared :=
  (answer (m s.1).1, (m s.1).2, s.2)

/-- One call: its answer, the state and the handles. -/
def step (M : Methods ω) (s : ω × List Prepared) : Call → Answer × ω × List Prepared
  | .useDatabase database => plain .done (M.useDatabase database) s
  | .setScanBudgetRows rows => plain .done (M.setScanBudgetRows rows) s
  | .setConsistency consistency => plain .done (M.setConsistency consistency) s
  | .addEndpoints more => plain .done (M.addEndpoints more) s
  | .reconnect => plain .done M.reconnect s
  | .execute sql consistency => plain .response (M.execute sql consistency) s
  | .pipeline stmts consistency => plain .responses (M.pipeline stmts consistency) s
  | .prepare sql =>
    match M.prepare sql s.1 with
    | (.ok stmt, w) => (.prepared (.ok stmt), w, s.2 ++ [stmt])
    | (.error e, w) => (.prepared (.error e), w, s.2)
  | .executePrepared handle params consistency =>
    onHandle .response (fun stmt => M.executePrepared stmt params consistency) handle s
  | .executeBatch handle rows => onHandle .affected (fun stmt => M.executeBatch stmt rows) handle s
  | .streamRows sql params consistency rows =>
    plain .rows (M.streamRows sql params consistency rows) s

end Methods

/-- The methods of the driver over a network, as the methods of a session. -/
def driverMethods (E : Env σ) : Methods (World σ) where
  useDatabase := Client.useDatabase E
  setScanBudgetRows := Client.setScanBudgetRows E
  setConsistency consistency := change fun w =>
    { w with client := { w.client with defaultConsistency := consistency } }
  addEndpoints more := change fun w =>
    let endpoints := Client.addEndpoints w.client.endpoints more
    { w with client := { w.client with endpoints := endpoints } }
  reconnect := Client.reconnect E
  execute := executeWith E
  pipeline := pipelineWith E
  prepare := Client.prepare E
  executePrepared := executePreparedWith E
  executeBatch := Client.executeBatch E
  streamRows := Client.streamRows E

/-- The methods at the desk of a service, as the methods of a session. -/
def Service.methods (S : Service ς) : Methods (Desk ς) where
  useDatabase := S.useDatabase
  setScanBudgetRows := S.setScanBudgetRows
  setConsistency consistency := change fun d => { d with defaultConsistency := consistency }
  addEndpoints _ := pure ()
  reconnect := S.reconnect
  execute sql consistency := S.call (.query sql consistency)
  pipeline stmts consistency := S.respondAll consistency stmts
  prepare := S.prepare
  executePrepared := S.executePrepared
  executeBatch := S.executeBatch
  streamRows := S.streamRows

/-- The calls of a session do what the methods of the driver do. -/
theorem step_driverMethods (E : Env σ) (s : Session σ) (c : Call) :
    ((driverMethods E).step (s.world, s.handles) c).2 =
      ((s.step E c).world, (s.step E c).handles) := by
  cases c with
  | prepare sql =>
    simp only [Methods.step, Session.step, driverMethods]
    rcases Client.prepare E sql s.world with ⟨_ | stmt, w⟩ <;> rfl
  | executePrepared handle params consistency =>
    simp only [Methods.step, Session.step, driverMethods, Methods.onHandle, Session.afterHandle]
    cases s.handles[handle]? with
    | none => rfl
    | some stmt =>
      dsimp only
      rcases executePreparedWith E stmt params consistency s.world with ⟨_ | ⟨r, stmt'⟩, w⟩ <;> rfl
  | executeBatch handle rows =>
    simp only [Methods.step, Session.step, driverMethods, Methods.onHandle, Session.afterHandle]
    cases s.handles[handle]? with
    | none => rfl
    | some stmt =>
      dsimp only
      rcases Client.executeBatch E stmt rows s.world with ⟨_ | ⟨r, stmt'⟩, w⟩ <;> rfl
  | _ => rfl

end Skaidb
