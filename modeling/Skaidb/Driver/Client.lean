import Mathlib.Data.List.Sort
import Skaidb.Driver.World

/-!
# The client

The methods of the client as they run on its live stream: round trips, the session
database and scan budget, failover, pipelined batches, prepared statements and
row streams. A method that fails leaves the world as it was at the failure, and a
transport failure makes most methods dial again and retry once.
-/

namespace Skaidb

open Program

variable {σ : Type} (E : Env σ)

namespace Client

/-! ## Round trips -/

/-- Write a frame and read the first frame of the answer. -/
def exchangeFrames (purpose : Purpose) (sent : Sent) : Driver σ (Except IoError Frame) := do
  match ← World.writeFrame E purpose sent with
  | .error e => pure (.error e)
  | .ok () => World.readFrame E

/-- What a reply means for the caller: a server error is an error. -/
def interpret (payload : Frame) : Except DriverError Response :=
  match Response.decode payload with
  | .error e => .error (.proto e)
  | .ok (.error msg) => .error (.server msg)
  | .ok other => .ok other

/-- One request and its reply over the current stream, as `try_execute` and `roundtrip`
do it. -/
def ask (purpose : Purpose) (sent : Sent) : Driver σ Response := do
  let frame ← exchangeFrames E purpose sent
  let payload ← observed E frame
  settle (interpret payload)

/-- `try_execute`: one attempt at a statement over the current stream, without a re-dial. -/
def tryExecute (sql : String) (consistency : Consistency) : Driver σ Response :=
  ask E .statement (.request ⟨sql, consistency⟩)

/-- One request/response round trip over the current stream. -/
def roundtrip (purpose : Purpose) (req : ClientRequest) : Driver σ Response :=
  ask E purpose (.client req)

/-! ## The session -/

/-- The name of a database with its double quotes doubled, as it stands between quotes in USE. -/
def quoteIdent (name : String) : String :=
  String.ofList (name.toList.flatMap fun c => if c = '"' then ['"', '"'] else [c])

/-- The USE statement that `apply_database` sends to enter a database. -/
def useSql (db : String) : String := "USE \"" ++ quoteIdent db ++ "\""

/-- The SET statement that `apply_scan_budget` sends for a number of rows. -/
def budgetSql (rows : UInt64) : String := "SET SCAN BUDGET ROWS " ++ toString rows.toNat

/-- Issue `USE` for the bound database on the current connection. -/
def applyDatabase (purpose : Purpose) : Driver σ Unit := do
  let client ← reads fun w => w.client
  match client.database with
  | none => pure ()
  | some db =>
    let _ ← roundtrip E purpose (.query (useSql db) client.defaultConsistency)
    pure ()

/-- Replay the remembered scan budget on the current connection. -/
def applyScanBudget (purpose : Purpose) : Driver σ Unit := do
  let client ← reads fun w => w.client
  if client.scanBudgetRows = 0 then pure ()
  else
    let _ ← roundtrip E purpose (.query (budgetSql client.scanBudgetRows) client.defaultConsistency)
    pure ()

/-- Remember a session database on the client, which every re-dial enters again. -/
def setDatabase (database : Option String) : Driver σ Unit :=
  change fun w => { w with client := { w.client with database := database } }

/-- Bind the session database on a live client; a refusal leaves the previous binding. -/
def useDatabase (database : String) : Driver σ Unit := do
  let previous ← reads fun w => w.client.database
  setDatabase (some database)
  match ← attempt (applyDatabase E .bind) with
  | .error e => do
    setDatabase previous
    fails e
  | .ok () => pure ()

/-- Set and remember the session's scan-row budget; zero clears it. -/
def setScanBudgetRows (rows : UInt64) : Driver σ Unit := do
  let client ← reads fun w => w.client
  let sql := if rows = 0 then "SET SCAN BUDGET DEFAULT" else budgetSql rows
  let _ ← roundtrip E .bind (.query sql client.defaultConsistency)
  change fun w => { w with client := { w.client with scanBudgetRows := rows } }

/-- How the driver identifies itself to a server: by its name and version. -/
def helloRequest : ClientRequest := .hello "rust" "0.335.5"

/-- Best-effort self-identification; the reply is not looked at. -/
def sendHello : Driver σ Unit := do
  match ← World.writeFrame E .hello (.client helloRequest) with
  | .ok () => do
    let _ ← World.readFrame E
    pure ()
  | .error _ => pure ()

/-- The replay of the session on the live connection has run to its end. -/
def markEntered : Driver σ Unit := change fun w => ⟨w.toScene.enter, w.env⟩

/-- Re-identify, enter the session database again and tighten the scan budget again
on a fresh connection. A refusal or a failure halfway leaves that connection the live
one, with the session not entered on it. -/
def replaySession : Driver σ Unit := do
  sendHello E
  applyDatabase E .rebind
  applyScanBudget E .rebind
  markEntered

/-! ## Failover -/

/-- Nearer endpoints first, those that fail the probe last. -/
def latencyLe (a b : Option ℕ × String) : Prop :=
  match a.1, b.1 with
  | some x, some y => x ≤ y
  | some _, none => True
  | none, some _ => False
  | none, none => True

instance : DecidableRel latencyLe := fun a b => by
  unfold latencyLe
  split <;> infer_instance

/-- Probe endpoints one after another, and note how long each took to accept. -/
def probeAll : List String → σ → List (Option ℕ × String) × σ
  | [], env => ([], env)
  | ep :: rest, env =>
    let (latency, env) := E.probe ep env
    let (scored, env) := probeAll rest env
    ((latency, ep) :: scored, env)

/-- Order endpoints by ascending latency; a single endpoint is not probed. -/
def orderByLatency (endpoints : List String) (env : σ) : List String × σ :=
  if endpoints.length ≤ 1 then (endpoints, env)
  else
    let (scored, env) := probeAll E endpoints env
    ((scored.insertionSort latencyLe).map Prod.snd, env)

/-- The order in which a client dials after a failure: the pool's, or the nearest
first with the endpoint that failed last. -/
def redialOrder : Driver σ (List String) := fun w =>
  if w.client.pooled then
    let (ordered, env) := E.dialOrder w.client.connected w.env
    (.ok ordered, { w with env := env })
  else
    let (ordered, env) := orderByLatency E w.client.endpoints w.env
    (.ok (ordered.insertionSort fun a b => (a == w.client.connected) ≤ (b == w.client.connected)),
      { w with env := env })

/-- `dial`: connect to an endpoint and authenticate; the environment answers with a new connection
or an error. -/
def dial (endpoint : String) : Driver σ (Except String Unit) := fun w =>
  let (outcome, env) := E.dial endpoint w.env
  (.ok outcome, { w with env := env })

/-- Make the connection just dialled the live one, with the endpoints in the order they were
tried. -/
def install (endpoint : String) (ordered : List String) : Driver σ Unit :=
  change fun w => ⟨w.toScene.install endpoint ordered, w.env⟩

/-- Dial endpoints in turn; the first that answers becomes the live connection, on
which the session is entered again. -/
def redial (ordered : List String) : List String → String → Driver σ Unit
  | [], last => fails (.noEndpoint last)
  | ep :: rest, _ => do
    match ← dial E ep with
    | .ok () => do
      install ep ordered
      report E (.moved ep)
      replaySession E
    | .error text => do
      report E (.dialFailed ep)
      redial ordered rest (ep ++ ": " ++ text)

/-- `reconnect`: dial the endpoints in turn, install the first that accepts and enter the session on
it. -/
def reconnect : Driver σ Unit := do
  let ordered ← redialOrder E
  redial E ordered ordered ""

/-- `add_endpoints`: append those endpoints that the client does not know yet. -/
def addEndpoints (endpoints more : List String) : List String :=
  more.foldl (fun seen e => if seen.contains e then seen else seen ++ [e]) endpoints

/-- Remove duplicate endpoints while preserving the caller's order. -/
def dedup (endpoints : List String) : List String := addEndpoints [] endpoints

/-- Dial endpoints in turn until one connects and authenticates; the client starts on
the first connection and says hello. -/
def openFirst (pooled : Bool) (ordered : List String) :
    List String → String → σ → Except DriverError (World σ)
  | [], last, _ => .error (.noEndpoint last)
  | ep :: rest, _, env =>
    match E.dial ep env with
    | (.ok (), env) =>
      let client : Client := ⟨ordered, ep, ⟨0, true, []⟩, .quorum, none, 0, pooled⟩
      .ok (sendHello E ⟨⟨client, 1, [], true⟩, env⟩).2
    | (.error text, env) =>
      openFirst pooled ordered rest (ep ++ ": " ++ text)
        (if pooled then E.report (.dialFailed ep) env else env)

/-- Connect across several endpoints, preferring the nearest reachable one. -/
def connectMany (endpoints : List String) (env : σ) : Except DriverError (World σ) :=
  let (ordered, env) := orderByLatency E (dedup endpoints) env
  if ordered.isEmpty then .error (.noEndpoint "no endpoints given")
  else openFirst E false ordered ordered "" env

/-- A statement's two attempts: the second one is made, after a re-dial, when the first ends in an
I/O error. -/
def orRetry {α : Type} (first again : Driver σ α) : Driver σ α := do
  match ← attempt first with
  | .error (.io _) => again
  | other => settle other

/-- Execute a statement, failing over and retrying once if the connection dropped. -/
def executeWith (sql : String) (consistency : Consistency) : Driver σ Response := do
  let out ← orRetry (tryExecute E sql consistency) do
    reconnect E
    tryExecute E sql consistency
  observeStatement E sql
  pure out

/-! ## Pipelined batches -/

/-- Write every request of a batch, numbering from `i`. -/
def writeBatch (consistency : Consistency) : List String → ℕ → Driver σ Unit
  | [], _ => pure ()
  | sql :: stmts, i => do
    let sent ← World.writeFrame E .statement
      (.tagged (UInt32.ofNat i) (.query sql consistency))
    transport E sent
    writeBatch consistency stmts (i + 1)

/-- File one reply under its identifier, refusing untagged and unexpected ones. -/
def fileReply (out : List (Option Response)) (payload : Frame) :
    Except DriverError (List (Option Response)) :=
  match decodeTaggedResponse payload with
  | .error e => .error (.proto e)
  | .ok (none, _) =>
    .error (.server "server does not support pipelined requests (upgrade the server)")
  | .ok (some id, resp) =>
    match out[id.toNat]? with
    | some none => .ok (out.set id.toNat (some resp))
    | _ => .error (.server ("unexpected response id " ++ toString id.toNat ++ " in pipeline"))

/-- Read as many replies as there are requests. -/
def readBatch (first : Bool) : ℕ → List (Option Response) → Driver σ (List (Option Response))
  | 0, out => pure out
  | n + 1, out => do
    let frame ← World.readFrame E
    let payload ← (if first then observed E frame else transport E frame)
    let out ← settle (fileReply out payload)
    readBatch false n out

/-- The replies of a batch in which every slot is filled. -/
def expectAll (out : List (Option Response)) : Except DriverError (List Response) :=
  match out.mapM id with
  | some responses => .ok responses
  | none => .error (.server "all ids seen")

/-- `try_pipeline`: write every statement with its tag, then read as many tagged replies. -/
def tryPipeline (stmts : List String) (consistency : Consistency) : Driver σ (List Response) := do
  writeBatch E consistency stmts 0
  let out ← readBatch E true stmts.length (List.replicate stmts.length none)
  settle (expectAll out)

/-- Tell the pool about the statements of a batch that succeeded. -/
def observeBatch : List (String × Response) → Driver σ Unit
  | [] => pure ()
  | (_, .error _) :: rest => observeBatch rest
  | (sql, _) :: rest => do
    observeStatement E sql
    observeBatch rest

/-- Pipelined batch execution, retried once on a fresh connection. -/
def pipelineWith (stmts : List String) (consistency : Consistency) : Driver σ (List Response) :=
  if stmts.isEmpty then pure []
  else do
    let out ← orRetry (tryPipeline E stmts consistency) do
      reconnect E
      tryPipeline E stmts consistency
    observeBatch E (stmts.zip out)
    pure out

/-! ## Prepared statements -/

/-- A statement prepared on the server; it holds its text to be prepared again. The
connection that gave the identifier is kept for the proofs only. -/
structure Prepared where
  /-- The identifier the server gave it. -/
  id : UInt32
  /-- How many parameters it expects. -/
  params : UInt16
  /-- The text that was prepared, to prepare it again. -/
  sql : String
  /-- The connection the identifier was read from. -/
  home : ℕ

/-- The handle in the reply to a `Prepare`. -/
def preparedOf (home : ℕ) (sql : String) : Response → Except DriverError Prepared
  | .prepared id params => .ok ⟨id, params, sql, home⟩
  | other => .error (.unexpected "unexpected response to Prepare: " other)

/-- Parse a statement once on the server and cache it on this connection. -/
def prepare (sql : String) : Driver σ Prepared := do
  let resp ← orRetry (roundtrip E .statement (.prepare sql)) do
    reconnect E
    roundtrip E .statement (.prepare sql)
  let home ← reads fun w => w.stream.id
  settle (preparedOf home sql resp)

/-- Run a request that names a prepared statement; after a transport failure the
statement is prepared again on the new connection, which updates the handle even
if the retry fails. -/
def withPrepared (stmt : Prepared) (request : UInt32 → ClientRequest) :
    Driver σ (Except DriverError Response × Prepared) := do
  match ← attempt (roundtrip E (.handle stmt.sql) (request stmt.id)) with
  | .error (.io _) => do
    let fresh ← attempt do
      reconnect E
      prepare E stmt.sql
    match fresh with
    | .error e => pure (.error e, stmt)
    | .ok fresh => do
      let out ← attempt (roundtrip E (.handle fresh.sql) (request fresh.id))
      pure (out, fresh)
  | other => pure (other, stmt)

/-- Execute a prepared statement; after a transport failure `withPrepared` prepares it again on a
new connection. The handle is returned too, with the identifier it has then. -/
def executePreparedWith (stmt : Prepared) (params : List Value) (consistency : Consistency) :
    Driver σ (Except DriverError Response × Prepared) := do
  let (out, stmt) ← withPrepared E stmt fun id => .execute id params consistency
  match out with
  | .ok _ => observeStatement E stmt.sql
  | .error _ => pure ()
  pure (out, stmt)

/-- Execute a prepared statement once per parameter row in a single round trip. -/
def executeBatch (stmt : Prepared) (rows : List (List Value)) :
    Driver σ (Except DriverError UInt64 × Prepared) := do
  let consistency ← reads fun w => w.client.defaultConsistency
  let (out, stmt) ← withPrepared E stmt fun id => .executeBatch id rows consistency
  match out with
  | .error e => pure (.error e, stmt)
  | .ok (.mutation affected) => do
    observeStatement E stmt.sql
    pure (.ok affected, stmt)
  | .ok (.error msg) => pure (.error (.server msg), stmt)
  | .ok other => pure (.error (.unexpected "unexpected response to ExecuteBatch: " other), stmt)

/-! ## Row streams -/

/-- A streamed result set; it holds at most one chunk. -/
structure RowStream where
  /-- Column names of the current result set. -/
  columns : List String
  /-- Rows affected, when the statement was a mutation. -/
  affected : UInt64
  /-- The rows of the current chunk not handed out yet. -/
  chunk : List (List Value)
  /-- The result sets after the current one. -/
  more : List (List String × List (List Value))
  /-- The server sends no more frames for this stream. -/
  done : Bool

/-- The stream that a first reply begins, empty at once unless that reply opens one. -/
def RowStream.start : Response → Except DriverError RowStream
  | .error msg => .error (.server msg)
  | .rowsHeader columns => .ok ⟨columns, 0, [], [], false⟩
  | .mutation affected => .ok ⟨[], affected, [], [], true⟩
  | .ddl => .ok ⟨[], 0, [], [], true⟩
  | .resultSets [] => .ok ⟨[], 0, [], [], true⟩
  | .resultSets ((columns, rows) :: more) => .ok ⟨columns, 0, rows, more, true⟩
  | other => .error (.unexpected "unexpected response to QueryStream: " other)

/-- A reply after which the statement counts as executed. -/
def startsOrEnds : Response → Bool
  | .rowsHeader _ | .mutation _ | .ddl | .resultSets _ => true
  | _ => false

/-- Send the request of a stream; failover applies to this part only. -/
def sendStream (req : Sent) : Driver σ Unit := do
  let sent ← World.writeFrame E .statement req
  match ← attempt (transport E sent) with
  | .error _ => do
    reconnect E
    let sent ← World.writeFrame E .statement req
    transport E sent
  | .ok () => pure ()

/-- Read the first reply to the request of a stream. -/
def beginStream (sql : String) : Driver σ RowStream := do
  let frame ← World.readFrame E
  let payload ← observed E frame
  match Response.decode payload with
  | .error e => fails (.proto e)
  | .ok resp => do
    (if startsOrEnds resp then observeStatement E sql else pure ())
    settle (RowStream.start resp)

/-- Run a query whose result arrives as a stream of row chunks. -/
def queryStreamParamsWith (sql : String) (params : List Value) (consistency : Consistency) :
    Driver σ RowStream := do
  sendStream E (.client (.queryStream sql params consistency))
  beginStream E sql

namespace RowStream

/-- Advance to the next result set of a reply with several of them. -/
def nextResultSet (s : RowStream) : Bool × RowStream :=
  match s.more with
  | (columns, rows) :: more => (true, { s with columns := columns, chunk := rows, more := more })
  | [] => (false, s)

/-- What the next frame of a stream does to it. -/
def take (s : RowStream) : Response → Except DriverError Unit × RowStream
  | .rowsChunk rows => (.ok (), { s with chunk := rows })
  | .rowsEnd => (.ok (), { s with done := true })
  | .error msg => (.error (.server msg), { s with done := true })
  | other =>
    (.error (.unexpected "unexpected frame in row stream: " other), { s with done := true })

/-- What the payload of the next frame does to a stream; one that cannot be decoded
leaves it as it is. -/
def takeFrame (s : RowStream) (payload : Frame) : Except DriverError Unit × RowStream :=
  match Response.decode payload with
  | .error e => (.error (.proto e), s)
  | .ok resp => s.take resp

/-- Fetch the next frame after the current chunk ran dry. -/
def nextFrame (s : RowStream) : Driver σ (Except DriverError Unit × RowStream) := do
  let frame ← World.readFrame E
  match ← attempt (transport E frame) with
  | .error e => pure (.error e, s)
  | .ok payload => pure (s.takeFrame payload)

/-- The loop of the iterator, bounded by the number of frames it may need. -/
def nextLoop : ℕ → RowStream → Driver σ (Option (Except DriverError (List Value)) × RowStream)
  | 0, s => pure (none, s)
  | fuel + 1, s =>
    match s.chunk with
    | row :: chunk => pure (some (.ok row), { s with chunk := chunk })
    | [] =>
      if s.done then pure (none, s)
      else do
        match ← nextFrame E s with
        | (.error e, s) => pure (some (.error e), { s with done := true })
        | (.ok (), s) => nextLoop fuel s

/-- The next row; every frame is read at most once, and a read past the last one fails. -/
def next (s : RowStream) : Driver σ (Option (Except DriverError (List Value)) × RowStream) := do
  let unread ← reads fun w => w.stream.inbox.length
  nextLoop E (unread + 2) s

/-- The loop of the destructor, bounded as the iterator's. -/
def dropLoop : ℕ → RowStream → Driver σ Unit
  | 0, _ => pure ()
  | fuel + 1, s =>
    if s.done then pure ()
    else do
      match ← nextFrame E s with
      | (.error _, _) => pure ()
      | (.ok (), s) => dropLoop fuel s

/-- Read out the frames the server is still sending. -/
def drop (s : RowStream) : Driver σ Unit := do
  let unread ← reads fun w => w.stream.inbox.length
  dropLoop E (unread + 2) s

/-- Ask the stream for a number of rows one after another, as a caller with a counter does. -/
def pull : ℕ → RowStream → Driver σ (List (Except DriverError (List Value)) × RowStream)
  | 0, s => pure ([], s)
  | n + 1, s => do
    let (item, s) ← next E s
    let (items, s) ← pull n s
    pure (item.toList ++ items, s)

end RowStream

/-- Run a streamed query, ask for a number of rows and drop the stream. -/
def streamRows (sql : String) (params : List Value) (consistency : Consistency) (rows : ℕ) :
    Driver σ (List (Except DriverError (List Value))) := do
  let s ← queryStreamParamsWith E sql params consistency
  let (items, s) ← s.pull E rows
  s.drop E
  pure items

end Client

end Skaidb
