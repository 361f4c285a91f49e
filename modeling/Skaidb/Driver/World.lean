import Skaidb.Logic.Program
import Skaidb.Proto.Frame
import Skaidb.Proto.Message

/-!
# The world of a client

A client talks to servers over one connection at a time. What lies outside the driver is
a parameter: how long a probe takes, whether a dial succeeds, how a server answers a
request, when a connection breaks, and what a balanced pool does with the
reports of its connections. Every exchange is logged, so that statements about a
run can say what was written where and what was answered.
-/

namespace Skaidb

open Program

/-- The payload of one frame; the length in front of it is read and written by the framing. -/
abbrev Frame := List UInt8

/-- Errors surfaced by the driver. The server error whose text shows a response is
kept with that response. -/
inductive DriverError where
  | io (e : IoError)
  | proto (e : ProtoError)
  | server (msg : String)
  | unexpected (msg : String) (resp : Response)
  | auth (msg : String)
  | noEndpoint (msg : String)

/-- What a client writes in one frame: a plain request, a client request or one with a tag. -/
inductive Sent where
  | request (req : Request)
  | client (req : ClientRequest)
  | tagged (id : UInt32) (req : ClientRequest)

/-- The bytes that are written for a request, by the kind of request it is. -/
def Sent.payload : Sent → List UInt8
  | .request req => req.encode
  | .client req => req.encode
  | .tagged id req => encodeTaggedRequest id req []

/-- Why a frame is written: for a statement of the caller, for a prepared handle of
the caller, to bind the session, to bind it again after a re-dial, or to say hello. -/
inductive Purpose where
  | statement
  | handle (sql : String)
  | bind
  | rebind
  | hello
  deriving DecidableEq

/-- One exchange: a frame that was written and what the server sends for it, with the
session the client had bound at the time. -/
structure Exchange where
  /-- The connection that it took place on. -/
  conn : ℕ
  /-- The request that was written. -/
  sent : Sent
  /-- Why it was written. -/
  purpose : Purpose
  /-- The database bound when it was written. -/
  database : Option String
  /-- The scan budget remembered when it was written. -/
  budget : UInt64
  /-- The frames the server answers with. -/
  answer : List Frame

/-- A connection, numbered in the order of dialling. -/
structure Conn where
  /-- The number of the connection, counted over the whole run. -/
  id : ℕ
  /-- The last frame was written on it, and no read has failed since. The client does not keep
  this and writes on the connection either way; it is for statements about what a call leaves. -/
  up : Bool
  /-- The frames that can be read from it. -/
  inbox : List Frame

/-- A synchronous connection to a cluster, with failover across endpoints. -/
structure Client where
  /-- Candidate endpoints, retained for reconnection. -/
  endpoints : List String
  /-- The endpoint the live stream is connected to. -/
  connected : String
  /-- The connection that the client uses. -/
  stream : Conn
  /-- The consistency of statements that do not name one. -/
  defaultConsistency : Consistency
  /-- Session database, applied again after every reconnect. -/
  database : Option String
  /-- Session scan budget, replayed on reconnect; zero for none. -/
  scanBudgetRows : UInt64
  /-- The connection belongs to a balanced pool. -/
  pooled : Bool

/-- What a pooled connection tells its pool: round trips, failures, statements and moves. -/
inductive Report where
  | roundTrip (endpoint : String)
  | failed (endpoint : String)
  | dialFailed (endpoint : String)
  | moved (endpoint : String)
  | succeeded (endpoint sql : String)

/-- What lies outside the driver, over a state of its own. -/
structure Env (σ : Type) where
  /-- The latency of a probe, if it reaches the endpoint. -/
  probe : String → σ → Option ℕ × σ
  /-- Connect and authenticate; a failure has a text. -/
  dial : String → σ → Except String Unit × σ
  /-- The order in which a pool wants its members dialled, given the one lost. -/
  dialOrder : String → σ → List String × σ
  /-- Write a payload on a connection: the frames the server answers with, or a failure. -/
  deliver : ℕ → List UInt8 → σ → Except IoError (List Frame) × σ
  /-- Whether a connection still carries the next frame. -/
  receive : ℕ → σ → Except IoError Unit × σ
  /-- The frames that can still be read from a connection on which a write or a read has just
  failed. -/
  left : ℕ → σ → List Frame
  /-- What a pool does with a report. -/
  report : Report → σ → σ

/-- What the driver and the servers have done so far: the client, the connections
opened and the exchanges, newest first. -/
structure Scene where
  /-- The client whose calls these are. -/
  client : Client
  /-- The number of connections opened. -/
  opened : ℕ
  /-- The exchanges, newest first. -/
  log : List Exchange
  /-- The session was entered again on the live connection, if a re-dial opened it: the replay
  ran to its end. The client does not keep this; it is for statements about runs. -/
  entered : Bool

/-- A scene together with the state of what lies outside the driver. -/
structure World (σ : Type) extends Scene where
  /-- The state of what lies outside. -/
  env : σ

/-- A method of the driver: a program over its world that may fail with an error of the driver. -/
abbrev Driver (σ α : Type) := Prog (World σ) DriverError α

namespace Scene

/-- The connection that the client is on, whether it still works or not. -/
abbrev stream (s : Scene) : Conn := s.client.stream

/-- The scene with another connection in the place of the client's stream. -/
def setStream (s : Scene) (conn : Conn) : Scene :=
  { s with client := { s.client with stream := conn } }

/-- A write or a read on the live stream fails, and only the given frames can be read from it
now. The stream stays the live one. -/
def lose (s : Scene) (left : List Frame) : Scene :=
  s.setStream { s.stream with up := false, inbox := left }

/-- The exchange that begins when the client writes a frame. -/
def exchange (s : Scene) (purpose : Purpose) (sent : Sent) (answer : List Frame) : Exchange :=
  ⟨s.stream.id, sent, purpose, s.client.database, s.client.scanBudgetRows, answer⟩

/-- A frame is written and the server answers it. -/
def send (s : Scene) (purpose : Purpose) (sent : Sent) (answer : List Frame) : Scene :=
  { s.setStream { s.stream with up := true, inbox := s.stream.inbox ++ answer } with
    log := s.exchange purpose sent answer :: s.log }

/-- Frames are read until only the given ones are left. -/
def leave (s : Scene) (rest : List Frame) : Scene := s.setStream { s.stream with inbox := rest }

/-- A fresh connection becomes the live one; the session has yet to be entered on it. -/
def install (s : Scene) (endpoint : String) (ordered : List String) : Scene :=
  { s with
    client := { s.client with
      stream := ⟨s.opened, true, []⟩, connected := endpoint, endpoints := ordered }
    opened := s.opened + 1
    entered := false }

/-- The replay of the session has run to its end. -/
def enter (s : Scene) : Scene := { s with entered := true }

end Scene

variable {σ : Type}

section Frames

variable (E : Env σ)

/-- Tell the pool, if the client belongs to one. -/
def report (r : Report) : Driver σ Unit := change fun w =>
  if w.client.pooled then { w with env := E.report r w.env } else w

/-- Write one frame on the live stream. A payload above the limit is refused before
anything is written. Nothing is remembered of a failure: the next frame is written on the
same stream unless a re-dial has replaced it. -/
def World.writeFrame (purpose : Purpose) (sent : Sent) : Driver σ (Except IoError Unit) := fun w =>
  match Skaidb.writeFrame sent.payload with
  | .error e => (.ok (.error e), w)
  | .ok _ =>
    match E.deliver w.stream.id sent.payload w.env with
    | (.error e, env) => (.ok (.error e), ⟨w.lose (E.left w.stream.id env), env⟩)
    | (.ok answer, env) => (.ok (.ok ()), ⟨w.send purpose sent answer, env⟩)

/-- Read one frame from the live stream. A frame above the limit is refused when its length
has been read. -/
def World.readFrame : Driver σ (Except IoError Frame) := fun w =>
  match E.receive w.stream.id w.env with
  | (.error e, env) => (.ok (.error e), ⟨w.lose (E.left w.stream.id env), env⟩)
  | (.ok (), env) =>
    match w.stream.inbox with
    | [] =>
      (.ok (.error ⟨.unexpectedEof, "failed to fill whole buffer"⟩),
        ⟨w.lose (E.left w.stream.id env), env⟩)
    | frame :: rest =>
      if frame.length ≤ maxFrameLen then (.ok (.ok frame), ⟨w.leave rest, env⟩)
      else
        (.ok (.error ⟨.invalidData, "frame too large"⟩),
          ⟨w.lose (E.left w.stream.id env), env⟩)

/-- A transport step with no latency to report: on failure the pool hears of it. -/
def transport {α : Type} : Except IoError α → Driver σ α
  | .ok v => pure v
  | .error e => do
    let endpoint ← reads fun w => w.client.connected
    report E (.failed endpoint)
    fails (.io e)

/-- A request's transport outcome: the round trip to the first frame, or the failure. -/
def observed {α : Type} : Except IoError α → Driver σ α
  | .ok v => do
    let endpoint ← reads fun w => w.client.connected
    report E (.roundTrip endpoint)
    pure v
  | .error e => transport E (.error e)

/-- A statement succeeded; a pool may remember which member took it. -/
def observeStatement (sql : String) : Driver σ Unit := do
  let endpoint ← reads fun w => w.client.connected
  report E (.succeeded endpoint sql)

end Frames

end Skaidb
