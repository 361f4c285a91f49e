import Skaidb.Logic.Program
import Skaidb.Pool.Health

/-!
# A balanced pool in use

The pool together with what is under way outside its lock: checkouts between their sections,
connections in the hands of callers, and probes whose dial is running. An event is one section
under the lock, or a step of a dial; the events of all threads interleave in any order. What the
network answers is part of an event. Instants are natural numbers here, so these runs leave out
the panics of a clock that overflows; `Skaidb.Pool.Clock` says when an event has none.
-/

namespace Skaidb

open Program

namespace Balancer

/-- Where a checkout is between two of its sections. -/
inductive Phase where
  /-- It took an idle connection. -/
  | reused (c : Connection)
  /-- It dials the endpoints in order. -/
  | dialing (order : List String)
  /-- A dial succeeded; the session is being set up. -/
  | opening (c : Connection)
  /-- It reads the members through the connection. -/
  | listing (c : Connection)
  /-- Discovery is over, and the connection can be handed out. -/
  | settled (c : Connection)
  deriving DecidableEq

/-- A call of `checkout` between two of its sections, with what it has so far. -/
structure Checkout where
  /-- The affinity key that it was called with. -/
  affinity : Option String
  /-- Attempts left after this one. -/
  attempts : ℕ
  /-- What it has and waits for at the moment. -/
  phase : Phase
  deriving DecidableEq

/-- The connection that a checkout has in its phase; it has none while it dials. -/
def Checkout.connection (k : Checkout) : Option Connection :=
  match k.phase with
  | .reused c | .opening c | .listing c | .settled c => some c
  | .dialing _ => none

/-- The pool and what is under way outside its lock. -/
structure System where
  /-- The state under the lock. -/
  pool : BalancerState
  /-- The time of the last section. -/
  clock : ℕ
  /-- The checkouts under way. -/
  checkouts : List Checkout
  /-- The connections in the hands of callers. -/
  out : List Connection
  /-- The endpoints whose probe is dialling. -/
  probes : List String

/-- What a connection does that its pool hears of, or that changes its session. -/
inductive Activity where
  /-- A response frame arrived. -/
  | roundTrip (elapsed : ℕ)
  /-- The transport failed under one of its calls. -/
  | failed
  /-- A re-dial asks for the order of the members. -/
  | redial
  /-- A re-dial of an endpoint failed through the member's fault. -/
  | redialFailed (ep : String)
  /-- A re-dial reached an endpoint, whose server begins a session with nothing in force. -/
  | moved (ep : String)
  /-- A statement succeeded; the clock was read before the lock was taken. -/
  | succeeded (sql : String) (read : ℕ)
  /-- The client carries other settings from now on. -/
  | configure (session : SessionSettings)
  /-- The server has carried out a `USE` or a `SET SCAN BUDGET`, whichever call sent it, and has
  this in force from now on. -/
  | statement (inForce : ServerSession)

/-- What may happen: a section of a call under the lock, a step of a dial, or the work of the
background thread. -/
inductive Section where
  /-- A call of `checkout`. -/
  | start (affinity : Option String)
  /-- The next endpoint of a checkout cannot be dialled, by its own fault or not. -/
  | dialFailed (k : Checkout) (fault : Bool)
  /-- The next endpoint of a checkout is reached. -/
  | dialed (k : Checkout)
  /-- The connection of a checkout that dialled is active. -/
  | opening (k : Checkout) (a : Activity)
  /-- The session is set up, and discovery may be due. -/
  | opened (k : Checkout)
  /-- The checkout gives up, with the connection it may have. -/
  | abandon (k : Checkout)
  /-- `SHOW ENDPOINTS` is answered to a checkout. -/
  | listed (k : Checkout) (answer : Except DriverError Response)
  /-- The connection broke during discovery. -/
  | retry (k : Checkout)
  /-- The connection is handed to the caller. -/
  | finish (k : Checkout)
  /-- A connection is active in the hands of its caller. -/
  | act (c : Connection) (a : Activity)
  /-- A connection is returned. -/
  | checkin (c : Connection)
  /-- A connection the pool did not hand out is returned to it. -/
  | checkinForeign (c : Connection)
  /-- A connection is dropped. -/
  | drop (c : Connection)
  /-- `SHOW ENDPOINTS` is answered to a refresh. -/
  | refresh (c : Connection) (answer : Except DriverError Response)
  /-- A refresh found no connection. -/
  | refreshFailed
  /-- A pass of the background thread begins; the clock was read before. -/
  | tick (read : ℕ)
  /-- The verdict of a probe. -/
  | probed (ep : String) (probed : Option Connection)
  /-- The pool is closed. -/
  | close

/-- A section with what it reads: the clock, once or twice, and whether a thread starts. -/
structure Event where
  /-- The first reading of the clock. -/
  now : ℕ
  /-- A later reading of the clock in the same section. -/
  later : ℕ
  /-- A thread can be started. -/
  spawned : Bool
  /-- The section or the step that happens. -/
  occurs : Section

section Steps

variable (b : Balancer)

/-- A connection made by a dial of the pool. -/
def dialConnection (ep : String) : Connection :=
  ⟨ep, ⟨.quorum, none, 0⟩, some { PoolLink.new b.id with member := ep }, ⟨none, 0⟩⟩

/-- The settings of a connection of the pool, once the server has taken the `USE` of its
database. -/
def configured (c : Connection) : Connection :=
  { c with
    session := { c.session with
      defaultConsistency := b.consistency, database := b.database.or c.session.database }
    inForce := { c.inForce with database := b.database.or c.inForce.database } }

/-- What an activity does to the connection and to its pool. -/
def activity (e : Event) : Activity → Connection → BalancerState → Connection × BalancerState
  | .roundTrip elapsed, c, st =>
    match c.link with
    | some link =>
      let (link, st) := b.roundTrip e.now e.spawned elapsed { link with broken := false }
        c.connected st
      ({ c with link := some link }, st)
    | none => (c, st)
  | .failed, c, st =>
    match c.link with
    | some link =>
      ({ c with link := some { link with broken := true } },
        b.failed e.now e.spawned c.connected st)
    | none => (c, st)
  | .redial, c, st => (c, if c.link.isSome then (dialOrder c.connected st).2 else st)
  | .redialFailed ep, c, st =>
    (c, if c.link.isSome then b.failed e.now e.spawned ep st else st)
  | .moved ep, c, st =>
    match c.link with
    | some link =>
      let (link, st) := reattribute { link with broken := false } ep st
      ({ c with connected := ep, link := some link, inForce := ⟨none, 0⟩ }, st)
    | none => ({ c with connected := ep, inForce := ⟨none, 0⟩ }, st)
  | .succeeded sql read, c, st =>
    match c.link with
    | some link =>
      (c, if link.out && b.readYourWrites && isWrite sql then
          b.wrote read link.affinity c.connected st
        else st)
    | none => (c, st)
  | .configure session, c, st => ({ c with session := session }, st)
  | .statement inForce, c, st => ({ c with inForce := inForce }, st)

/-- The first section of a checkout with the attempts left after it. -/
def begin (e : Event) (affinity : Option String) (attempts : ℕ) (s : System) : System :=
  match b.checkoutStart e.now e.later affinity s.pool with
  | .error _ => s
  | .ok (found, pool) =>
    let phase := match found.idle with
      | some c => .reused c
      | none => .dialing found.order
    { s with
      pool := found.stale.foldl (fun st c => b.discard c st) pool
      checkouts := ⟨affinity, attempts, phase⟩ :: s.checkouts }

/-- A checkout goes on to another phase, and the other checkouts stay where they are. -/
def System.advance (s : System) (k : Checkout) (phase : Phase) : System :=
  { s with checkouts := { k with phase := phase } :: s.checkouts.erase k }

/-- The system without a checkout that is over. -/
def System.leave (s : System) (k : Checkout) : System :=
  { s with checkouts := s.checkouts.erase k }

/-- The same phase of a checkout with another connection in the place of its own. -/
def Phase.withConnection (c : Connection) : Phase → Phase
  | .reused _ => .reused c
  | .dialing order => .dialing order
  | .opening _ => .opening c
  | .listing _ => .listing c
  | .settled _ => .settled c

/-- Carry out what happens in one event. What cannot happen, because a checkout is elsewhere,
changes nothing. -/
def occur (e : Event) (s : System) : Section → System
  | .start affinity => b.begin e affinity 2 s
  | .dialFailed k fault =>
    match k.phase with
    | .dialing (ep :: rest) =>
      let s := { s with pool := if fault then b.failed e.now e.spawned ep s.pool else s.pool }
      if rest.isEmpty then s.leave k else s.advance k (.dialing rest)
    | _ => s
  | .dialed k =>
    match k.phase with
    | .dialing (ep :: _) => s.advance k (.opening (b.dialConnection ep))
    | _ => s
  | .opening k a =>
    match k.connection with
    | some c =>
      let (c, pool) := b.activity e a c s.pool
      ({ s with pool := pool } : System).advance k (k.phase.withConnection c)
    | none => s
  | .opened k =>
    match k.phase with
    | .opening c =>
      let c := b.configured c
      let (due, pool) := b.discoverDue e.spawned c.connected s.pool
      ({ s with pool := pool } : System).advance k (if due then .listing c else .settled c)
    | _ => s
  | .abandon k =>
    match k.connection with
    | some c => ({ s with pool := b.discard c s.pool } : System).leave k
    | none => s.leave k
  | .listed k answer =>
    match k.phase with
    | .listing c =>
      ({ s with pool := b.listThrough e.now c.connected answer s.pool } : System).advance k
        (.settled c)
    | _ => s
  | .retry k =>
    match k.phase with
    | .settled c =>
      let s := ({ s with pool := b.discard c s.pool } : System).leave k
      match k.attempts with
      | 0 => s
      | attempts + 1 => b.begin e k.affinity attempts s
    | _ => s
  | .finish k =>
    match k.connection with
    | some c =>
      let (c, pool) := checkoutFinish k.affinity c s.pool
      { s.leave k with pool := pool, out := c :: s.out }
    | none => s
  | .act c a =>
    let (c', pool) := b.activity e a c s.pool
    { s with pool := pool, out := c' :: s.out.erase c }
  | .checkin c => { s with pool := b.checkin c s.pool, out := s.out.erase c }
  | .checkinForeign c => { s with pool := b.checkin c s.pool }
  | .drop c => { s with pool := b.discard c s.pool, out := s.out.erase c }
  | .refresh c answer => { s with pool := b.listThrough e.now c.connected answer s.pool }
  | .refreshFailed => { s with pool := b.refreshFailed e.now s.pool }
  | .tick read =>
    match b.tick read s.pool with
    | (some (due, _), pool) => { s with pool := pool, probes := due ++ s.probes }
    | (none, pool) => { s with pool := pool }
  | .probed ep probed =>
    { s with pool := b.probeVerdict e.now ep probed s.pool, probes := s.probes.erase ep }
  | .close => { s with pool := b.close s.pool }

/-- One event, which leaves the clock at its last reading. -/
def step (s : System) (e : Event) : System := { b.occur e s e.occurs with clock := e.later }

/-- What an event needs in order to happen: the checkout, the connection or the probe that it is
about. -/
def Possible (e : Event) (s : System) : Section → Prop
  | .start _ | .refreshFailed | .close => True
  | .dialFailed k _ | .dialed k => k ∈ s.checkouts ∧ ∃ ep rest, k.phase = .dialing (ep :: rest)
  | .opening k a =>
    -- Nobody has the connection yet: all that its client has the server put in force is the
    -- session that it enters again after a re-dial.
    k ∈ s.checkouts ∧ (∃ c, k.phase = .opening c ∨ k.phase = .listing c) ∧
      (∀ session, a ≠ .configure session) ∧
      ∀ inForce, a = .statement inForce → ∃ c, k.phase = .listing c ∧
        inForce = ⟨c.session.database, c.session.scanBudgetRows⟩
  | .opened k => k ∈ s.checkouts ∧ ∃ c, k.phase = .opening c
  | .abandon k => k ∈ s.checkouts ∧ (k.phase = .dialing [] ∨ ∃ c, k.phase = .opening c)
  | .listed k _ => k ∈ s.checkouts ∧ ∃ c, k.phase = .listing c
  | .retry k =>
    k ∈ s.checkouts ∧ ∃ c link, k.phase = .settled c ∧ c.link = some link ∧ link.broken = true
  | .finish k =>
    k ∈ s.checkouts ∧ ∃ c, k.phase = .reused c ∨
      k.phase = .settled c ∧ ∀ link, c.link = some link → link.broken = false
  | .act c a => c ∈ s.out ∧ ∀ sql read, a = .succeeded sql read → read ≤ e.now
  | .checkin c | .drop c => c ∈ s.out
  | .checkinForeign c => ∀ link, c.link = some link → link.pool ≠ b.id
  | .refresh c _ => c ∈ s.out ∧ b.opts.discover = true
  | .tick read => read ≤ e.now
  | .probed ep probed =>
    ep ∈ s.probes ∧ ∀ c, probed = some c → c.connected = ep ∧ c.link = none ∧
      c.session = (b.configured (b.dialConnection ep)).session ∧
      c.inForce = (b.configured (b.dialConnection ep)).inForce

/-- The event can happen and the clock does not go back. -/
def Enabled (s : System) (e : Event) : Prop :=
  s.clock ≤ e.now ∧ e.now ≤ e.later ∧ b.Possible e s e.occurs

/-- A pool that has just been built, with nothing under way and nothing checked out. -/
def fresh (endpoints : List String) (now : ℕ) (rng : UInt64) : System :=
  ⟨start endpoints now rng, now, [], [], []⟩

/-- The systems reached from a system by events. -/
def Reaches : System → System → Prop := Run b.step b.Enabled

end Steps

end Balancer

end Skaidb
