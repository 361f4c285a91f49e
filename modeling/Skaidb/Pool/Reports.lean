import Skaidb.Driver.Lasting
import Skaidb.Pool.System

/-!
# What a checked-out connection tells its pool

The client of a checked-out connection runs against its pool: its reports act on the pool's
state and on the connection's tie to it. Everything else outside the client is a
parameter, and other threads may use the pool whenever the client waits. Every report
is recorded with what it did, so that a statement about a call can say what the call
changed.
-/

namespace Skaidb

open Program

/-- What a report reads: the clock, the length of the round trip, and whether a thread can
be started. -/
structure Reading where
  /-- The reading of the clock, under the lock. -/
  now : ℕ
  /-- The length of the round trip. -/
  elapsed : ℕ
  /-- A thread can be started. -/
  spawned : Bool

/-- What lies outside a client and its pool, over a state of its own. -/
structure Outside (ρ : Type) where
  /-- The latency of a probe. -/
  probe : String → BalancerState × ρ → Option ℕ × BalancerState × ρ
  /-- Connect and authenticate; a failure has a text and may be the member's fault. -/
  dial : String → BalancerState × ρ → Except (String × Bool) Unit × BalancerState × ρ
  /-- Write a payload on a connection; a failure has an error. -/
  deliver : ℕ → List UInt8 → BalancerState × ρ → Except IoError (List Frame) × BalancerState × ρ
  /-- Whether a connection still carries the next frame. -/
  receive : ℕ → BalancerState × ρ → Except IoError Unit × BalancerState × ρ
  /-- The frames that can still be read from a connection on which a write or a read has just
  failed. -/
  left : ℕ → BalancerState × ρ → List Frame
  /-- What a report reads. -/
  read : ρ → Reading × ρ

/-- A report of a connection with what it did to the pool and to the tie between them. -/
structure Heard where
  /-- The report that the connection made. -/
  report : Report
  /-- The pool before it. -/
  pool : BalancerState
  /-- The tie after it. -/
  link' : PoolLink
  /-- The pool after it. -/
  pool' : BalancerState

/-- The pool, the tie of one connection to it, and what lies outside. -/
structure PoolSide (ρ : Type) where
  /-- The state of the pool under its lock. -/
  pool : BalancerState
  /-- The connection's tie to the pool. -/
  link : PoolLink
  /-- The last dial that failed did so by the member's fault. -/
  fault : Bool
  /-- The reports since recording began, newest first. -/
  heard : List Heard
  /-- What lies outside. -/
  outside : ρ

variable {ρ : Type}

/-- The state after an operation that used the pool and what lies outside. -/
def PoolSide.after (s : PoolSide ρ) (state : BalancerState × ρ) : PoolSide ρ :=
  { s with pool := state.1, outside := state.2 }

namespace Balancer

section Environment

variable (b : Balancer)

/-- What a report does to the tie and the pool. -/
def hear (reading : Reading) (fault : Bool) (link : PoolLink) (st : BalancerState) :
    Report → PoolLink × BalancerState
  | .roundTrip ep =>
    b.roundTrip reading.now reading.spawned reading.elapsed { link with broken := false } ep st
  | .failed ep => ({ link with broken := true }, b.failed reading.now reading.spawned ep st)
  | .dialFailed ep => (link, if fault then b.failed reading.now reading.spawned ep st else st)
  | .moved ep => reattribute { link with broken := false } ep st
  | .succeeded ep sql =>
    (link, if link.out && b.readYourWrites && isWrite sql then
        b.wrote reading.now link.affinity ep st
      else st)

/-- The environment of a client whose connection is tied to the pool. -/
def env (N : Outside ρ) : Env (PoolSide ρ) where
  probe ep s :=
    let (latency, state) := N.probe ep (s.pool, s.outside)
    (latency, s.after state)
  dial ep s :=
    match N.dial ep (s.pool, s.outside) with
    | (.ok (), state) => (.ok (), s.after state)
    | (.error (text, fault), state) => (.error text, { s.after state with fault := fault })
  dialOrder lost s :=
    let (ordered, pool) := dialOrder lost s.pool
    (ordered, { s with pool := pool })
  deliver conn payload s :=
    let (answer, state) := N.deliver conn payload (s.pool, s.outside)
    (answer, s.after state)
  receive conn s :=
    let (outcome, state) := N.receive conn (s.pool, s.outside)
    (outcome, s.after state)
  left conn s := N.left conn (s.pool, s.outside)
  report r s :=
    let (reading, outside) := N.read s.outside
    let (link, pool) := b.hear reading s.fault s.link s.pool r
    { s with link := link, pool := pool, outside := outside,
             heard := ⟨r, s.pool, link, pool⟩ :: s.heard }

end Environment

end Balancer

/-- The activity of a connection that a report tells of. -/
def Report.activity (reading : Reading) : Report → Balancer.Activity
  | .roundTrip _ => .roundTrip reading.elapsed
  | .failed _ => .failed
  | .dialFailed ep => .redialFailed ep
  | .moved ep => .moved ep
  | .succeeded _ sql => .succeeded sql reading.now

/-- The endpoint a report says the connection has. -/
def Report.from? : Report → Option String
  | .roundTrip ep | .failed ep | .succeeded ep _ => some ep
  | .dialFailed _ | .moved _ => none

namespace Balancer

variable {b : Balancer}

/-- A report does to the pool and the tie what the activity of the connection does in the
pool's system. -/
theorem hear_eq_activity {c : Connection} {link : PoolLink} (hlink : c.link = some link)
    {reading : Reading} {e : Event} (hnow : e.now = reading.now)
    (hspawned : e.spawned = reading.spawned) {r : Report}
    (hfrom : ∀ ep, r.from? = some ep → ep = c.connected) (st : BalancerState) :
    ((b.activity e (r.activity reading) c st).1.link, (b.activity e (r.activity reading) c st).2) =
      (some (b.hear reading true link st r).1, (b.hear reading true link st r).2) := by
  cases r with
  | roundTrip ep | failed ep | succeeded ep sql =>
    obtain rfl := hfrom ep rfl
    simp [activity, Report.activity, hear, hlink, hnow, hspawned]
  | dialFailed ep => simp [activity, Report.activity, hear, hlink, hnow, hspawned]
  | moved ep => simp [activity, Report.activity, hear, hlink]

end Balancer

/-! ## What a call changes -/

/-- The failure count and the ejection of a member. -/
def Member.health (m : Member) : ℕ × Option ℕ := (m.errors, m.ejectedUntil)

/-- The report changes no member's failure count or ejection and does not mark the connection
broken. -/
structure Heard.Spares (h : Heard) : Prop where
  /-- The failure counts and ejections. -/
  health : ∀ ep, (h.pool'.members.get? ep).map Member.health =
    (h.pool.members.get? ep).map Member.health
  /-- The connection is not marked as broken. -/
  broken : h.link'.broken = false

/-- The report marks the connection broken and counts a failure against the member it is
about. -/
def Heard.Counts (h : Heard) : Prop :=
  ∃ ep, h.report = .failed ep ∧ h.link'.broken = true ∧
    ∀ m, h.pool.members.get? ep = some m →
      ∃ m', h.pool'.members.get? ep = some m' ∧ m'.errors = saturatingSucc m.errors

/-- The same session with the record of its reports started afresh. -/
def Session.record (s : Session (PoolSide ρ)) : Session (PoolSide ρ) :=
  { s with world := { s.world with env := { s.world.env with heard := [] } } }

/-- The recording does not matter to what a request is. -/
theorem Session.oversized_record {s : Session (PoolSide ρ)} {call : Call} :
    call.Oversized s.record ↔ call.Oversized s := by
  cases call <;> simp only [Call.Oversized, Session.record]

namespace Balancer

variable {b : Balancer}

/-- The reports that one call of a session makes to its pool, in order. -/
def told (b : Balancer) (N : Outside ρ) (s : Session (PoolSide ρ)) (call : Call) : List Heard :=
  (s.record.step (b.env N) call).world.env.heard

/-- A failure of a member adds one to its failures in a row, up to the largest number. -/
theorem failed_errors {now : ℕ} {spawned : Bool} {ep : String} {st : BalancerState} {m : Member}
    (hm : st.members.get? ep = some m) :
    ∃ m', (b.failed now spawned ep st).members.get? ep = some m' ∧
      m'.errors = saturatingSucc m.errors := by
  unfold failed
  rw [hm]
  dsimp only
  split
  · unfold eject
    split
    · simp [hm, (ensureMaintainer_reported _ _).2, ejectMember]
    · simp [hm]
  · simp [hm]

/-- Once counted, a failure stays in the record, and every reported failure is counted. -/
theorem env_struck (N : Outside ρ) :
    Struck (b.env N) fun s => ∃ h ∈ s.heard, h.Counts where
  probe ep s hs := hs
  dial ep s hs := by
    unfold env
    dsimp only
    split <;> exact hs
  dialOrder lost s hs := hs
  deliver conn payload s hs := hs
  receive conn s hs := hs
  report r s hs := by
    obtain ⟨h, hmem, hcounts⟩ := hs
    exact ⟨h, List.mem_cons_of_mem _ hmem, hcounts⟩
  failed ep s := by
    refine ⟨_, List.mem_cons_self, ep, rfl, rfl, fun m hm => ?_⟩
    exact failed_errors hm

/-- **A refused request counts against the member.** Every call on a checked-out connection
with a request above the frame limit marks the connection broken and counts a failure against
the member, although nothing was sent. -/
theorem oversized_not_spared (b : Balancer) (N : Outside ρ) {s : Session (PoolSide ρ)} {call : Call}
    (hpooled : s.world.client.pooled = true) (hlong : call.Oversized s) :
    (¬ ∀ h ∈ b.told N s call, h.Spares) ∧ ∃ h ∈ b.told N s call, h.Counts := by
  have hlong' : call.Oversized s.record := Session.oversized_record.mpr hlong
  have hcounted : ∃ h ∈ b.told N s call, h.Counts := by
    unfold told
    exact (b.env_struck N).step hpooled hlong'
  refine ⟨fun hspares => ?_, hcounted⟩
  obtain ⟨h, hmem, hcounts⟩ := hcounted
  obtain ⟨ep, -, hbroken, -⟩ := hcounts
  have hunbroken := (hspares h hmem).broken
  rw [hbroken] at hunbroken
  exact absurd hunbroken (by decide)

/-! ## Healthy members ejected -/

/-- The world after a statement that was refused twice. -/
def afterRefused {σ : Type} (E : Env σ) (w : World σ) : World σ :=
  let w₁ := (Skaidb.report E (.failed w.client.connected) w).2
  match Client.reconnect E w₁ with
  | (.ok _, w₂) => (Skaidb.report E (.failed w₂.client.connected) w₂).2
  | (.error _, w₂) => w₂

/-- An attempt at a statement above the frame limit fails before anything is written, and reports a
failure. -/
theorem tryExecute_refused {σ : Type} {E : Env σ} {sql : String} {consistency : Consistency}
    (hlong : maxFrameLen < (Sent.request ⟨sql, consistency⟩).payload.length) (w : World σ) :
    Client.tryExecute E sql consistency w =
      (.error (.io ⟨.invalidInput, "frame too large"⟩),
        (Skaidb.report E (.failed w.client.connected) w).2) := by
  have hwrite : World.writeFrame E .statement (.request ⟨sql, consistency⟩) w =
      (.ok (.error ⟨.invalidInput, "frame too large"⟩), w) := by
    unfold World.writeFrame Skaidb.writeFrame
    rw [if_pos hlong]
  unfold Client.tryExecute Client.ask Client.exchangeFrames
  simp only [bind_apply, hwrite]
  rfl

/-- A statement above the frame limit ends in the world in which it was refused on both attempts. -/
theorem executeWith_refused {σ : Type} {E : Env σ} {sql : String} {consistency : Consistency}
    (hlong : maxFrameLen < (Sent.request ⟨sql, consistency⟩).payload.length) (w : World σ) :
    (Client.executeWith E sql consistency w).2 = afterRefused E w := by
  unfold Client.executeWith Client.orRetry afterRefused
  simp only [bind_apply, attempt, tryExecute_refused hlong]
  rcases Client.reconnect E _ with ⟨_ | _, w₂⟩ <;> rfl

/-- Every dial succeeds, every server answers with nothing, and the clock stands still. -/
def calm : Outside Unit where
  probe _ state := (none, state)
  dial _ state := (.ok (), state)
  deliver _ _ state := (.ok [], state)
  receive _ state := (.ok (), state)
  left _ _ := []
  read _ := (⟨0, 0, true⟩, ())

/-- A pool whose options are those of `PoolOptions::default`. -/
def defaults : Balancer := ⟨0, {}, none, .quorum⟩

/-- A connection to the first of two healthy members, checked out. -/
def healthy : Session (PoolSide Unit) where
  world :=
    let (c, pool) := checkoutFinish none (defaults.dialConnection "a") (start ["a", "b"] 0 1)
    { client := ⟨["a", "b"], "a", ⟨0, true, []⟩, .quorum, none, 0, true⟩
      opened := 1
      log := []
      entered := true
      env := ⟨pool, c.link.getD (PoolLink.new 0), false, [], ()⟩ }
  handles := []

/-- A statement of so many letters, to try the frame limit with. -/
def longSql (n : ℕ) : String := String.ofList (List.replicate n 'x')

/-- A statement with as many letters as a frame has bytes makes a request above the limit. -/
theorem longSql_oversized {σ : Type} (s : Session σ) (consistency : Consistency) :
    (Call.execute (longSql maxFrameLen) consistency).Oversized s := by
  have hlength (n : ℕ) : (utf8 (longSql n)).length = n := by
    have hsize : 'x'.utf8Size = 1 := rfl
    simp [longSql, utf8, List.utf8Encode, hsize]
  have hpayload (sql : String) :
      (utf8 sql).length < (Sent.request ⟨sql, consistency⟩).payload.length := by
    simp only [Sent.payload, Request.encode, writeBytes, List.length_append, List.length_cons]
    omega
  have hlong := hpayload (longSql maxFrameLen)
  rw [hlength] at hlong
  exact hlong

/-- A statement above the limit counts against a healthy member. -/
theorem oversized_not_spared_healthy :
    healthy.world.client.pooled = true ∧
      (Call.execute (longSql maxFrameLen) .quorum).Oversized healthy ∧
      ∃ h ∈ defaults.told calm healthy (.execute (longSql maxFrameLen) .quorum), h.Counts :=
  ⟨rfl, longSql_oversized healthy .quorum,
    (oversized_not_spared defaults calm rfl (longSql_oversized healthy .quorum)).2⟩

/-- The failure count and the ejection of a member of the pool. -/
def healthAt (s : Session (PoolSide Unit)) (ep : String) : Option (ℕ × Option ℕ) :=
  (s.world.env.pool.members.get? ep).map Member.health

/-- Three statements above the limit eject a healthy member: each marks the connection broken
and counts against both members, the one it had and the one it is dialled to again. -/
theorem oversized_ejects_healthy :
    ∃ s₁ s₂ s₃ : Session (PoolSide Unit),
      s₁ = healthy.step (defaults.env calm) (.execute (longSql maxFrameLen) .quorum) ∧
      s₂ = s₁.step (defaults.env calm) (.execute (longSql maxFrameLen) .quorum) ∧
      s₃ = s₂.step (defaults.env calm) (.execute (longSql maxFrameLen) .quorum) ∧
      healthy.world.env.link.out = true ∧ healthy.world.env.link.broken = false ∧
      healthAt healthy "a" = some (0, none) ∧ healthAt healthy "b" = some (0, none) ∧
      s₁.world.env.link.broken = true ∧
      healthAt s₁ "a" = some (1, none) ∧ healthAt s₁ "b" = some (1, none) ∧
      healthAt s₃ "a" = some (3, some (5 * 10 ^ 9)) := by
  have hstep (s : Session (PoolSide Unit)) :
      s.step (defaults.env calm) (.execute (longSql maxFrameLen) .quorum) =
        { s with world := afterRefused (defaults.env calm) s.world } := by
    have hrun := executeWith_refused (E := defaults.env calm) (longSql_oversized s .quorum) s.world
    rw [← hrun]
    rfl
  refine ⟨_, _, _, rfl, rfl, rfl, ?_⟩
  rw [hstep, hstep, hstep]
  decide

end Balancer

end Skaidb
