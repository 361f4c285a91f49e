import Skaidb.Pool.Effects

/-!
# The idle connections of a balanced pool

What holds of the connections of a pool in every state its events reach: the idle ones are few
enough, belong to the pool, count against the member they are connected to and are neither
checked out nor broken, and a closed pool has none. The runs are without the clock's panics,
after which (`Skaidb.Pool.Clock`) the lock would be poisoned.
-/

namespace Skaidb

open Program

namespace Balancer

/-- The connection belongs to the pool and counts against the member it is connected to. -/
def Tied (b : Balancer) (out : Bool) (c : Connection) : Prop :=
  ∃ link, c.link = some link ∧ link.pool = b.id ∧ link.out = out ∧ link.member = c.connected

/-- A connection tied to the pool and not checked out does not say of itself that it is. -/
theorem Tied.not_out {b : Balancer} {c : Connection} (h : b.Tied false c) :
    ∀ link, c.link = some link → link.out = false := by
  intro link hlink
  obtain ⟨link', hlink', -, hout, -⟩ := h
  obtain rfl := Option.some.inj (hlink.symm.trans hlink')
  exact hout

/-- No transport failure of the connection has been noted, after which it would be dropped on its
return. -/
def Sound (c : Connection) : Prop := ∀ link, c.link = some link → link.broken = false

section Frames

variable {b : Balancer} {e : Event}

/-- A connection that stops counting does not touch the idle ones. -/
theorem uncount_keeps (link : PoolLink) (st : BalancerState) : KeepsIdle st (uncount link st) := by
  unfold uncount closedOut
  split <;> exact ⟨rfl, rfl⟩

/-- Dropping a connection does not touch the idle ones, since none of its effects does. -/
theorem discard_keeps (c : Connection) (st : BalancerState) : KeepsIdle st (b.discard c st) := by
  have hdrop : Effects b ⟨0, 0, true, .drop c⟩ st (b.discard c st) := discard_effects c st
  exact hdrop.frame fun _ _ h => h.keepsIdle not_false

/-- A connection stays tied to its pool whatever it does, and in the hands of whoever had it. -/
theorem activity_tied {out : Bool} {c : Connection} (h : b.Tied out c) (a : Activity)
    (st : BalancerState) : b.Tied out (b.activity e a c st).1 := by
  obtain ⟨link, hlink, hpool, hout, hmember⟩ := h
  cases a with
  | roundTrip elapsed =>
    have hreport := b.roundTrip_reported e.now e.spawned elapsed
      { link with broken := false } hmember st
    simp only [activity, hlink]
    rw [hreport.1]
    exact ⟨_, rfl, hpool, hout, hmember⟩
  | failed =>
    simp only [activity, hlink]
    exact ⟨_, rfl, hpool, hout, hmember⟩
  | moved ep =>
    simp only [activity, hlink]
    refine ⟨_, rfl, ?_⟩
    unfold reattribute
    split
    · next heq => exact ⟨hpool, hout, heq⟩
    · exact ⟨hpool, hout, rfl⟩
  | succeeded sql read =>
    simp only [activity, hlink]
    exact ⟨link, hlink, hpool, hout, hmember⟩
  | redial | redialFailed ep | configure session | statement inForce =>
    exact ⟨link, hlink, hpool, hout, hmember⟩

end Frames

/-! ## The invariant -/

/-- What holds of the idle connections in every state that the pool reaches. -/
structure IdleKept (b : Balancer) (st : BalancerState) : Prop where
  /-- They belong to the pool, are not checked out and are not broken. -/
  tied : ∀ c ∈ st.idle, b.Tied false c ∧ Sound c
  /-- There are not too many. -/
  room : st.idle.length ≤ b.opts.maxsize
  /-- A closed pool has none. -/
  closed : st.closed = true → st.idle = []

/-- What holds of the connections outside the pool. -/
structure HeldKept (b : Balancer) (s : System) : Prop where
  /-- Those in the hands of callers are checked out. -/
  out : ∀ c ∈ s.out, b.Tied true c
  /-- Those of checkouts under way are not. -/
  checkouts : ∀ k ∈ s.checkouts, ∀ c, k.connection = some c → b.Tied false c
  /-- Members are read with discovery on only. -/
  listing : ∀ k ∈ s.checkouts, ∀ c, k.phase = .listing c → b.opts.discover = true

section Kept

variable {b : Balancer} {e : Event}

/-- What an event can do to the idle connections. -/
inductive IdleStep (b : Balancer) (st st' : BalancerState) : Prop
  /-- The idle connections are left as they are. -/
  | keeps (h : KeepsIdle st st')
  /-- Some go, on an open pool. -/
  | fewer (hopen : st.closed = false) (hopen' : st'.closed = false)
      (hidle : List.Sublist st'.idle st.idle)
  /-- One comes, on an open pool with room. -/
  | more (c : Connection) (hopen : st.closed = false) (hopen' : st'.closed = false)
      (hidle : st'.idle = st.idle ++ [c]) (hroom : st.idle.length < b.opts.maxsize)
      (htied : b.Tied false c) (hsound : Sound c)
  /-- All go and the pool is closed. -/
  | closes (hclosed : st'.closed = true) (hidle : st'.idle = [])

/-- A section that changes the idle connections as `IdleStep` allows keeps what holds of them. -/
theorem IdleStep.kept {st st' : BalancerState} (h : IdleStep b st st') (hst : IdleKept b st) :
    IdleKept b st' := by
  cases h with
  | keeps h =>
    refine ⟨?_, ?_, ?_⟩
    · rw [h.idle]
      exact hst.tied
    · rw [h.idle]
      exact hst.room
    · rw [h.idle, h.closed]
      exact hst.closed
  | fewer _ hopen hidle =>
    refine ⟨fun c hc => hst.tied c (hidle.mem hc), hidle.length_le.trans hst.room, ?_⟩
    simp [hopen]
  | more c _ hopen hidle hroom htied hsound =>
    refine ⟨fun d hd => ?_, ?_, ?_⟩
    · rw [hidle, List.mem_append, List.mem_singleton] at hd
      rcases hd with hd | rfl
      · exact hst.tied d hd
      · exact ⟨htied, hsound⟩
    · rw [hidle, List.length_append, List.length_singleton]
      exact hroom
    · simp [hopen]
  | closes _ hidle => exact ⟨by simp [hidle], by simp [hidle], fun _ => hidle⟩

/-- Whatever an event does to the idle connections, a closed pool stays closed. -/
theorem IdleStep.closed {st st' : BalancerState} (h : IdleStep b st st')
    (hst : st.closed = true) : st'.closed = true := by
  cases h with
  | keeps h => rw [h.closed, hst]
  | fewer hopen => simp [hopen] at hst
  | more c hopen => simp [hopen] at hst
  | closes hclosed => exact hclosed

/-- None of the idle connections says of itself that it is checked out. -/
theorem IdleKept.not_out {st : BalancerState} (h : IdleKept b st) :
    ∀ c ∈ st.idle, ∀ link, c.link = some link → link.out = false := by
  exact fun c hc => (h.tied c hc).1.not_out

/-- A connection that is returned becomes idle on an open pool with room, or is dropped. -/
theorem checkin_idleStep {c : Connection}
    (hc : (∃ out, b.Tied out c) ∨ ∀ link, c.link = some link → link.pool ≠ b.id)
    (st : BalancerState) : IdleStep b st (b.checkin c st) := by
  unfold Balancer.checkin
  cases hlink : c.link with
  | none => exact .keeps (discard_keeps c st)
  | some link =>
    dsimp only
    split
    · next hpool =>
      obtain ⟨out, link', hlink', -, -, hmember⟩ : ∃ out, b.Tied out c :=
        hc.resolve_right fun hforeign => hforeign link hlink hpool
      obtain rfl := Option.some.inj (hlink.symm.trans hlink')
      have hst := uncount_keeps link st
      split
      · next hkeep =>
        simp only [Bool.and_eq_true, Bool.not_eq_true', decide_eq_true_eq, hst.idle,
          hst.closed] at hkeep
        obtain ⟨⟨⟨hopen, hsound⟩, -⟩, hroom⟩ := hkeep
        refine .more { c with link := some { link with out := false } } hopen
          (hst.closed.trans hopen) ?_ hroom ⟨_, rfl, hpool, rfl, hmember⟩ ?_
        · rw [hst.idle]
        · intro link' hlink'
          obtain rfl := Option.some.inj hlink'
          exact hsound
      · exact .keeps (hst.trans (discard_keeps _ _))
    · exact .keeps (discard_keeps c st)

/-- The verdict of a probe may add the connection of the probe to the idle ones, if there is
room. -/
theorem probeVerdict_idleStep {now : ℕ} {ep : String} {probed : Option Connection}
    (hprobed : ∀ c, probed = some c → c.connected = ep) (st : BalancerState) :
    IdleStep b st (b.probeVerdict now ep probed st) := by
  unfold Balancer.probeVerdict
  split
  · exact .keeps (KeepsIdle.refl st)
  · split
    · next c =>
      split
      · exact .keeps ⟨rfl, rfl⟩
      · next hopen =>
        have hopen : st.closed = false := by simpa using hopen
        dsimp only
        split
        · next hroom =>
          refine .more _ hopen hopen rfl hroom ⟨_, rfl, rfl, rfl, ?_⟩ ?_
          · exact (hprobed c rfl).symm
          · intro link hlink
            obtain rfl := Option.some.inj hlink
            rfl
        · exact .keeps ⟨rfl, rfl⟩
    · exact .keeps ⟨rfl, rfl⟩

/-- Closing the pool drops every idle connection, which changes no count since none of them is
checked out. -/
theorem IdleKept.close {st : BalancerState} (h : IdleKept b st) :
    b.close st = { st with closed := true, idle := [], maintainer := false } :=
  foldl_discard_of_not_out h.not_out _

/-- A checkout that goes on to a phase with a tied connection keeps what holds of the connections
outside the pool. -/
theorem HeldKept.advance {s : System} (h : HeldKept b s) (k : Checkout) {phase : Phase}
    (hphase : ∀ c, Checkout.connection { k with phase := phase } = some c → b.Tied false c)
    (hlisting : ∀ c, phase = .listing c → b.opts.discover = true) :
    HeldKept b (s.advance k phase) := by
  refine ⟨h.out, fun k' hk' => ?_, fun k' hk' => ?_⟩
  · rcases List.mem_cons.mp hk' with rfl | hk'
    · exact hphase
    · exact h.checkouts k' (List.mem_of_mem_erase hk')
  · rcases List.mem_cons.mp hk' with rfl | hk'
    · exact hlisting
    · exact h.listing k' (List.mem_of_mem_erase hk')

/-- What holds of the connections outside the pool holds once a checkout is over. -/
theorem HeldKept.leave {s : System} (h : HeldKept b s) (k : Checkout) : HeldKept b (s.leave k) :=
  ⟨h.out, fun k' hk' => h.checkouts k' (List.mem_of_mem_erase hk'),
    fun k' hk' => h.listing k' (List.mem_of_mem_erase hk')⟩

/-- The state under the lock does not matter to the connections outside. -/
theorem HeldKept.setPool {s : System} (h : HeldKept b s) (pool : BalancerState) :
    HeldKept b { s with pool := pool } := ⟨h.out, h.checkouts, h.listing⟩

/-- The stale connections that a checkout takes out are discarded without a change. -/
theorem IdleKept.discard_stale {st pool : BalancerState} (h : IdleKept b st) {now later : ℕ}
    {affinity : Option String} {taken : Found}
    (hstart : b.checkoutStart now later affinity st = .ok (taken, pool)) :
    taken.stale.foldl (fun st c => b.discard c st) pool = pool := by
  have hstarts := checkoutStart_ok hstart
  exact foldl_discard_of_not_out (fun c hc => h.not_out c (hstarts.stale c hc)) pool

/-- The first section of a checkout, in each of its outcomes, keeps what holds of the
connections. -/
theorem begin_kept {s : System} (hidle : IdleKept b s.pool) (hheld : HeldKept b s)
    (affinity : Option String) (attempts : ℕ) :
    IdleStep b s.pool (b.begin e affinity attempts s).pool ∧
      HeldKept b (b.begin e affinity attempts s) := by
  unfold Balancer.begin
  cases hstart : b.checkoutStart e.now e.later affinity s.pool with
  | error err => exact ⟨.keeps (KeepsIdle.refl _), hheld⟩
  | ok result =>
    obtain ⟨found, pool⟩ := result
    have hstarts := checkoutStart_ok hstart
    dsimp only
    rw [hidle.discard_stale hstart]
    refine ⟨.fewer hstarts.opened hstarts.closed hstarts.idle, hheld.out, fun k hk c hc => ?_,
      fun k hk c hc => ?_⟩
    · rcases List.mem_cons.mp hk with rfl | hk
      · unfold Checkout.connection at hc
        cases hfound : found.idle with
        | none => simp [hfound] at hc
        | some c' =>
          obtain rfl : c' = c := by simpa [hfound] using hc
          exact (hidle.tied c' (hstarts.found c' hfound)).1
      · exact hheld.checkouts k hk c hc
    · rcases List.mem_cons.mp hk with rfl | hk
      · cases hfound : found.idle <;> simp [hfound] at hc
      · exact hheld.listing k hk c hc

/-- Only a pool that learns its members finds a discovery to be due. -/
theorem discover_of_due {spawned : Bool} {connected : String} {st : BalancerState}
    (h : (b.discoverDue spawned connected st).1 = true) : b.opts.discover = true := by
  unfold discoverDue at h
  split at h
  · cases h
  · next hon =>
    simp only [Bool.or_eq_true, Bool.not_eq_true', not_or] at hon
    simpa using hon.1

/-- The connection of a checkout is one of its phase. -/
theorem connection_withConnection {k : Checkout} {c c' : Connection}
    (h : Checkout.connection { k with phase := k.phase.withConnection c } = some c') : c' = c := by
  unfold Checkout.connection at h
  cases hphase : k.phase <;> simp_all [Phase.withConnection]

/-- A checkout that has been set up goes on with its connection, to list members or not. -/
theorem connection_opened {k : Checkout} {c c' : Connection} {due : Bool}
    (h : Checkout.connection { k with phase := if due then .listing c else .settled c } = some c') :
    c' = c := by
  cases due with
  | false => exact (Option.some.inj h).symm
  | true => exact (Option.some.inj h).symm

/-- **One event**, by what it does to the idle connections. -/
theorem step_idleStep {s : System} (hidle : IdleKept b s.pool) (hheld : HeldKept b s)
    (he : b.Enabled s e) : IdleStep b s.pool (b.step s e).pool := by
  obtain ⟨-, -, hpossible⟩ := he
  by_cases hmoves : e.occurs.Moves
  · unfold step
    generalize e.occurs = what at hpossible hmoves
    cases what with
    | start affinity => exact (begin_kept hidle hheld affinity 2).1
    | retry k =>
      obtain ⟨hk, c, link, hphase, -⟩ := hpossible
      have hc : b.Tied false c :=
        hheld.checkouts k hk c (by simp [Checkout.connection, hphase])
      simp only [occur, hphase, discard_of_not_out hc.not_out]
      split
      · exact .keeps (KeepsIdle.refl _)
      · exact (begin_kept (s := s.leave k) hidle (hheld.leave k) k.affinity _).1
    | checkin c => exact checkin_idleStep (.inl ⟨true, hheld.out c hpossible⟩) _
    | checkinForeign c => exact checkin_idleStep (.inr hpossible) _
    | probed ep probed => exact probeVerdict_idleStep (fun c hc => (hpossible.2 c hc).1) _
    | close =>
      simp only [occur, hidle.close]
      exact .closes rfl rfl
    | _ => cases hmoves
  · exact .keeps (step_keepsIdle hmoves)

/-- **One event** keeps what holds of the connections outside the pool. -/
theorem step_heldKept {s : System} (hidle : IdleKept b s.pool) (hheld : HeldKept b s)
    (he : b.Enabled s e) : HeldKept b (b.step s e) := by
  obtain ⟨-, -, hpossible⟩ := he
  suffices h : HeldKept b (b.occur e s e.occurs) from ⟨h.out, h.checkouts, h.listing⟩
  have htied {k : Checkout} {c : Connection} (hk : k ∈ s.checkouts) (hc : k.connection = some c) :
      b.Tied false c := hheld.checkouts k hk c hc
  generalize e.occurs = what at hpossible
  cases what with
  | start affinity => exact (begin_kept hidle hheld affinity 2).2
  | dialFailed k fault =>
    obtain ⟨hk, ep, rest, hphase⟩ := hpossible
    simp only [occur, hphase]
    split
    · exact (hheld.setPool _).leave k
    · exact (hheld.setPool _).advance k (fun c hc => by cases hc) fun c hc => by cases hc
  | dialed k =>
    obtain ⟨hk, ep, rest, hphase⟩ := hpossible
    simp only [occur, hphase]
    refine hheld.advance k (fun c hc => ?_) fun c hc => by cases hc
    obtain rfl := Option.some.inj hc
    exact ⟨_, rfl, rfl, rfl, rfl⟩
  | opening k a =>
    obtain ⟨hk, -⟩ := hpossible
    simp only [occur]
    cases hc : k.connection with
    | none => exact hheld
    | some c =>
      have hc' : b.Tied false (b.activity e a c s.pool).1 := activity_tied (htied hk hc) a s.pool
      refine (hheld.setPool _).advance k (fun d hd => ?_) fun d hd => ?_
      · rw [connection_withConnection hd]
        exact hc'
      · cases hphase : k.phase with
        | listing c' => exact hheld.listing k hk c' hphase
        | reused c' => simp [hphase, Phase.withConnection] at hd
        | dialing order => simp [hphase, Phase.withConnection] at hd
        | opening c' => simp [hphase, Phase.withConnection] at hd
        | settled c' => simp [hphase, Phase.withConnection] at hd
  | opened k =>
    obtain ⟨hk, c, hphase⟩ := hpossible
    have hc : b.Tied false c := htied hk (by simp [Checkout.connection, hphase])
    simp only [occur, hphase]
    refine (hheld.setPool _).advance k (fun d hd => ?_) fun d hd => ?_
    · rw [connection_opened hd]
      exact hc
    · split at hd
      · next hdue => exact discover_of_due hdue
      · cases hd
  | abandon k =>
    simp only [occur]
    split
    · exact (hheld.setPool _).leave k
    · exact hheld.leave k
  | listed k answer =>
    obtain ⟨hk, c, hphase⟩ := hpossible
    have hc : b.Tied false c := htied hk (by simp [Checkout.connection, hphase])
    simp only [occur, hphase]
    refine (hheld.setPool _).advance k (fun d hd => ?_) fun d hd => by cases hd
    obtain rfl := Option.some.inj hd
    exact hc
  | retry k =>
    obtain ⟨hk, c, link, hphase, -⟩ := hpossible
    have hc : b.Tied false c := htied hk (by simp [Checkout.connection, hphase])
    simp only [occur, hphase, discard_of_not_out hc.not_out]
    split
    · exact hheld.leave k
    · exact (begin_kept (s := s.leave k) hidle (hheld.leave k) k.affinity _).2
  | finish k =>
    obtain ⟨hk, c, -⟩ := hpossible
    simp only [occur]
    cases hc : k.connection with
    | none => exact hheld
    | some c =>
      obtain ⟨link, hlink, hpool, hout, hmember⟩ := htied hk hc
      simp only [checkoutFinish, hlink]
      refine ⟨fun d hd => ?_, (hheld.leave k).checkouts, (hheld.leave k).listing⟩
      rcases List.mem_cons.mp hd with rfl | hd
      · exact ⟨_, rfl, hpool, rfl, hmember⟩
      · exact hheld.out d hd
  | act c a =>
    obtain ⟨hc, -⟩ := hpossible
    refine ⟨fun d hd => ?_, hheld.checkouts, hheld.listing⟩
    rcases List.mem_cons.mp hd with rfl | hd
    · exact activity_tied (hheld.out c hc) a s.pool
    · exact hheld.out d (List.mem_of_mem_erase hd)
  | checkin c | drop c =>
    exact ⟨fun d hd => hheld.out d (List.mem_of_mem_erase hd), hheld.checkouts, hheld.listing⟩
  | tick read =>
    simp only [occur]
    split <;> exact ⟨hheld.out, hheld.checkouts, hheld.listing⟩
  | checkinForeign c | refresh c answer | refreshFailed | probed ep probed | close =>
    exact ⟨hheld.out, hheld.checkouts, hheld.listing⟩

/-- **One event.** What it does to the idle connections, and that it keeps what holds of the
connections outside. -/
theorem step_idle {s : System} (hidle : IdleKept b s.pool) (hheld : HeldKept b s)
    (he : b.Enabled s e) : IdleStep b s.pool (b.step s e).pool ∧ HeldKept b (b.step s e) :=
  ⟨step_idleStep hidle hheld he, step_heldKept hidle hheld he⟩

end Kept

/-- What holds of the connections in every state a pool reaches. -/
theorem reaches_kept {b : Balancer} {endpoints : List String} {now : ℕ} {rng : UInt64} {s : System}
    (h : b.Reaches (fresh endpoints now rng) s) : IdleKept b s.pool ∧ HeldKept b s := by
  refine Run.invariant (I := fun s => IdleKept b s.pool ∧ HeldKept b s) (fun s e he hs => ?_) h ?_
  · obtain ⟨hidle, hheld⟩ := step_idle hs.1 hs.2 he
    exact ⟨hidle.kept hs.1, hheld⟩
  · exact ⟨⟨fun c hc => absurd hc List.not_mem_nil, Nat.zero_le _, fun _ => rfl⟩,
      fun c hc => absurd hc List.not_mem_nil, fun k hk => absurd hk List.not_mem_nil,
      fun k hk => absurd hk List.not_mem_nil⟩

/-- **Idle connections.** In every state a pool reaches, at most `maxsize` connections are
idle, and each belongs to the pool, is neither checked out nor broken and counts against the
member it is connected to. After a close no connection is idle any more and every checkout
fails. -/
theorem idle_invariant (b : Balancer) (endpoints : List String) (now : ℕ) (rng : UInt64)
    (s : System) (h : b.Reaches (fresh endpoints now rng) s) :
    s.pool.idle.length ≤ b.opts.maxsize ∧
      (∀ c ∈ s.pool.idle, ∃ link, c.link = some link ∧ link.pool = b.id ∧ link.out = false ∧
        link.broken = false ∧ link.member = c.connected) ∧
      ∀ e, b.Enabled s e → e.occurs = .close → ∀ s', b.Reaches (b.step s e) s' →
        s'.pool.idle = [] ∧ ∀ now later affinity,
          b.checkoutStart now later affinity s'.pool = .error (.noEndpoint "pool is closed") := by
  have hkept := reaches_kept h
  refine ⟨hkept.1.room, fun c hc => ?_, fun e he hclose s' hrun => ?_⟩
  · obtain ⟨⟨link, hlink, hpool, hout, hmember⟩, hsound⟩ := hkept.1.tied c hc
    exact ⟨link, hlink, hpool, hout, hsound link hlink, hmember⟩
  · have hclosed : (b.step s e).pool.closed = true := by
      simp only [step, hclose, occur, hkept.1.close]
    obtain ⟨hidle, hheld⟩ := step_idle hkept.1 hkept.2 he
    have hlater : IdleKept b s'.pool ∧ HeldKept b s' ∧ s'.pool.closed = true := by
      refine Run.invariant (I := fun s => IdleKept b s.pool ∧ HeldKept b s ∧ s.pool.closed = true)
        (fun s e he hs => ?_) hrun ⟨hidle.kept hkept.1, hheld, hclosed⟩
      obtain ⟨hidle, hheld⟩ := step_idle hs.1 hs.2.1 he
      exact ⟨hidle.kept hs.1, hheld, hidle.closed hs.2.2⟩
    refine ⟨hlater.1.closed hlater.2.2, fun now later affinity => ?_⟩
    unfold checkoutStart
    rw [if_pos hlater.2.2]

/-- A pool whose builder was given nothing but the endpoints. -/
def plain : Balancer := ⟨0, {}, none, .quorum⟩

/-- A connection of the pool to the endpoint `a`. -/
def plainConnection (out : Bool) : Connection :=
  ⟨"a", ⟨.quorum, none, 0⟩, some ⟨0, "a", out, none, false⟩, ⟨none, 0⟩⟩

/-- A connection is dialled, handed out and returned. -/
def returnOne : List Event :=
  [.start none, .dialed ⟨none, 2, .dialing ["a"]⟩,
    .opened ⟨none, 2, .opening (plainConnection false)⟩,
    .finish ⟨none, 2, .settled (plainConnection false)⟩, .checkin (plainConnection true)].map
    fun what => ⟨0, 0, true, what⟩

/-- The events of a checkout, a dial and a return can happen one after another. -/
theorem returnOne_guarded : Guarded plain.step plain.Enabled (fresh ["a"] 0 1) returnOne := by
  refine ⟨⟨le_rfl, le_rfl, trivial⟩, ⟨le_rfl, le_rfl, by decide, _, _, rfl⟩,
    ⟨le_rfl, le_rfl, by decide, _, rfl⟩, ⟨le_rfl, le_rfl, by decide, _, .inr ⟨rfl, ?_⟩⟩,
    ⟨le_rfl, le_rfl, List.mem_cons_self⟩, trivial⟩
  intro link hlink
  obtain rfl := Option.some.inj hlink
  rfl

/-- The returned connection is idle, and gone after a close. -/
theorem idle_invariant_returned :
    (returnOne.foldl plain.step (fresh ["a"] 0 1)).pool.idle = [plainConnection false] ∧
      (plain.step (returnOne.foldl plain.step (fresh ["a"] 0 1)) ⟨0, 0, true, .close⟩).pool.idle =
        [] :=
  ⟨by decide, ((idle_invariant plain ["a"] 0 1 _ returnOne_guarded.run).2.2 ⟨0, 0, true, .close⟩
    ⟨le_rfl, le_rfl, trivial⟩ rfl _ Run.refl).1⟩

end Balancer

end Skaidb
