import Skaidb.Driver.Run
import Skaidb.Driver.Stepwise
import Skaidb.Pool.Idle

/-!
# The settings of pooled connections

A pool dials its connections with a database and a default consistency of its own, and without a
scan budget. A borrower may change all three in the client, and its statements may change the
database and the scan budget that the server has in force; what it leaves on a connection that
goes back to the idle ones is what the next borrower gets. The server of a connection that was
re-dialled while the pool read the members through it may also have refused the database. The
clock's panics (`Skaidb.Pool.Clock`) are left out of the runs.
-/

namespace Skaidb

open Program

/-! ## What a call sets -/

/-- The settings that a client carries: its database, its default consistency and its scan
budget. -/
def Client.settings (c : Client) : SessionSettings :=
  ⟨c.defaultConsistency, c.database, c.scanBudgetRows⟩

/-- The settings that a call asks for, of those that the client carries: the other calls leave
them, whatever their statements make the server put in force. -/
def Call.asksFor : Call → SessionSettings → SessionSettings
  | .useDatabase database, set => { set with database := some database }
  | .setScanBudgetRows rows, set => { set with scanBudgetRows := rows }
  | .setConsistency consistency, set => { set with defaultConsistency := consistency }
  | _, set => set

section Calls

variable {σ : Type} {E : Env σ}

/-- The client of the scene carries these settings. -/
def Scene.Carries (set : SessionSettings) (s : Scene) : Prop := s.client.settings = set

/-- Nothing that happens on a connection changes the settings. -/
theorem carries_stepwise (set : SessionSettings) :
    Stepwise E (Scene.Carries set) fun _ => True where
  lose _ _ hs _ := hs
  send _ _ _ _ hs _ _ _ := hs
  leave _ _ _ hs _ := hs
  enter _ hs := hs

/-- A reconnect carries the client's settings over to the new connection, refused or not. -/
theorem carries_reconnect (set : SessionSettings) :
    Keeps (On (Scene.Carries set)) (Client.reconnect E) := by
  have h := carries_stepwise (E := E) set
  refine reconnect_triple (Q := fun _ => Scene.Carries set) (fun _ _ hs => hs) ?_
  refine Triple.conseq (h.framewise.replaySession trivial trivial) ?_ fun _ _ hw => hw
  rintro w ⟨s, ep, ordered, hs, hw⟩
  change w.toScene.Carries set
  rw [hw]
  exact hs

/-- After a database was asked for, the client carries the settings it had or those with that
database. -/
theorem useDatabase_carries (set : SessionSettings) (database : String) :
    Triple (On (Scene.Carries set)) (Client.useDatabase E database) fun _ => On fun s =>
      s.Carries set ∨ s.Carries { set with database := some database } := by
  refine Triple.reads fun previous => ?_
  refine (Triple.assume (P := On (Scene.Carries set)) (p := previous = set.database)
    fun hprevious => ?_).conseq
      (fun w hw => ⟨hw.1, hw.2.symm.trans (congrArg SessionSettings.database hw.1)⟩)
      fun _ _ hw => hw
  subst hprevious
  -- The database is remembered first; a refusal puts the previous one back.
  refine Returns.bind (R := fun _ => On (Scene.Carries { set with database := some database }))
    ?_ fun _ => ?_
  · rintro w rfl
    exact ⟨(), rfl, rfl⟩
  · have hstep := carries_stepwise (E := E) { set with database := some database }
    refine Triple.attempt (applyDatabase_keeps fun _ _ => hstep.ask trivial _) fun r => ?_
    cases r with
    | ok u => exact Triple.pure fun w hw => .inr hw
    | error e =>
      refine Returns.bind (R := fun _ => On (Scene.Carries set)) (fun w hw => ⟨(), rfl, ?_⟩)
        fun _ => Triple.fails fun w hw => .inl hw
      have hcarries : w.client.settings = { set with database := some database } := hw
      change { w.client.settings with database := set.database } = set
      rw [hcarries]

/-- The settings after a scan budget was asked for. -/
theorem setScanBudgetRows_carries (set : SessionSettings) (rows : UInt64) :
    Triple (On (Scene.Carries set)) (Client.setScanBudgetRows E rows) fun _ => On fun s =>
      s.Carries set ∨ s.Carries { set with scanBudgetRows := rows } := by
  refine Triple.reads fun client => ?_
  have hask (sent : Sent) : Keeps (On (Scene.Carries set)) (Client.ask E .bind sent) :=
    (carries_stepwise set).ask trivial sent
  refine Triple.bind ((hask _).conseq (fun _ hw => hw.1) fun _ _ hw => hw) (fun _ => ?_)
    fun _ _ hw => .inl hw
  refine Triple.change fun w hw => .inr ?_
  obtain rfl : w.client.settings = set := hw
  rfl

/-- **What a call leaves on a client.** The settings are as they were, or as the call asks
for. -/
theorem Session.step_settings (s : Session σ) (call : Call) :
    (s.step E call).world.client.settings = s.world.client.settings ∨
      (s.step E call).world.client.settings = call.asksFor s.world.client.settings := by
  obtain ⟨set, hset⟩ : ∃ set, s.world.client.settings = set := ⟨_, rfl⟩
  have hstep := carries_stepwise (E := E) set
  have h := hstep.survives (carries_reconnect set)
  have hs : s.world.toScene.Carries set := hset
  cases call with
  | useDatabase database =>
    rw [Session.step_useDatabase_world]
    have hcall := useDatabase_carries (E := E) set database s.world hs
    rw [hset]
    exact hcall
  | setScanBudgetRows rows =>
    have hcall := setScanBudgetRows_carries (E := E) set rows s.world hs
    rw [hset]
    exact hcall
  | setConsistency consistency => exact .inr rfl
  | addEndpoints more => exact .inl rfl
  | reconnect => exact .inl ((carries_reconnect set _ hs).trans hset.symm)
  | execute sql consistency =>
    have hcall := h.settled (h.executeWith trivial sql consistency _ hs)
    exact .inl (hcall.trans hset.symm)
  | pipeline stmts consistency =>
    have hcall := h.settled (h.pipelineWith hstep trivial stmts consistency _ hs)
    exact .inl (hcall.trans hset.symm)
  | prepare sql =>
    rw [Session.step_prepare_world]
    have hcall := h.settled (h.prepare trivial sql _ hs)
    exact .inl (hcall.trans hset.symm)
  | executePrepared handle params consistency =>
    have hcall : On (Scene.Carries set) (s.afterHandle handle fun stmt =>
        Client.executePreparedWith E stmt params consistency).world :=
      Session.afterHandle_world hs fun stmt _ =>
        h.executePreparedWith trivial (fun _ => trivial) stmt params consistency _ hs
    exact .inl (hcall.trans hset.symm)
  | executeBatch handle rows =>
    have hcall : On (Scene.Carries set) (s.afterHandle handle fun stmt =>
        Client.executeBatch E stmt rows).world :=
      Session.afterHandle_world hs fun stmt _ =>
        h.executeBatch trivial (fun _ => trivial) stmt rows _ hs
    exact .inl (hcall.trans hset.symm)
  | streamRows sql params consistency rows =>
    have hcall := h.settled (h.streamRows hstep trivial sql params consistency rows _ hs)
    exact .inl (hcall.trans hset.symm)

end Calls

namespace Balancer

/-! ## Connections of a pool -/

/-- The settings that the clients of a pool's connections are given. -/
def settings (b : Balancer) : SessionSettings := ⟨b.consistency, b.database, 0⟩

/-- What the servers of a pool's connections are given to put in force. -/
def inForce (b : Balancer) : ServerSession := ⟨b.database, 0⟩

/-- The connection has the settings of the pool: its client carries them, and its server has
the database of the pool in force and no scan budget. -/
structure AsGiven (b : Balancer) (c : Connection) : Prop where
  /-- What the client carries. -/
  session : c.session = b.settings
  /-- What the server has in force. -/
  inForce : c.inForce = b.inForce

/-- A connection that no pool has set up. -/
structure Unset (c : Connection) : Prop where
  /-- What the client carries. -/
  session : c.session = ⟨.quorum, none, 0⟩
  /-- What the server has in force. -/
  inForce : c.inForce = ⟨none, 0⟩

/-- A connection that has just been dialled is unset: the pool has not yet applied its builder's
settings to it. -/
theorem dialConnection_unset (b : Balancer) (ep : String) : Unset (b.dialConnection ep) :=
  ⟨rfl, rfl⟩

/-- Setting up an unset connection gives it the settings of the pool. -/
theorem Unset.configured {c : Connection} (h : Unset c) (b : Balancer) :
    b.AsGiven (b.configured c) := by
  constructor
  · simp only [Balancer.configured, h.session, settings, Option.or_none]
  · simp only [Balancer.configured, h.inForce, Balancer.inForce, Option.or_none]

/-- What holds of the connection of a checkout by its phase. While the members are read through
it a re-dial may take away what the server has in force. -/
def PhaseKept (b : Balancer) (c : Connection) : Phase → Prop
  | .reused _ => b.AsGiven c
  | .dialing _ => True
  | .opening _ => Unset c
  | .listing _ => c.session = b.settings
  | .settled _ => c.session = b.settings ∧ (Sound c → c.inForce = b.inForce)

/-- What holds of the settings of a pool's connections outside the hands of callers. -/
structure SettingsKept (b : Balancer) (s : System) : Prop where
  /-- Idle connections have the settings of the pool. -/
  idle : ∀ c ∈ s.pool.idle, b.AsGiven c
  /-- Those of checkouts have them as far as the checkout has come. -/
  checkouts : ∀ k ∈ s.checkouts, ∀ c, k.connection = some c → b.PhaseKept c k.phase

/-- A connection that is returned in this state of the pool is kept as an idle one. -/
def Stays (b : Balancer) (c : Connection) (st : BalancerState) : Prop :=
  ∃ link, c.link = some link ∧ link.pool = b.id ∧ link.broken = false ∧ st.closed = false ∧
    usableAt st.members link.member = true ∧ st.idle.length < b.opts.maxsize

/-- A connection that the event returns has the settings of the pool, if the pool keeps it, and
so has the one through which a checkout has read the members, if it is not broken. -/
structure ReturnsAsGiven (b : Balancer) (s : System) (e : Event) : Prop where
  /-- The connection that is returned. -/
  returned : ∀ c, e.occurs = .checkin c → b.Stays c s.pool → b.AsGiven c
  /-- The connection that served for discovery: no server that it was re-dialled to refused the
  database. -/
  entered : ∀ k answer c, e.occurs = .listed k answer → k.phase = .listing c → Sound c →
    c.inForce = b.inForce

/-- Neither the idle connections nor the sound ones that checkouts have set up have settings
other than the pool's. -/
structure AllAsGiven (b : Balancer) (s : System) : Prop where
  /-- Every idle connection has the settings of the pool. -/
  idle : ∀ c ∈ s.pool.idle, b.AsGiven c
  /-- Those that are handed out next. -/
  settled : ∀ k ∈ s.checkouts, ∀ c, k.phase = .settled c → Sound c → b.AsGiven c

/-- What is kept of the settings is enough for the connections that may be handed out next. -/
theorem SettingsKept.allAsGiven {b : Balancer} {s : System} (h : SettingsKept b s) :
    b.AllAsGiven s := by
  refine ⟨h.idle, fun k hk c hphase hsound => ?_⟩
  have hkept := h.checkouts k hk c (by simp [Checkout.connection, hphase])
  rw [hphase] at hkept
  exact ⟨hkept.1, hkept.2 hsound⟩

section Kept

variable {b : Balancer} {e : Event}

/-- A connection keeps its settings whatever it does, unless its borrower changes them. -/
theorem activity_session {a : Activity} (ha : ∀ session, a ≠ .configure session) (c : Connection)
    (st : BalancerState) : (b.activity e a c st).1.session = c.session := by
  cases a with
  | configure session => exact absurd rfl (ha session)
  | redial | redialFailed ep | statement inForce => rfl
  | roundTrip elapsed | failed | moved ep | succeeded sql read =>
    simp only [activity]
    split <;> rfl

/-- What the server has in force stays whatever the connection does, or a re-dial takes it
away, unless a statement puts something else in force. -/
theorem activity_inForce {a : Activity} (ha : ∀ inForce, a ≠ .statement inForce) (c : Connection)
    (st : BalancerState) : (b.activity e a c st).1.inForce = c.inForce ∨
      (b.activity e a c st).1.inForce = ⟨none, 0⟩ := by
  cases a with
  | statement inForce => exact absurd rfl (ha inForce)
  | redial | redialFailed ep | configure session => exact .inl rfl
  | roundTrip elapsed | failed | succeeded sql read =>
    simp only [activity]
    split <;> exact .inl rfl
  | moved ep =>
    simp only [activity]
    split <;> exact .inr rfl

/-- The activity of a connection that nobody has yet keeps what holds of it by its phase. -/
theorem PhaseKept.activity {c : Connection} {phase : Phase} (h : b.PhaseKept c phase)
    (hphase : ∃ d, phase = .opening d ∨ phase = .listing d) {a : Activity}
    (hconfigure : ∀ session, a ≠ .configure session)
    (hstatement : ∀ inForce, a = .statement inForce → ∃ d, phase = .listing d)
    (st : BalancerState) : b.PhaseKept (b.activity e a c st).1 phase := by
  obtain ⟨d, rfl | rfl⟩ := hphase
  · obtain ⟨hsession, hinForce⟩ : Unset c := h
    refine ⟨(activity_session hconfigure c st).trans hsession, ?_⟩
    have ha (inForce : ServerSession) : a ≠ .statement inForce := by
      intro ha
      obtain ⟨d', hd'⟩ := hstatement inForce ha
      cases hd'
    rcases activity_inForce (b := b) (e := e) ha c st with hkept | htaken
    · exact hkept.trans hinForce
    · exact htaken
  · exact (activity_session hconfigure c st).trans h

/-- What a returned connection does to the idle ones. -/
theorem checkin_idle (c : Connection) (st : BalancerState) :
    (b.Stays c st → ∃ link, (b.checkin c st).idle = st.idle ++ [{ c with link := some link }]) ∧
      (¬ b.Stays c st → (b.checkin c st).idle = st.idle) := by
  unfold Balancer.checkin
  cases hlink : c.link with
  | none =>
    have hgoes : ¬ b.Stays c st := by
      rintro ⟨link, hlink', -⟩
      rw [hlink] at hlink'
      cases hlink'
    exact ⟨fun hstays => absurd hstays hgoes, fun _ => (discard_keeps c st).idle⟩
  | some link =>
    have hstays : b.Stays c st ↔ link.pool = b.id ∧ link.broken = false ∧ st.closed = false ∧
        usableAt st.members link.member = true ∧ st.idle.length < b.opts.maxsize := by
      constructor
      · rintro ⟨link', hlink', h⟩
        obtain rfl := Option.some.inj (hlink.symm.trans hlink')
        exact h
      · exact fun h => ⟨link, hlink, h⟩
    have hst := uncount_keeps link st
    dsimp only
    split
    · next hpool =>
      split
      · next hkeep =>
        simp only [Bool.and_eq_true, Bool.not_eq_true', decide_eq_true_eq, hst.idle,
          hst.closed] at hkeep
        obtain ⟨⟨⟨hopen, hsound⟩, husable⟩, hroom⟩ := hkeep
        refine ⟨fun _ => ⟨{ link with out := false }, ?_⟩,
          fun h => absurd (hstays.mpr ⟨hpool, hsound, hopen, husable, hroom⟩) h⟩
        rw [hst.idle]
      · next hkeep =>
        refine ⟨fun h => absurd ?_ hkeep, fun _ => (hst.trans (discard_keeps _ _)).idle⟩
        obtain ⟨-, hsound, hopen, husable, hroom⟩ := hstays.mp h
        simp [hst.idle, hst.closed, hopen, hsound, husable, hroom]
    · next hforeign =>
      exact ⟨fun h => absurd (hstays.mp h).1 hforeign, fun _ => (discard_keeps c st).idle⟩

/-- **One return.** The idle connections have the settings of the pool afterwards if and only
if the returned one has them or is not kept. -/
theorem checkin_settings {c : Connection} {st : BalancerState}
    (hst : ∀ d ∈ st.idle, b.AsGiven d) :
    (∀ d ∈ (b.checkin c st).idle, b.AsGiven d) ↔ (b.Stays c st → b.AsGiven c) := by
  by_cases hstays : b.Stays c st
  · obtain ⟨link, hidle⟩ := (checkin_idle c st).1 hstays
    rw [hidle]
    constructor
    · intro h _
      obtain ⟨hsession, hinForce⟩ :=
        h { c with link := some link } (List.mem_append_right _ List.mem_cons_self)
      exact ⟨hsession, hinForce⟩
    · intro h d hd
      rcases List.mem_append.mp hd with hd | hd
      · exact hst d hd
      · obtain rfl := List.mem_singleton.mp hd
        obtain ⟨hsession, hinForce⟩ := h hstays
        exact ⟨hsession, hinForce⟩
  · rw [(checkin_idle c st).2 hstays]
    exact ⟨fun _ h => absurd h hstays, fun _ => hst⟩

/-- The verdict of a probe whose connection has the settings of the pool leaves only such
connections idle. -/
theorem probeVerdict_settings {now : ℕ} {ep : String} {probed : Option Connection}
    {st : BalancerState} (hprobed : ∀ c, probed = some c → b.AsGiven c)
    (hst : ∀ d ∈ st.idle, b.AsGiven d) :
    ∀ d ∈ (b.probeVerdict now ep probed st).idle, b.AsGiven d := by
  unfold Balancer.probeVerdict
  split
  · exact hst
  · cases probed with
    | none => exact hst
    | some c =>
      dsimp only
      split
      · exact hst
      · split
        · intro d hd
          rcases List.mem_append.mp hd with hd | hd
          · exact hst d hd
          · obtain rfl := List.mem_singleton.mp hd
            obtain ⟨hsession, hinForce⟩ := hprobed c rfl
            exact ⟨hsession, hinForce⟩
        · exact hst

/-- The connections of checkouts have the settings of the pool as far as the checkout has come. -/
def PhasesKept (b : Balancer) (s : System) : Prop :=
  ∀ k ∈ s.checkouts, ∀ c, k.connection = some c → b.PhaseKept c k.phase

/-- The connection of a checkout is as its phase has it. -/
theorem PhasesKept.connection {s : System} (h : b.PhasesKept s) {k : Checkout} {c : Connection}
    {phase : Phase} (hk : k ∈ s.checkouts) (hphase : k.phase = phase)
    (hc : k.connection = some c) : b.PhaseKept c phase := by
  rw [← hphase]
  exact h k hk c hc

/-- A checkout goes on with a connection that is as its next phase has it. -/
theorem PhasesKept.advance {s : System} (h : b.PhasesKept s) (k : Checkout) {phase : Phase}
    (hphase : ∀ c, Checkout.connection { k with phase := phase } = some c →
      b.PhaseKept c phase) : b.PhasesKept (s.advance k phase) := by
  intro k' hk'
  rcases List.mem_cons.mp hk' with rfl | hk'
  · exact hphase
  · exact h k' (List.mem_of_mem_erase hk')

/-- What holds of the connections of checkouts holds once one of them is over. -/
theorem PhasesKept.leave {s : System} (h : b.PhasesKept s) (k : Checkout) :
    b.PhasesKept (s.leave k) := fun k' hk' => h k' (List.mem_of_mem_erase hk')

/-- The state under the lock does not matter to the checkouts that are under way. -/
theorem PhasesKept.setPool {s : System} (h : b.PhasesKept s) (pool : BalancerState) :
    b.PhasesKept { s with pool := pool } := h

/-- Handing a connection out changes neither its settings nor the idle ones. -/
theorem checkoutFinish_asGiven (affinity : Option String) {c : Connection} (h : b.AsGiven c)
    (st : BalancerState) : b.AsGiven (checkoutFinish affinity c st).1 := by
  unfold checkoutFinish
  split
  · exact ⟨h.session, h.inForce⟩
  · exact h

/-- The first section of a checkout takes connections out of the idle ones only. -/
theorem begin_settings {s : System} (h : SettingsKept b s) (hidle : IdleKept b s.pool)
    (affinity : Option String) (attempts : ℕ) :
    SettingsKept b (b.begin e affinity attempts s) := by
  unfold Balancer.begin
  cases hstart : b.checkoutStart e.now e.later affinity s.pool with
  | error err => exact h
  | ok result =>
    obtain ⟨found, pool⟩ := result
    have hstarts := checkoutStart_ok hstart
    dsimp only
    rw [hidle.discard_stale hstart]
    refine ⟨fun c hc => h.idle c (hstarts.idle.mem hc), fun k hk c hc => ?_⟩
    rcases List.mem_cons.mp hk with rfl | hk
    · unfold Checkout.connection at hc
      cases hfound : found.idle with
      | none => simp [hfound] at hc
      | some c' =>
        obtain rfl : c' = c := by simpa [hfound] using hc
        exact h.idle c' (hstarts.found c' hfound)
    · exact h.checkouts k hk c hc

/-- What holds by a phase does not depend on the connection that the phase carries. -/
theorem PhaseKept.withConnection {c d : Connection} {phase : Phase} (h : b.PhaseKept c phase) :
    b.PhaseKept c (phase.withConnection d) := by
  cases phase <;> exact h

/-- A connection with the settings of the pool is as a checkout has it once it is set up. -/
theorem AsGiven.phaseKept {c : Connection} (h : b.AsGiven c) (due : Bool) :
    b.PhaseKept c (if due then .listing c else .settled c) := by
  cases due with
  | true => exact h.session
  | false => exact ⟨h.session, fun _ => h.inForce⟩

/-- **One event** leaves connections idle that have the settings of the pool, when the connection
that is returned, if any, has them or is not kept. -/
theorem step_idleSettings {s : System} (h : SettingsKept b s) (hidle : IdleKept b s.pool)
    (hheld : HeldKept b s) (he : b.Enabled s e)
    (hreturned : ∀ c, e.occurs = .checkin c → b.Stays c s.pool → b.AsGiven c) :
    ∀ c ∈ (b.step s e).pool.idle, b.AsGiven c := by
  obtain ⟨-, -, hpossible⟩ := he
  by_cases hmoves : e.occurs.Moves
  · unfold step
    generalize e.occurs = what at hpossible hmoves hreturned
    cases what with
    | start affinity => exact (begin_settings h hidle affinity 2).idle
    | retry k =>
      obtain ⟨hk, c, link, hphase, -⟩ := hpossible
      have hc : b.Tied false c :=
        hheld.checkouts k hk c (by simp [Checkout.connection, hphase])
      have hleft : SettingsKept b (s.leave k) := ⟨h.idle, PhasesKept.leave h.checkouts k⟩
      simp only [occur, hphase, discard_of_not_out hc.not_out]
      split
      · exact h.idle
      · exact (begin_settings hleft hidle k.affinity _).idle
    | checkin c => exact (checkin_settings h.idle).mpr (hreturned c rfl)
    | checkinForeign c =>
      refine (checkin_settings h.idle).mpr fun hstays => ?_
      obtain ⟨link, hlink, hpool, -⟩ := hstays
      exact absurd hpool (hpossible link hlink)
    | probed ep probed =>
      obtain ⟨-, hprobed⟩ := hpossible
      refine probeVerdict_settings (fun c hc => ?_) h.idle
      obtain ⟨-, -, hsession, hinForce⟩ := hprobed c hc
      have hset := (dialConnection_unset b ep).configured b
      exact ⟨hsession.trans hset.session, hinForce.trans hset.inForce⟩
    | close =>
      simp only [occur, hidle.close]
      exact fun c hc => absurd hc List.not_mem_nil
    | _ => cases hmoves
  · intro c hc
    rw [(step_keepsIdle hmoves).idle] at hc
    exact h.idle c hc

/-- **One event** takes the checkouts on with connections that are as their phases have them, when
the one that served for discovery has the settings of the pool or is broken. -/
theorem step_phasesKept {s : System} (h : SettingsKept b s) (hidle : IdleKept b s.pool)
    (hheld : HeldKept b s) (he : b.Enabled s e)
    (hentered : ∀ k answer c, e.occurs = .listed k answer → k.phase = .listing c → Sound c →
      c.inForce = b.inForce) : b.PhasesKept (b.step s e) := by
  obtain ⟨-, -, hpossible⟩ := he
  have hphases : b.PhasesKept s := h.checkouts
  suffices hoccur : b.PhasesKept (b.occur e s e.occurs) from hoccur
  generalize e.occurs = what at hpossible hentered
  cases what with
  | start affinity => exact (begin_settings h hidle affinity 2).checkouts
  | dialFailed k fault =>
    obtain ⟨hk, ep, rest, hphase⟩ := hpossible
    simp only [occur, hphase]
    split
    · exact (hphases.setPool _).leave k
    · refine (hphases.setPool _).advance k fun c hc => ?_
      cases hc
  | dialed k =>
    obtain ⟨hk, ep, rest, hphase⟩ := hpossible
    simp only [occur, hphase]
    refine hphases.advance k fun c hc => ?_
    obtain rfl := Option.some.inj hc
    exact dialConnection_unset b ep
  | opening k a =>
    obtain ⟨hk, hphase, hconfigure, hstatement⟩ := hpossible
    simp only [occur]
    cases hc : k.connection with
    | none => exact hphases
    | some c =>
      refine (hphases.setPool _).advance k fun d hd => ?_
      rw [connection_withConnection hd]
      refine ((hphases k hk c hc).activity hphase hconfigure (fun inForce ha => ?_)
        s.pool).withConnection
      obtain ⟨c', hlisting, -⟩ := hstatement inForce ha
      exact ⟨c', hlisting⟩
  | opened k =>
    obtain ⟨hk, c, hphase⟩ := hpossible
    have hc : Unset c := hphases.connection hk hphase (by simp [Checkout.connection, hphase])
    simp only [occur, hphase]
    refine (hphases.setPool _).advance k fun d hd => ?_
    rw [connection_opened hd]
    exact (hc.configured b).phaseKept _
  | abandon k =>
    simp only [occur]
    split
    · exact (hphases.setPool _).leave k
    · exact hphases.leave k
  | listed k answer =>
    obtain ⟨hk, c, hphase⟩ := hpossible
    simp only [occur, hphase]
    refine (hphases.setPool _).advance k fun d hd => ?_
    obtain rfl := Option.some.inj hd
    have hc : k.connection = some c := by simp [Checkout.connection, hphase]
    have hsession : c.session = b.settings := hphases.connection hk hphase hc
    exact ⟨hsession, fun hsound => hentered k answer c rfl hphase hsound⟩
  | retry k =>
    obtain ⟨hk, c, link, hphase, -⟩ := hpossible
    have hc : b.Tied false c := hheld.checkouts k hk c (by simp [Checkout.connection, hphase])
    have hleft : SettingsKept b (s.leave k) := ⟨h.idle, hphases.leave k⟩
    simp only [occur, hphase, discard_of_not_out hc.not_out]
    split
    · exact hphases.leave k
    · exact (begin_settings hleft hidle k.affinity _).checkouts
  | finish k =>
    simp only [occur]
    split
    · exact hphases.leave k
    · exact hphases
  | tick read =>
    simp only [occur]
    split <;> exact hphases
  | act c a | checkin c | checkinForeign c | drop c | refresh c answer | refreshFailed
  | probed ep probed | close => exact hphases

/-- **One event.** The settings are kept when the connection that is returned, if any, has
those of the pool or is not kept, and the one that served for discovery has them or is
broken. -/
theorem step_settingsKept {s : System} (h : SettingsKept b s) (hidle : IdleKept b s.pool)
    (hheld : HeldKept b s) (he : b.Enabled s e) (hreturn : b.ReturnsAsGiven s e) :
    SettingsKept b (b.step s e) :=
  ⟨step_idleSettings h hidle hheld he hreturn.returned,
    step_phasesKept h hidle hheld he hreturn.entered⟩

end Kept

/-- What holds of the connections of a pool in every state it reaches while the connections that
are returned, or have served for discovery, have its settings. -/
theorem reaches_settingsKept {b : Balancer} {endpoints : List String} {now : ℕ} {rng : UInt64}
    {s : System} (h : Run b.step (fun s e => b.Enabled s e ∧ b.ReturnsAsGiven s e)
      (fresh endpoints now rng) s) :
    SettingsKept b s ∧ IdleKept b s.pool ∧ HeldKept b s := by
  obtain ⟨hidle, hheld⟩ := reaches_kept (b := b) (s := fresh endpoints now rng) Run.refl
  refine Run.invariant (I := fun s => SettingsKept b s ∧ IdleKept b s.pool ∧ HeldKept b s)
    (fun s e he hs => ?_) h ⟨⟨?_, ?_⟩, hidle, hheld⟩
  · obtain ⟨hset, hidle, hheld⟩ := hs
    have hstep := step_idle hidle hheld he.1
    exact ⟨step_settingsKept hset hidle hheld he.1 he.2, hstep.1.kept hidle, hstep.2⟩
  · exact fun c hc => absurd hc List.not_mem_nil
  · exact fun k hk => absurd hk List.not_mem_nil

/-- A connection that is handed out has the settings of the pool. -/
theorem SettingsKept.finish {b : Balancer} {s : System} (h : SettingsKept b s) {e : Event}
    {k : Checkout} (he : b.Enabled s e) (hfinish : e.occurs = .finish k) :
    ∃ c, (b.step s e).out = c :: s.out ∧ b.AsGiven c := by
  obtain ⟨-, -, hpossible⟩ := he
  rw [hfinish] at hpossible
  obtain ⟨hk, c, hphase⟩ := hpossible
  have hc : k.connection = some c ∧ b.AsGiven c := by
    rcases hphase with hphase | ⟨hphase, hsound⟩
    · have hconnection : k.connection = some c := by simp [Checkout.connection, hphase]
      exact ⟨hconnection, PhasesKept.connection h.checkouts hk hphase hconnection⟩
    · have hconnection : k.connection = some c := by simp [Checkout.connection, hphase]
      exact ⟨hconnection, h.allAsGiven.settled k hk c hphase hsound⟩
  refine ⟨(checkoutFinish k.affinity c s.pool).1, ?_, checkoutFinish_asGiven k.affinity hc.2 _⟩
  simp only [step, hfinish, occur, hc.1, System.leave]

/-- **Settings of pooled connections.** In every run in which each returned connection that is
kept has the settings of the pool, and each sound one that has served for discovery, each
connection that is handed out has them: its client carries the consistency and the database of
the pool and no scan budget, and its server has that database in force and no scan budget. One
event leaves only connections with them to hand out if and only if it meets the condition. -/
theorem handed_out_settings (b : Balancer) (endpoints : List String) (now : ℕ) (rng : UInt64)
    (s : System)
    (hrun : Run b.step (fun s e => b.Enabled s e ∧ b.ReturnsAsGiven s e)
      (fresh endpoints now rng) s) :
    (∀ e k, b.Enabled s e → e.occurs = .finish k →
      ∃ c, (b.step s e).out = c :: s.out ∧ c.session = ⟨b.consistency, b.database, 0⟩ ∧
        c.inForce = ⟨b.database, 0⟩) ∧
    ∀ e, b.Enabled s e → (b.AllAsGiven (b.step s e) ↔ b.ReturnsAsGiven s e) := by
  obtain ⟨hset, hidle, hheld⟩ := reaches_settingsKept hrun
  constructor
  · intro e k he hfinish
    obtain ⟨c, hout, hgiven⟩ := hset.finish he hfinish
    exact ⟨c, hout, hgiven.session, hgiven.inForce⟩
  · intro e he
    constructor
    · intro h
      refine ⟨fun c hcheckin => ?_, fun k answer c hlisted hphase hsound => ?_⟩
      · have hstep : (b.step s e).pool = b.checkin c s.pool := by
          simp only [step, hcheckin, occur]
        have hidle' := h.idle
        rw [hstep] at hidle'
        exact (checkin_settings hset.idle).mp hidle'
      · have hmem : { k with phase := .settled c } ∈ (b.step s e).checkouts := by
          simp only [step, hlisted, occur, hphase, System.advance]
          exact List.mem_cons_self
        exact (h.settled _ hmem c rfl hsound).inForce
    · exact fun hreturn => (step_settingsKept hset hidle hheld he hreturn).allAsGiven

/-! ## A borrower that binds another database -/

/-- A pool whose connections are bound to the database `app`. -/
def bound : Balancer := ⟨0, {}, some "app", .quorum⟩

/-- A connection of the pool to the endpoint `a` whose client carries a database and whose
server has one in force. -/
def boundTo (database inForce : String) (out : Bool) : Connection :=
  ⟨"a", ⟨.quorum, some database, 0⟩, some ⟨0, "a", out, none, false⟩, ⟨some inForce, 0⟩⟩

/-- The events by which a checkout dials a connection, sets it up and gets it. -/
def setUp : List Event :=
  [.start none, .dialed ⟨none, 2, .dialing ["a"]⟩,
    .opened ⟨none, 2, .opening (bound.dialConnection "a")⟩].map fun what => ⟨0, 0, true, what⟩

/-- It is handed out, its borrower binds another database and returns it, and the next
checkout takes it. -/
def rebind : List Event :=
  [.finish ⟨none, 2, .settled (boundTo "app" "app" false)⟩,
    .act (boundTo "app" "app" true) (.configure ⟨.quorum, some "other", 0⟩),
    .act (boundTo "other" "app" true) (.statement ⟨some "other", 0⟩),
    .checkin (boundTo "other" "other" true), .start none].map fun what => ⟨0, 0, true, what⟩

/-- The connection of the examples below is not broken, so a return of it may put it among the idle
ones. -/
theorem boundTo_sound (database inForce : String) (out : Bool) :
    Sound (boundTo database inForce out) := by
  intro link hlink
  obtain rfl := Option.some.inj hlink
  rfl

/-- The events of the first connection can happen, and nothing is returned. -/
theorem setUp_guarded :
    Guarded bound.step (fun s e => bound.Enabled s e ∧ bound.ReturnsAsGiven s e)
      (fresh ["a"] 0 1) setUp :=
  ⟨⟨⟨le_rfl, le_rfl, trivial⟩, fun _ h => (nomatch h), fun _ _ _ h => (nomatch h)⟩,
    ⟨⟨le_rfl, le_rfl, by decide, _, _, rfl⟩, fun _ h => (nomatch h), fun _ _ _ h => (nomatch h)⟩,
    ⟨⟨le_rfl, le_rfl, by decide, _, rfl⟩, fun _ h => (nomatch h), fun _ _ _ h => (nomatch h)⟩,
    trivial⟩

/-- The events of a borrower that binds another database and returns the connection can happen. -/
theorem rebind_guarded :
    Guarded bound.step bound.Enabled (setUp.foldl bound.step (fresh ["a"] 0 1)) rebind :=
  ⟨⟨le_rfl, le_rfl, by decide, _, .inr ⟨rfl, boundTo_sound _ _ _⟩⟩,
    ⟨le_rfl, le_rfl, by decide, fun _ _ h => (nomatch h)⟩,
    ⟨le_rfl, le_rfl, by decide, fun _ _ h => (nomatch h)⟩,
    ⟨le_rfl, le_rfl, List.mem_cons_self⟩, ⟨le_rfl, le_rfl, trivial⟩, trivial⟩

/-- The first connection is handed out with the settings of the pool. -/
theorem handed_out_settings_first :
    ∃ c, (bound.step (setUp.foldl bound.step (fresh ["a"] 0 1))
      ⟨0, 0, true, .finish ⟨none, 2, .settled (boundTo "app" "app" false)⟩⟩).out = [c] ∧
        c.session = ⟨.quorum, some "app", 0⟩ ∧ c.inForce = ⟨some "app", 0⟩ :=
  (handed_out_settings bound ["a"] 0 1 _ setUp_guarded.run).1 _ _
    ⟨le_rfl, le_rfl, by decide, _, .inr ⟨rfl, boundTo_sound _ _ _⟩⟩ rfl

/-- A client that carries the settings of the pool. -/
def borrowed : Session Unit :=
  ((hostSession (answering politeReply) ()).step (answering politeReply) (.useDatabase "app"))

/-- After `use_database` on the first checkout, the second one hands the connection out with
the other database. -/
theorem handed_out_with_other_settings :
    borrowed.world.client.settings = bound.settings ∧
      (borrowed.step (answering politeReply) (.useDatabase "other")).world.client.settings =
        ⟨.quorum, some "other", 0⟩ ∧
      ∃ s e k, bound.Reaches (fresh ["a"] 0 1) s ∧ bound.Enabled s e ∧ e.occurs = .finish k ∧
        (bound.step s e).out = [boundTo "other" "other" true] ∧
          (boundTo "other" "other" true).session ≠ bound.settings ∧
          (boundTo "other" "other" true).inForce ≠ bound.inForce :=
  ⟨by decide, by decide, _,
    ⟨0, 0, true, .finish ⟨none, 2, .reused (boundTo "other" "other" false)⟩⟩, _,
    (setUp_guarded.run.mono fun _ _ h => h.1).trans rebind_guarded.run,
    ⟨le_rfl, le_rfl, by decide, _, .inl rfl⟩, rfl, by decide, by decide, by decide⟩

end Balancer

end Skaidb
