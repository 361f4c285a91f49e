import Skaidb.Pool.System

/-!
# The end of the clock

An instant has 64-bit signed seconds, and adding a duration to it panics past the last one.
The sections of the pool that add a duration are given once more with that addition, and the
pool's events with the panics of their sections. A condition on the options, the clock and the
state before an event says exactly when it does not panic.
-/

namespace Skaidb

open Program

/-- The last instant that the clock can show, beyond which adding a duration panics. -/
def instantMax : ℕ := (2 ^ 63 - 1) * 10 ^ 9 + 999999999

/-- `Instant + Duration`: the later instant, or nothing where the addition panics. -/
def instantAdd (t d : ℕ) : Option ℕ := if t + d ≤ instantMax then some (t + d) else none

namespace Balancer

/-! ## Sections that add a duration -/

section Sections

variable (b : Balancer)

/-- `ejectMember`, which panics when the end of the ejection is beyond the clock. -/
def ejectMember? (now : ℕ) (m : Member) : Option Member := do
  let old := if m.readmittedAt.all (now - · > b.opts.ejectBackoffMax) then 0 else m.ejections
  let ejections := saturatingSucc old
  let until_ ← instantAdd now (b.backoffFor ejections)
  some { m with ejections := ejections, ejectedUntil := some until_ }

/-- Take a member out of rotation, unless it is the last usable one. -/
def eject? (now : ℕ) (spawned : Bool) (ep : String) (st : BalancerState) :
    Option BalancerState :=
  if st.members.entries.any fun e => e.1 != ep && e.2.usable then
    match st.members.get? ep with
    | some m => do
      let m ← b.ejectMember? now m
      some (ensureMaintainer spawned { st with members := st.members.modify ep fun _ => m })
    | none => some st
  else some st

/-- `failed` with the panic of the ejection that it may end in. -/
def failed? (now : ℕ) (spawned : Bool) (ep : String) (st : BalancerState) :
    Option BalancerState :=
  match st.members.get? ep with
  | none => some st
  | some m =>
    let st := { st with
      members := st.members.modify ep fun m => { m with errors := saturatingSucc m.errors } }
    if saturatingSucc m.errors ≥ b.opts.ejectErrors ∧ m.ejectedUntil = none then
      b.eject? now spawned ep st
    else some st

/-- A round trip of a connection: its member is measured and may prove too slow. -/
def roundTrip? (now : ℕ) (spawned : Bool) (elapsed : ℕ) (link : PoolLink) (connected : String)
    (st : BalancerState) : Option (PoolLink × BalancerState) :=
  let (link, st) := reattribute link connected st
  match st.members.get? connected with
  | none => some (link, st)
  | some m =>
    let st := { st with members := st.members.modify connected (b.measure now elapsed) }
    if b.tooSlow st.members connected (b.measure now elapsed m) then do
      let st ← b.eject? now spawned connected st
      some (link, st)
    else some (link, st)

/-- `wrote` with the panic of the end of the window that it computes. -/
def wrote? (now : ℕ) (affinity : Option String) (connected : String) (st : BalancerState) :
    Option BalancerState := do
  let kept := if st.affinity.entries.length ≥ affinityCap then
      st.affinity.alter fun _ v => if v.2 > now then some v else none
    else st.affinity
  let until_ ← instantAdd now b.opts.readYourWrites
  some { st with affinity := kept.insert affinity (connected, until_) }

/-- The failure of a probe with the panic of the next end of the ejection. -/
def prolong? (now : ℕ) (m : Member) : Option Member := do
  let ejections := saturatingSucc m.ejections
  let until_ ← instantAdd now (b.backoffFor ejections)
  some { m with probing := false, ejections := ejections, ejectedUntil := some until_ }

/-- `probeVerdict`, which panics when the end of a new ejection is beyond the clock. -/
def probeVerdict? (now : ℕ) (ep : String) (probed : Option Connection) (st : BalancerState) :
    Option BalancerState :=
  match st.members.get? ep with
  | none => some st
  | some m =>
    if probed.isSome && !st.closed then some (b.probeVerdict now ep probed st)
    else do
      let m ← b.prolong? now m
      some { st with members := st.members.modify ep fun _ => m }

/-- Fold an answer into the members and schedule the next refresh. -/
def foldListing? (now : ℕ) (dialed : String) (rows : List (List Value)) (st : BalancerState) :
    Option BalancerState := do
  let members := applyListing st.members dialed rows
  let notReady := members.entries.any fun e =>
    e.2.listed = .resyncing || e.2.listed = .unreachable
  let every := if notReady then min b.opts.refreshInterval refreshNotReady
    else b.opts.refreshInterval
  let next ← instantAdd now every
  some { st with members := members, nextRefresh := next }

/-- `listThrough`, which panics when the next refresh is beyond the clock. -/
def listThrough? (now : ℕ) (dialed : String) (answer : Except DriverError Response)
    (st : BalancerState) : Option BalancerState :=
  match answer with
  | .ok (.rows _ (row :: rows)) => b.foldListing? now dialed (row :: rows) st
  | answer => some (b.listThrough now dialed answer st)

/-- `refreshFailed`, which panics when the next refresh is beyond the clock. -/
def refreshFailed? (now : ℕ) (st : BalancerState) : Option BalancerState := do
  let next ← instantAdd now b.opts.refreshInterval
  some { st with nextRefresh := next }

/-- What an activity does to the connection and to its pool. -/
def activity? (e : Event) :
    Activity → Connection → BalancerState → Option (Connection × BalancerState)
  | .roundTrip elapsed, c, st =>
    match c.link with
    | some link => do
      let (link, st) ← b.roundTrip? e.now e.spawned elapsed { link with broken := false }
        c.connected st
      some ({ c with link := some link }, st)
    | none => some (c, st)
  | .failed, c, st =>
    match c.link with
    | some link => do
      let st ← b.failed? e.now e.spawned c.connected st
      some ({ c with link := some { link with broken := true } }, st)
    | none => some (c, st)
  | .redialFailed ep, c, st =>
    if c.link.isSome then do
      let st ← b.failed? e.now e.spawned ep st
      some (c, st)
    else some (c, st)
  | .succeeded sql read, c, st =>
    match c.link with
    | some link =>
      if link.out && b.readYourWrites && isWrite sql then do
        let st ← b.wrote? read link.affinity c.connected st
        some (c, st)
      else some (c, st)
    | none => some (c, st)
  | a, c, st => some (b.activity e a c st)

/-- `occur`, which panics where a section of the event adds a duration that the clock has no room
for. -/
def occur? (e : Event) (s : System) : Section → Option System
  | .dialFailed k fault =>
    match k.phase with
    | .dialing (ep :: rest) => do
      let pool ← if fault then b.failed? e.now e.spawned ep s.pool else some s.pool
      let s := { s with pool := pool }
      some (if rest.isEmpty then s.leave k else s.advance k (.dialing rest))
    | _ => some s
  | .opening k a =>
    match k.connection with
    | some c => do
      let (c, pool) ← b.activity? e a c s.pool
      some (({ s with pool := pool } : System).advance k (k.phase.withConnection c))
    | none => some s
  | .listed k answer =>
    match k.phase with
    | .listing c => do
      let pool ← b.listThrough? e.now c.connected answer s.pool
      some (({ s with pool := pool } : System).advance k (.settled c))
    | _ => some s
  | .act c a => do
    let (c', pool) ← b.activity? e a c s.pool
    some { s with pool := pool, out := c' :: s.out.erase c }
  | .refresh c answer => do
    let pool ← b.listThrough? e.now c.connected answer s.pool
    some { s with pool := pool }
  | .refreshFailed => do
    let pool ← b.refreshFailed? e.now s.pool
    some { s with pool := pool }
  | .probed ep probed => do
    let pool ← b.probeVerdict? e.now ep probed s.pool
    some { s with pool := pool, probes := s.probes.erase ep }
  | other => some (b.occur e s other)

/-- One event with the panics of its section, nothing when it panics. -/
def step? (s : System) (e : Event) : Option System := do
  let s ← b.occur? e s e.occurs
  some { s with clock := e.later }

end Sections

/-! ## When there is room -/

section Room

variable (b : Balancer)

/-- The number of the next ejection of a member in a row. -/
def nextEjection (now : ℕ) (m : Member) : ℕ :=
  saturatingSucc (if m.readmittedAt.all (now - · > b.opts.ejectBackoffMax) then 0 else m.ejections)

/-- The clock has room for the next ejection of a member that another usable one can stand in
for. -/
def EjectRoom (now : ℕ) (ep : String) (st : BalancerState) : Prop :=
  (st.members.entries.any fun e => e.1 != ep && e.2.usable) = true →
    ∀ m, st.members.get? ep = some m → now + b.backoffFor (b.nextEjection now m) ≤ instantMax

/-- The clock has room for the ejection that one more failure brings about. -/
def FailedRoom (now : ℕ) (ep : String) (st : BalancerState) : Prop :=
  ∀ m, st.members.get? ep = some m →
    saturatingSucc m.errors ≥ b.opts.ejectErrors ∧ m.ejectedUntil = none →
    b.EjectRoom now ep { st with
      members := st.members.modify ep fun m => { m with errors := saturatingSucc m.errors } }

/-- The clock has room for the ejection of a member that a round trip proves too slow. -/
def RoundTripRoom (now elapsed : ℕ) (link : PoolLink) (connected : String)
    (st : BalancerState) : Prop :=
  let st := (reattribute link connected st).2
  let members := st.members.modify connected (b.measure now elapsed)
  ∀ m, st.members.get? connected = some m →
    b.tooSlow members connected (b.measure now elapsed m) = true →
    b.EjectRoom now connected { st with members := members }

/-- The clock has room for the backoff after a failed probe. -/
def ProbeRoom (now : ℕ) (ep : String) (probed : Option Connection) (st : BalancerState) : Prop :=
  ∀ m, st.members.get? ep = some m → ¬ (probed.isSome && !st.closed) = true →
    now + b.backoffFor (saturatingSucc m.ejections) ≤ instantMax

/-- The time until the next refresh after an answer with these rows. -/
def refreshAfter (dialed : String) (rows : List (List Value)) (st : BalancerState) : ℕ :=
  if (applyListing st.members dialed rows).entries.any fun e =>
      e.2.listed = .resyncing || e.2.listed = .unreachable
    then min b.opts.refreshInterval refreshNotReady
  else b.opts.refreshInterval

/-- The clock has room for the time until the next refresh after an answer with members. -/
def ListRoom (now : ℕ) (dialed : String) (answer : Except DriverError Response)
    (st : BalancerState) : Prop :=
  match answer with
  | .ok (.rows _ (row :: rows)) => now + b.refreshAfter dialed (row :: rows) st ≤ instantMax
  | _ => True

/-- The clock has room for what an activity adds to it. -/
def ActivityRoom (e : Event) : Activity → Connection → BalancerState → Prop
  | .roundTrip elapsed, c, st => ∀ link, c.link = some link →
    b.RoundTripRoom e.now elapsed { link with broken := false } c.connected st
  | .failed, c, st => c.link.isSome = true → b.FailedRoom e.now c.connected st
  | .redialFailed ep, c, st => c.link.isSome = true → b.FailedRoom e.now ep st
  | .succeeded sql read, c, _ => ∀ link, c.link = some link →
    (link.out && b.readYourWrites && isWrite sql) = true →
    read + b.opts.readYourWrites ≤ instantMax
  | _, _, _ => True

/-- The clock has room for what a section adds to it. -/
def SectionRoom (e : Event) (s : System) : Section → Prop
  | .dialFailed k fault => ∀ ep rest, k.phase = .dialing (ep :: rest) → fault = true →
    b.FailedRoom e.now ep s.pool
  | .opening k a => ∀ c, k.connection = some c → b.ActivityRoom e a c s.pool
  | .listed k answer => ∀ c, k.phase = .listing c → b.ListRoom e.now c.connected answer s.pool
  | .act c a => b.ActivityRoom e a c s.pool
  | .refresh c answer => b.ListRoom e.now c.connected answer s.pool
  | .refreshFailed => e.now + b.opts.refreshInterval ≤ instantMax
  | .probed ep probed => b.ProbeRoom e.now ep probed s.pool
  | _ => True

/-- The clock has room for what an event adds to it. -/
def Roomy (s : System) (e : Event) : Prop := b.SectionRoom e s e.occurs

end Room

/-! ## A panic is a lack of room -/

section Checks

variable {b : Balancer}

/-- Adding a duration panics past the last instant only. -/
theorem instantAdd_checks (t d : ℕ) : Checks (instantAdd t d) (t + d) (t + d ≤ instantMax) := by
  unfold instantAdd
  exact ⟨fun h => if_pos h, fun h => if_neg h⟩

/-- An ejection panics when the clock has no room for it. -/
theorem eject?_checks (now : ℕ) (spawned : Bool) (ep : String) (st : BalancerState) :
    Checks (b.eject? now spawned ep st) (b.eject now spawned ep st) (b.EjectRoom now ep st) := by
  unfold eject? eject EjectRoom
  refine Checks.imp (fun hother => ?_) fun hother => ?_
  · rw [if_pos hother, if_pos hother]
    cases hm : st.members.get? ep with
    | none => exact Checks.absent
    | some m =>
      have hadd := ((instantAdd_checks now (b.backoffFor (b.nextEjection now m))).map fun t =>
        { m with ejections := b.nextEjection now m, ejectedUntil := some t }).map fun m =>
          ensureMaintainer spawned { st with members := st.members.modify ep fun _ => m }
      have hmodify := OrdMap.modify_congr hm (f := b.ejectMember now)
        (g := fun _ => b.ejectMember now m) rfl
      simp only [Option.some.injEq, forall_eq', hmodify]
      exact hadd
  · rw [if_neg hother, if_neg hother]

/-- A failure panics when the clock has no room for the ejection. -/
theorem failed?_checks (now : ℕ) (spawned : Bool) (ep : String) (st : BalancerState) :
    Checks (b.failed? now spawned ep st) (b.failed now spawned ep st)
      (b.FailedRoom now ep st) := by
  unfold failed? failed FailedRoom
  cases hm : st.members.get? ep with
  | none => exact Checks.absent
  | some m =>
    simp only [Option.some.injEq, forall_eq']
    refine Checks.imp (fun heject => ?_) fun heject => ?_
    · rw [if_pos heject, if_pos heject]
      exact eject?_checks now spawned ep _
    · rw [if_neg heject, if_neg heject]

/-- A round trip panics when the clock has no room for the ejection. -/
theorem roundTrip?_checks (now : ℕ) (spawned : Bool) (elapsed : ℕ) (link : PoolLink)
    (connected : String) (st : BalancerState) :
    Checks (b.roundTrip? now spawned elapsed link connected st)
      (b.roundTrip now spawned elapsed link connected st)
      (b.RoundTripRoom now elapsed link connected st) := by
  unfold roundTrip? roundTrip RoundTripRoom
  generalize reattribute link connected st = moved
  obtain ⟨link, st⟩ := moved
  dsimp only
  cases hm : st.members.get? connected with
  | none => exact Checks.absent
  | some m =>
    simp only [Option.some.injEq, forall_eq']
    refine Checks.imp (fun hslow => ?_) fun hslow => ?_
    · rw [if_pos hslow, if_pos hslow]
      exact (eject?_checks now spawned connected _).map fun st => (link, st)
    · rw [if_neg hslow, if_neg hslow]

/-- A write panics when the clock has no room for its window. -/
theorem wrote?_checks (now : ℕ) (affinity : Option String) (connected : String)
    (st : BalancerState) :
    Checks (b.wrote? now affinity connected st) (b.wrote now affinity connected st)
      (now + b.opts.readYourWrites ≤ instantMax) :=
  (instantAdd_checks now b.opts.readYourWrites).map _

/-- The verdict of a probe panics when the clock has no room for the backoff. -/
theorem probeVerdict?_checks (now : ℕ) (ep : String) (probed : Option Connection)
    (st : BalancerState) :
    Checks (b.probeVerdict? now ep probed st) (b.probeVerdict now ep probed st)
      (b.ProbeRoom now ep probed st) := by
  unfold probeVerdict? ProbeRoom
  cases hm : st.members.get? ep with
  | none =>
    have hsame : b.probeVerdict now ep probed st = st := by
      unfold probeVerdict
      rw [hm]
    rw [hsame]
    exact Checks.absent
  | some m =>
    simp only [Option.some.injEq, forall_eq']
    refine Checks.imp (fun hout => ?_) fun hin => ?_
    · rw [if_neg hout]
      have hadd := ((instantAdd_checks now (b.backoffFor (saturatingSucc m.ejections))).map fun t =>
        { m with probing := false, ejections := saturatingSucc m.ejections
                 ejectedUntil := some t }).map fun m =>
          { st with members := st.members.modify ep fun _ => m }
      have hmodify := OrdMap.modify_congr hm (f := b.prolong now)
        (g := fun _ => b.prolong now m) rfl
      have hverdict : b.probeVerdict now ep probed st =
          { st with members := st.members.modify ep (b.prolong now) } := by
        unfold probeVerdict
        rw [hm]
        cases probed with
        | none => rfl
        | some c => simp_all
      rw [hverdict, hmodify]
      exact hadd
    · rw [if_pos (not_not.mp hin)]

/-- An answer panics when the clock has no room for the time until the next refresh. -/
theorem listThrough?_checks (now : ℕ) (dialed : String) (answer : Except DriverError Response)
    (st : BalancerState) :
    Checks (b.listThrough? now dialed answer st) (b.listThrough now dialed answer st)
      (b.ListRoom now dialed answer st) := by
  unfold listThrough? ListRoom
  split
  · next columns row rows =>
    exact (instantAdd_checks now (b.refreshAfter dialed (row :: rows) st)).map fun next =>
      { st with members := applyListing st.members dialed (row :: rows), nextRefresh := next }
  · exact Checks.vacuous trivial

/-- A failed refresh panics when the clock has no room for the time until the next one. -/
theorem refreshFailed?_checks (now : ℕ) (st : BalancerState) :
    Checks (b.refreshFailed? now st) (b.refreshFailed now st)
      (now + b.opts.refreshInterval ≤ instantMax) :=
  (instantAdd_checks now b.opts.refreshInterval).map _

/-- An activity panics when the clock has no room for what it adds. -/
theorem activity?_checks (e : Event) (a : Activity) (c : Connection) (st : BalancerState) :
    Checks (b.activity? e a c st) (b.activity e a c st) (b.ActivityRoom e a c st) := by
  cases a with
  | roundTrip elapsed =>
    simp only [activity?, activity, ActivityRoom]
    cases hlink : c.link with
    | none => exact Checks.absent
    | some link =>
      simp only [Option.some.injEq, forall_eq']
      exact (roundTrip?_checks e.now e.spawned elapsed { link with broken := false } c.connected
        st).map fun r => ({ c with link := some r.1 }, r.2)
  | failed =>
    simp only [activity?, activity, ActivityRoom]
    cases hlink : c.link with
    | none => exact Checks.vacuous fun hsome => absurd hsome Bool.false_ne_true
    | some link =>
      simp only [Option.isSome_some, forall_const]
      exact (failed?_checks e.now e.spawned c.connected st).map fun st =>
        ({ c with link := some { link with broken := true } }, st)
  | redialFailed ep =>
    simp only [activity?, activity, ActivityRoom]
    refine Checks.imp (fun hlink => ?_) fun hlink => ?_
    · rw [if_pos hlink, if_pos hlink]
      exact (failed?_checks e.now e.spawned ep st).map fun st => (c, st)
    · rw [if_neg hlink, if_neg hlink]
  | succeeded sql read =>
    simp only [activity?, activity, ActivityRoom]
    cases hlink : c.link with
    | none => exact Checks.absent
    | some link =>
      simp only [Option.some.injEq, forall_eq']
      refine Checks.imp (fun hwrite => ?_) fun hwrite => ?_
      · rw [if_pos hwrite, if_pos hwrite]
        exact (wrote?_checks read link.affinity c.connected st).map fun st => (c, st)
      · rw [if_neg hwrite, if_neg hwrite]
  | redial | moved ep | configure session | statement inForce => exact Checks.vacuous trivial

/-- An event panics when the clock has no room for what it adds. -/
theorem occur?_checks (e : Event) (s : System) (what : Section) :
    Checks (b.occur? e s what) (b.occur e s what) (b.SectionRoom e s what) := by
  cases what with
  | dialFailed k fault =>
    simp only [occur?, occur, SectionRoom]
    cases k.phase with
    | dialing order =>
      cases order with
      | nil => exact Checks.vacuous fun ep rest hphase => by simp at hphase
      | cons ep rest =>
        simp only [Phase.dialing.injEq, List.cons.injEq, and_imp, forall_apply_eq_imp_iff,
          forall_eq']
        refine Checks.imp (fun hfault => ?_) fun hfault => ?_
        · rw [if_pos hfault, if_pos hfault]
          exact (failed?_checks e.now e.spawned ep s.pool).map fun pool =>
            if rest.isEmpty then ({ s with pool := pool } : System).leave k
            else ({ s with pool := pool } : System).advance k (.dialing rest)
        · rw [if_neg hfault, if_neg hfault]
          rfl
    | reused c | opening c | listing c | settled c =>
      exact Checks.vacuous fun ep rest hphase => by simp at hphase
  | opening k a =>
    simp only [occur?, occur, SectionRoom]
    cases k.connection with
    | none => exact Checks.absent
    | some c =>
      simp only [Option.some.injEq, forall_eq']
      exact (activity?_checks e a c s.pool).map fun r =>
        ({ s with pool := r.2 } : System).advance k (k.phase.withConnection r.1)
  | listed k answer =>
    simp only [occur?, occur, SectionRoom]
    cases k.phase with
    | listing c =>
      simp only [Phase.listing.injEq, forall_eq']
      exact (listThrough?_checks e.now c.connected answer s.pool).map fun pool =>
        ({ s with pool := pool } : System).advance k (.settled c)
    | dialing order => exact Checks.vacuous fun c hphase => by simp at hphase
    | reused c | opening c | settled c => exact Checks.vacuous fun c hphase => by simp at hphase
  | act c a =>
    exact (activity?_checks e a c s.pool).map fun r =>
      { s with pool := r.2, out := r.1 :: s.out.erase c }
  | refresh c answer =>
    exact (listThrough?_checks e.now c.connected answer s.pool).map fun pool =>
      { s with pool := pool }
  | refreshFailed =>
    exact (refreshFailed?_checks e.now s.pool).map fun pool => { s with pool := pool }
  | probed ep probed =>
    exact (probeVerdict?_checks e.now ep probed s.pool).map fun pool =>
      { s with pool := pool, probes := s.probes.erase ep }
  | _ => exact Checks.vacuous trivial

/-- A step panics when the clock has no room for what it adds. -/
theorem step?_checks (s : System) (e : Event) :
    Checks (b.step? s e) (b.step s e) (b.Roomy s e) := by
  have hoccur := occur?_checks (b := b) e s e.occurs
  exact hoccur.map fun s => { s with clock := e.later }

end Checks

/-! ## Options that leave room -/

section Bounded

variable {b : Balancer}

/-- The longest time a member can be ejected for. -/
def longestBackoff (b : Balancer) : ℕ :=
  min (b.opts.ejectBackoff * (2 ^ 32 - 1)) b.opts.ejectBackoffMax

/-- The clock has room at an instant for every duration the options allow. -/
structure Bounded (b : Balancer) (t : ℕ) : Prop where
  /-- The window after a write. -/
  readYourWrites : b.readYourWrites = true → t + b.opts.readYourWrites ≤ instantMax
  /-- The time between refreshes. -/
  refreshInterval : t + b.opts.refreshInterval ≤ instantMax
  /-- The clock has room for the longest backoff. -/
  backoff : t + b.longestBackoff ≤ instantMax

/-- The readings of the clock an event adds to. -/
def readings (e : Event) : List ℕ :=
  match e.occurs with
  | .act _ (.succeeded _ read) | .opening _ (.succeeded _ read) => [e.now, read]
  | _ => [e.now]

/-- An ejection lasts at most the longest one, which keeps the arithmetic on the clock within a
bound of the options. -/
theorem backoffFor_le (ejections : ℕ) : b.backoffFor ejections ≤ b.longestBackoff := by
  unfold backoffFor longestBackoff
  have hmul : b.opts.ejectBackoff * min (2 ^ (ejections - 1)) (2 ^ 32 - 1) ≤
      b.opts.ejectBackoff * (2 ^ 32 - 1) := Nat.mul_le_mul_left _ (Nat.min_le_right _ _)
  exact le_min ((min_le_left _ _).trans ((min_le_left _ _).trans hmul)) (min_le_right _ _)

/-- Options with bounded durations leave room on the clock for every ejection. -/
theorem Bounded.ejectRoom {t : ℕ} (h : b.Bounded t) (ep : String) (st : BalancerState) :
    b.EjectRoom t ep st :=
  fun _ _ _ => (Nat.add_le_add_left (backoffFor_le _) t).trans h.backoff

/-- Bounded options leave room for what an answer adds. -/
theorem Bounded.listRoom {t : ℕ} (h : b.Bounded t) (dialed : String)
    (answer : Except DriverError Response) (st : BalancerState) :
    b.ListRoom t dialed answer st := by
  unfold ListRoom
  split
  · next columns row rows =>
    have hafter : b.refreshAfter dialed (row :: rows) st ≤ b.opts.refreshInterval := by
      unfold refreshAfter
      split
      · exact min_le_left _ _
      · exact le_rfl
    exact (Nat.add_le_add_left hafter t).trans h.refreshInterval
  · trivial

/-- Bounded options leave room for what an activity adds. -/
theorem Bounded.activityRoom {e : Event} {a : Activity} (h : b.Bounded e.now)
    (hread : ∀ sql read, a = .succeeded sql read → b.Bounded read) (c : Connection)
    (st : BalancerState) : b.ActivityRoom e a c st := by
  cases a with
  | roundTrip elapsed => exact fun _ _ _ _ _ => h.ejectRoom _ _
  | failed => exact fun _ _ _ _ => h.ejectRoom _ _
  | redialFailed ep => exact fun _ _ _ _ => h.ejectRoom _ _
  | succeeded sql read =>
    intro link _ hwrite
    simp only [Bool.and_eq_true] at hwrite
    exact (hread sql read rfl).readYourWrites hwrite.1.2
  | redial | moved ep | configure session | statement inForce => exact trivial

/-- Options with bounded durations leave room on the clock for whatever an event adds. -/
theorem Bounded.roomy {e : Event} (h : ∀ t ∈ readings e, b.Bounded t) (s : System) :
    b.Roomy s e := by
  have hnow : b.Bounded e.now := h e.now (by unfold readings; split <;> simp)
  unfold Roomy
  cases hoccurs : e.occurs with
  | dialFailed k fault => exact fun _ _ _ _ _ _ _ => hnow.ejectRoom _ _
  | opening k a =>
    refine fun c _ => hnow.activityRoom (fun sql read ha => h read ?_) c s.pool
    simp [readings, hoccurs, ha]
  | listed k answer => exact fun c _ => hnow.listRoom _ _ _
  | act c a =>
    refine hnow.activityRoom (fun sql read ha => h read ?_) c s.pool
    simp [readings, hoccurs, ha]
  | refresh c answer => exact hnow.listRoom _ _ _
  | refreshFailed => exact hnow.refreshInterval
  | probed ep probed =>
    exact fun m _ _ => (Nat.add_le_add_left (backoffFor_le _) e.now).trans hnow.backoff
  | _ => exact trivial

end Bounded

/-- **The end of the clock.** A run of a pool meets no panic exactly when every event finds
room on the clock for the duration it adds; options that the clock has room for at every
reading are enough. -/
theorem run_panics_iff (b : Balancer) (endpoints : List String) (start : ℕ) (rng : UInt64)
    (events : List Event) :
    ((∃ s, events.foldlM b.step? (fresh endpoints start rng) = some s) ↔
      Guarded b.step b.Roomy (fresh endpoints start rng) events) ∧
    ((∀ e ∈ events, ∀ t ∈ readings e, b.Bounded t) →
      events.foldlM b.step? (fresh endpoints start rng) =
        some (events.foldl b.step (fresh endpoints start rng))) := by
  have hrun := Checks.foldlM (step?_checks (b := b)) (fresh endpoints start rng) events
  refine ⟨⟨?_, fun hroom => ⟨_, hrun.1 hroom⟩⟩, fun hbounded => hrun.1 ?_⟩
  · rintro ⟨s, hs⟩
    by_contra hroom
    rw [hrun.2 hroom] at hs
    cases hs
  · exact Guarded.ofForall _ fun e he s => Bounded.roomy (hbounded e he) s

/-- A pool whose checkouts are to follow writes forever; its other options are the defaults. -/
def forever : Balancer := ⟨0, { readYourWrites := durationMax }, none, .quorum⟩

/-- A checkout of the pool that dialled a member. -/
def forever.checkout (phase : Phase) : Checkout := ⟨none, 2, phase⟩

/-- The connection that the checkout got, tied to the pool and in its borrower's hands. -/
def forever.connection : Connection :=
  (checkoutFinish none (forever.configured (forever.dialConnection "a"))
    (Balancer.start ["a"] 0 1)).1

/-- A connection is checked out and a write on it succeeds. -/
def forever.events : List Event :=
  [.start none, .dialed (checkout (.dialing ["a"])),
    .opened (checkout (.opening (forever.dialConnection "a"))),
    .finish (checkout (.settled (forever.configured (forever.dialConnection "a")))),
    .act connection (.succeeded "INSERT INTO t VALUES (1)" 0)].map (⟨0, 0, true, ·⟩)

/-- The events up to the ejection without an end can occur one after another. -/
theorem forever.events_enabled :
    Guarded forever.step forever.Enabled (fresh ["a"] 0 1) forever.events := by
  refine ⟨⟨le_rfl, le_rfl, trivial⟩, ⟨le_rfl, le_rfl, by decide, _, _, rfl⟩,
    ⟨le_rfl, le_rfl, by decide, _, rfl⟩, ⟨le_rfl, le_rfl, by decide, _, .inr ⟨rfl, ?_⟩⟩,
    ⟨le_rfl, le_rfl, by decide, ?_⟩, trivial⟩
  · intro link hlink
    cases hlink
    rfl
  · intro sql read hread
    cases hread
    exact le_rfl

/-- The first write panics after it succeeded, although the pool is built whenever one with the
default options is. -/
theorem forever_panics :
    forever.build ["a"] 0 1 = Balancer.build ⟨0, {}, none, .quorum⟩ ["a"] 0 1 ∧
      Guarded forever.step forever.Enabled (fresh ["a"] 0 1) forever.events ∧
      ((forever.events.take 4).foldlM forever.step? (fresh ["a"] 0 1)).isSome = true ∧
      forever.events.foldlM forever.step? (fresh ["a"] 0 1) = none := by
  refine ⟨rfl, forever.events_enabled, by decide, ?_⟩
  exact Option.isNone_iff_eq_none.mp (by decide)

end Balancer

end Skaidb
