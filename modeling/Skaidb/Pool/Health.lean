import Skaidb.Pool.Balancer
import Skaidb.Pool.Listing
import Skaidb.Pool.Writes
import Skaidb.Types.Key

/-!
# Balanced pools: reports, ejection and discovery

What connections report to their pool and what the background thread does, again one
definition for each section under the lock. Whether a thread can be started is an argument
of the sections that start one.
-/

namespace Skaidb

/-! ## Floats -/

/-- The lesser of two floats; a number before what is none. -/
def f64Min (a b : Float) : Float :=
  if a.isNaN then b else if b.isNaN then a else if a ≤ b then a else b

/-- The greater of two floats; a number before what is none. -/
def f64Max (a b : Float) : Float :=
  if a.isNaN then b else if b.isNaN then a else if a ≤ b then b else a

/-- The total order of floats, in which those that are no numbers have their places too. -/
def f64TotalLe (a b : Float) : Bool := signMagnitude a.toBits ≤ signMagnitude b.toBits

/-- Round trips whose fastest one seeds the average. -/
def ewmaSeedSamples : ℕ := 3

/-- The weight of a round trip in the average. -/
def ewmaWeight : Float := 0.05

/-- How many times the average a round trip counts at most. -/
def ewmaClamp : Float := 10.0

/-- Round trips a member needs before its average can eject it. -/
def ewmaMinSamples : ℕ := 10

/-- The largest number of affinity keys before the expired ones are swept. -/
def affinityCap : ℕ := 4096

/-- How soon discovery reads the members again while one is not ready. -/
def refreshNotReady : ℕ := 5 * 10 ^ 9

/-- The longest duration that there is, at which multiplications stop. -/
def durationMax : ℕ := (2 ^ 64 - 1) * 10 ^ 9 + 999999999

namespace Balancer

/-! ## Reports -/

section Reports

variable (b : Balancer)

/-- The connection behind a link reached an endpoint: while checked out it counts against
that member. -/
def reattribute (link : PoolLink) (connected : String) (st : BalancerState) :
    PoolLink × BalancerState :=
  if link.member = connected then (link, st)
  else
    let members := if link.out then
        (st.members.modify link.member Member.free).modify connected Member.claim
      else st.members
    ({ link with member := connected }, { st with members := members })

/-- Start the background thread, unless it runs or the pool is closed. -/
def ensureMaintainer (spawned : Bool) (st : BalancerState) : BalancerState :=
  if st.maintainer || st.closed then st else { st with maintainer := spawned }

/-- The length of the given ejection in a row. -/
def backoffFor (ejections : ℕ) : ℕ :=
  let doublings := min (2 ^ (ejections - 1)) (2 ^ 32 - 1)
  min (min (b.opts.ejectBackoff * doublings) durationMax) b.opts.ejectBackoffMax

/-- The record of a member when it is ejected, for longer the more often this happened in a row. -/
def ejectMember (now : ℕ) (m : Member) : Member :=
  -- Healthy for a while: the backoff starts over.
  let old := if m.readmittedAt.all (now - · > b.opts.ejectBackoffMax) then 0 else m.ejections
  let ejections := saturatingSucc old
  { m with ejections := ejections, ejectedUntil := some (now + b.backoffFor ejections) }

/-- Take a member out of rotation, unless it is the last usable one. -/
def eject (now : ℕ) (spawned : Bool) (ep : String) (st : BalancerState) : BalancerState :=
  if st.members.entries.any fun e => e.1 != ep && e.2.usable then
    match st.members.get? ep with
    | some _ =>
      ensureMaintainer spawned { st with members := st.members.modify ep (b.ejectMember now) }
    | none => st
  else st

/-- `failed`: a transport failure counts against its member, which is ejected when there were
enough. -/
def failed (now : ℕ) (spawned : Bool) (ep : String) (st : BalancerState) : BalancerState :=
  match st.members.get? ep with
  | none => st
  | some m =>
    let st := { st with
      members := st.members.modify ep fun m => { m with errors := saturatingSucc m.errors } }
    if saturatingSucc m.errors ≥ b.opts.ejectErrors ∧ m.ejectedUntil = none then
      b.eject now spawned ep st
    else st

/-- The average and the first round trips after one more of them. -/
def average (elapsed : ℕ) (m : Member) : Option Float × List Float :=
  let floor := asSecsF64 b.opts.ejectLatencyFloor
  let sample := asSecsF64 elapsed
  match m.ewma with
  | none =>
    let firsts := m.firsts ++ [sample]
    if firsts.length ≥ ewmaSeedSamples then
      (firsts.tail.foldl (fun acc x => acc.map (f64Min · x)) firsts.head?, [])
    else (none, firsts)
  | some avg =>
    let clamped := f64Min sample (ewmaClamp * f64Max avg floor)
    (some (avg + ewmaWeight * (clamped - avg)), m.firsts)

/-- What `round_trip` makes of a member's record with the time that a round trip took. -/
def measure (now elapsed : ℕ) (m : Member) : Member :=
  { m with
    ewma := (b.average elapsed m).1
    firsts := (b.average elapsed m).2
    errors := 0
    samples := saturatingSucc m.samples
    lastSample := some now }

/-- The averages of the other measured members in rotation. -/
def otherLatencies (members : Members) (ep : String) : List Float :=
  (members.entries.filter fun e =>
    e.1 != ep && e.2.usable && decide (e.2.samples ≥ ewmaMinSamples)).filterMap fun e => e.2.ewma

/-- The measured member is far slower than the others. -/
def tooSlow (members : Members) (ep : String) (m : Member) : Bool :=
  match m.ewma with
  | none => false
  | some ewma =>
    let floor := asSecsF64 b.opts.ejectLatencyFloor
    let factor := b.opts.ejectLatencyFactor
    let others := (otherLatencies members ep).insertionSort (f64TotalLe · ·)
    if !m.usable || m.samples < ewmaMinSamples || factor ≤ 0.0 then false
    else
      match others[(others.length - 1) / 2]? with
      | none => false
      | some median => ewma > factor * median && ewma - median > floor

/-- A round trip of a connection: its member is measured and may prove too slow. -/
def roundTrip (now : ℕ) (spawned : Bool) (elapsed : ℕ) (link : PoolLink) (connected : String)
    (st : BalancerState) : PoolLink × BalancerState :=
  let (link, st) := reattribute link connected st
  match st.members.get? connected with
  | none => (link, st)
  | some m =>
    let st := { st with members := st.members.modify connected (b.measure now elapsed) }
    (link, if b.tooSlow st.members connected (b.measure now elapsed m) then
        b.eject now spawned connected st
      else st)

/-- A write succeeded under a key; `now` was read before the lock was taken. -/
def wrote (now : ℕ) (affinity : Option String) (connected : String) (st : BalancerState) :
    BalancerState :=
  let kept := if st.affinity.entries.length ≥ affinityCap then
      st.affinity.alter fun _ v => if v.2 > now then some v else none
    else st.affinity
  { st with affinity := kept.insert affinity (connected, now + b.opts.readYourWrites) }

end Reports

/-! ## The background thread -/

section Maintain

variable (b : Balancer)

/-- The member's ejection is over and nobody probes it yet, so that `tick` sends a probe. -/
def probeDue (now : ℕ) (m : Member) : Bool := m.ejectedUntil.any (now ≥ ·) && !m.probing

/-- Mark the member when a probe of it is due. -/
def markDue (now : ℕ) (m : Member) : Member :=
  if probeDue now m then { m with probing := true } else m

/-- The first section of a pass of the background thread: the members to probe, and whether
discovery is due; nothing once the pool is closed. -/
def tick (now : ℕ) (st : BalancerState) : Option (List String × Bool) × BalancerState :=
  if st.closed then (none, st)
  else
    let due := (st.members.entries.filter fun e => probeDue now e.2).map Prod.fst
    let members := st.members.alter fun _ m => some (markDue now m)
    (some (due, b.opts.discover && !st.discoveryOff && decide (now ≥ st.nextRefresh)),
      { st with members := members })

/-- The record of a member when it is admitted again after a probe: it is measured afresh, and
healthy from now on. -/
def readmitted (now : ℕ) (m : Member) : Member :=
  { m.resetLatency with
    probing := false, ejectedUntil := none, errors := 0, readmittedAt := some now }

/-- A probe that failed keeps the member out, for the next backoff from now on. -/
def prolong (now : ℕ) (m : Member) : Member :=
  let ejections := saturatingSucc m.ejections
  { m with
    probing := false, ejections := ejections
    ejectedUntil := some (now + b.backoffFor ejections) }

/-- The verdict of a probe: the connection it made, or none when it failed. -/
def probeVerdict (now : ℕ) (ep : String) (probed : Option Connection) (st : BalancerState) :
    BalancerState :=
  match st.members.get? ep with
  | none => st
  | some _ =>
    match probed with
    | some c =>
      if st.closed then { st with members := st.members.modify ep (b.prolong now) }
      else
        let st' := { st with members := st.members.modify ep (readmitted now) }
        if st.idle.length < b.opts.maxsize then
          { st' with
            idle := st.idle ++ [{ c with link := some { PoolLink.new b.id with member := ep } }] }
        else st'
    | none => { st with members := st.members.modify ep (b.prolong now) }

/-- Discovery runs through a new connection when its member has not named itself yet. -/
def discoverDue (spawned : Bool) (connected : String) (st : BalancerState) :
    Bool × BalancerState :=
  if !b.opts.discover || st.discoveryOff then (false, st)
  else
    match st.members.get? connected with
    | some m =>
      if m.canonical.isNone then (true, ensureMaintainer spawned st) else (false, st)
    | none => (false, st)

/-- Fold an answer into the members and schedule the next refresh. -/
def foldListing (now : ℕ) (dialed : String) (rows : List (List Value)) (st : BalancerState) :
    BalancerState :=
  let members := applyListing st.members dialed rows
  let notReady := members.entries.any fun e =>
    e.2.listed = .resyncing || e.2.listed = .unreachable
  let every := if notReady then min b.opts.refreshInterval refreshNotReady
    else b.opts.refreshInterval
  { st with members := members, nextRefresh := now + every }

/-- Take the answer of `SHOW ENDPOINTS` in: rows are folded into the members, other answers turn
discovery off. -/
def listThrough (now : ℕ) (dialed : String) (answer : Except DriverError Response)
    (st : BalancerState) : BalancerState :=
  match answer with
  | .ok (.rows _ (row :: rows)) => b.foldListing now dialed (row :: rows) st
  | .ok _ | .error (.server _) | .error (.unexpected _ _) => { st with discoveryOff := true }
  | .error _ => st

/-- A refresh that found no connection puts the next one off. -/
def refreshFailed (now : ℕ) (st : BalancerState) : BalancerState :=
  { st with nextRefresh := now + b.opts.refreshInterval }

end Maintain

/-! ## What a report leaves alone -/

/-- What a report may do to a member: not to its connections or its probe, and an ejected
member stays ejected. -/
structure Mild (m m' : Member) : Prop where
  /-- It is a configured member exactly if it was before. -/
  seed : m'.seed = m.seed
  /-- The connections checked out. -/
  inUse : m'.inUse = m.inUse
  /-- What the listings said of it stays noted. -/
  listed : m'.listed = m.listed
  /-- It is being probed exactly if it was before. -/
  probing : m'.probing = m.probing
  /-- An ejected member stays ejected. -/
  ejected : m.ejectedUntil ≠ none → m'.ejectedUntil ≠ none

/-- A member that stays as it is has changed mildly. -/
theorem Mild.refl (m : Member) : Mild m m := ⟨rfl, rfl, rfl, rfl, fun h => h⟩

/-- A member that changes mildly, twice, has changed mildly. -/
theorem Mild.trans {m m' m'' : Member} (h : Mild m m') (h' : Mild m' m'') : Mild m m'' :=
  ⟨h'.seed.trans h.seed, h'.inUse.trans h.inUse, h'.listed.trans h.listed,
    h'.probing.trans h.probing, fun hm => h'.ejected (h.ejected hm)⟩

/-- What a report may do to a pool: members change mildly and one stays usable, and the rest is
kept. -/
structure Reported (st st' : BalancerState) : Prop where
  /-- The idle connections stay. -/
  keeps : KeepsIdle st st'
  /-- The affinity keys stay. -/
  affinity : st'.affinity = st.affinity
  /-- The members stay, with mild changes. -/
  members : OrdMap.Relates Mild st.members st'.members
  /-- Some member stays usable. -/
  usable : st.members.AnyUsable → st'.members.AnyUsable

/-- A section that changes nothing is a report. -/
theorem Reported.refl (st : BalancerState) : Reported st st :=
  ⟨KeepsIdle.refl st, rfl, OrdMap.Relates.refl Mild.refl _, fun h => h⟩

/-- Two reports in a row do to the pool what one report may do. -/
theorem Reported.trans {st st' st'' : BalancerState} (h : Reported st st')
    (h' : Reported st' st'') : Reported st st'' where
  keeps := h.keeps.trans h'.keeps
  affinity := h'.affinity.trans h.affinity
  members := h.members.trans (fun _ _ _ => Mild.trans) h'.members
  usable := fun hst => h'.usable (h.usable hst)

section Frames

variable {b : Balancer}

/-- Starting the background thread is no more than reports may do, and leaves the members alone. -/
theorem ensureMaintainer_reported (spawned : Bool) (st : BalancerState) :
    Reported st (ensureMaintainer spawned st) ∧
      (ensureMaintainer spawned st).members = st.members := by
  unfold ensureMaintainer
  split
  · exact ⟨Reported.refl st, rfl⟩
  · exact ⟨⟨⟨rfl, rfl⟩, rfl, OrdMap.Relates.refl Mild.refl _, fun h => h⟩, rfl⟩

/-- A mild change of one member that is not the only usable one, or stays usable. -/
theorem modify_reported {st : BalancerState} {ep : String} {f : Member → Member}
    (hf : ∀ m, Mild m (f m))
    (husable : (∀ m, (f m).ejectedUntil = m.ejectedUntil) ∨ ∃ k, k ≠ ep ∧ st.members.Usable k) :
    Reported st { st with members := st.members.modify ep f } := by
  refine ⟨⟨rfl, rfl⟩, rfl, OrdMap.relates_modify Mild.refl hf _, ?_⟩
  rintro ⟨k, m, hm, hmu⟩
  rcases husable with hsame | ⟨k', hne, m', hm', hmu'⟩
  · refine ⟨k, if k == ep then f m else m, ?_, ?_⟩
    · rw [OrdMap.get?_modify, hm]
      split <;> rfl
    · split
      · unfold Member.usable at hmu ⊢
        rw [hsame, (hf m).listed]
        exact hmu
      · exact hmu
  · refine ⟨k', m', ?_, hmu'⟩
    rw [OrdMap.get?_modify, beq_eq_false_iff_ne.mpr hne]
    exact hm'

/-- `eject` does no more to the pool than reports may, and so leaves some member usable. -/
theorem eject_reported (now : ℕ) (spawned : Bool) (ep : String) (st : BalancerState) :
    Reported st (b.eject now spawned ep st) := by
  unfold eject
  split
  · next hother =>
    split
    · obtain ⟨⟨k, m⟩, hmem, hk⟩ := List.any_eq_true.mp hother
      rw [Bool.and_eq_true, bne_iff_ne] at hk
      have husable : st.members.Usable k := ⟨m, OrdMap.mem_entries.mp hmem, hk.2⟩
      refine (modify_reported (fun m => ?_) (.inr ⟨k, hk.1, husable⟩)).trans
        (ensureMaintainer_reported spawned _).1
      exact ⟨rfl, rfl, rfl, rfl, fun _ => Option.some_ne_none _⟩
    · exact Reported.refl st
  · exact Reported.refl st

/-- A failure of a member is a report: the member may be ejected, but not the last usable one. -/
theorem failed_reported (now : ℕ) (spawned : Bool) (ep : String) (st : BalancerState) :
    Reported st (b.failed now spawned ep st) := by
  unfold failed
  split
  · exact Reported.refl st
  · next m hm =>
    have hcount : Reported st { st with
        members := st.members.modify ep fun m => { m with errors := saturatingSucc m.errors } } :=
      modify_reported (fun m => ⟨rfl, rfl, rfl, rfl, fun h => h⟩) (.inl fun m => rfl)
    dsimp only
    split
    · exact hcount.trans (eject_reported now spawned ep _)
    · exact hcount

/-- A dial that fails is a report when it is the fault of the member, and nothing otherwise. -/
theorem dialFailed_reported (fault : Bool) (now : ℕ) (spawned : Bool) (ep : String)
    (st : BalancerState) : Reported st (if fault then b.failed now spawned ep st else st) := by
  split
  · exact failed_reported now spawned ep st
  · exact Reported.refl st

/-- Asking whether discovery is due may start the thread. -/
theorem discoverDue_reported (spawned : Bool) (connected : String) (st : BalancerState) :
    Reported st (b.discoverDue spawned connected st).2 := by
  unfold discoverDue
  split
  · exact Reported.refl st
  · split
    · split
      · exact (ensureMaintainer_reported spawned st).1
      · exact Reported.refl st
    · exact Reported.refl st

/-- The verdict of a probe is not about the affinity keys. -/
theorem probeVerdict_affinity (now : ℕ) (ep : String) (probed : Option Connection)
    (st : BalancerState) : (b.probeVerdict now ep probed st).affinity = st.affinity := by
  unfold probeVerdict
  split
  · rfl
  · split
    · split
      · rfl
      · split <;> rfl
    · rfl

/-- A round trip of a connection that counts against the member it reached. -/
theorem roundTrip_reported (now : ℕ) (spawned : Bool) (elapsed : ℕ) (link : PoolLink)
    {connected : String} (h : link.member = connected) (st : BalancerState) :
    (b.roundTrip now spawned elapsed link connected st).1 = link ∧
      Reported st (b.roundTrip now spawned elapsed link connected st).2 := by
  unfold roundTrip reattribute
  rw [if_pos h]
  dsimp only
  cases hm : st.members.get? connected with
  | none => exact ⟨rfl, Reported.refl st⟩
  | some m =>
    have hmeasured : Reported st { st with
        members := st.members.modify connected (b.measure now elapsed) } :=
      modify_reported (fun m => ⟨rfl, rfl, rfl, rfl, fun h => h⟩) (.inl fun m => rfl)
    refine ⟨rfl, ?_⟩
    dsimp only
    split
    · exact hmeasured.trans (eject_reported now spawned connected _)
    · exact hmeasured

/-- When the probe failed or the pool is closed, its verdict keeps the member out for longer. -/
theorem probeVerdict_out {now : ℕ} {ep : String} {probed : Option Connection}
    {st : BalancerState} (h : probed = none ∨ st.closed = true) :
    (b.probeVerdict now ep probed st).members = st.members.modify ep (b.prolong now) := by
  unfold Balancer.probeVerdict
  cases hm : st.members.get? ep with
  | none => exact (OrdMap.modify_of_none hm _).symm
  | some m =>
    cases probed with
    | none => rfl
    | some c =>
      dsimp only
      rw [if_pos (h.resolve_left (Option.some_ne_none c))]

/-- When the probe succeeded and the pool is open, its verdict admits the member again. -/
theorem probeVerdict_in {now : ℕ} {ep : String} {probed : Option Connection}
    {st : BalancerState} (h : ¬ (probed = none ∨ st.closed = true)) :
    (b.probeVerdict now ep probed st).members = st.members.modify ep (readmitted now) := by
  unfold Balancer.probeVerdict
  cases hm : st.members.get? ep with
  | none => exact (OrdMap.modify_of_none hm _).symm
  | some m =>
    cases probed with
    | none => exact absurd (.inl rfl) h
    | some c =>
      dsimp only
      rw [if_neg fun hclosed => h (.inr hclosed)]
      split <;> rfl

end Frames

end Balancer

end Skaidb
