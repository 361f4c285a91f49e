import Mathlib.Logic.Relation
import Skaidb.Pool.System

/-!
# What a section under the lock is made of

Every section of a balanced pool is made of a few small changes to the state under its lock: a
note about a member, an ejection, numbers drawn, a listing folded in, and so on. `Effect` lists
them, each with the events that may cause it, and `step_effects` takes `Balancer.step` apart into
them. A relation between the states before and after an event is then proved effect by effect:
`step_frame` puts it together again, with the pick of a checkout, which is not among the effects
since round robin asks what happens around it.
-/

namespace Skaidb

namespace Balancer

/-! ## What an event brings -/

/-- The members an answer of `SHOW ENDPOINTS` lists. -/
def answeredRows : Except DriverError Response → Option (List (List Value))
  | .ok (.rows _ (row :: rows)) => some (row :: rows)
  | _ => none

/-- The listing an event folds into the members, with the endpoint that answered. -/
def listing : Section → Option (String × List (List Value))
  | .listed k answer =>
    match k.phase with
    | .listing c => (answeredRows answer).map fun rows => (c.connected, rows)
    | _ => none
  | .refresh c answer => (answeredRows answer).map fun rows => (c.connected, rows)
  | _ => none

/-- The sections that take idle connections away or add one. -/
def Section.Moves : Section → Prop
  | .start _ | .retry _ | .checkin _ | .checkinForeign _ | .probed _ _ | .close => True
  | _ => False

/-! ## Effects -/

/-- A note about a member, such as the failures in a row or the connections that count against it,
leaves its ejection and the mark of its probe alone. -/
structure SameRotation (m m' : Member) : Prop where
  /-- The end of the ejection. -/
  ejectedUntil : m'.ejectedUntil = m.ejectedUntil
  /-- The ejections in a row. -/
  ejections : m'.ejections = m.ejections
  /-- It is being probed exactly if it was before. -/
  probing : m'.probing = m.probing

/-- The small changes that the sections are made of. A change that only some events cause carries
the event as a condition. -/
inductive Effect (b : Balancer) (e : Event) (st : BalancerState) : BalancerState → Prop
  /-- Something is noted about a member. -/
  | noted (ep : String) {f : Member → Member} (hf : ∀ m, SameRotation m (f m)) :
    Effect b e st { st with members := st.members.modify ep f }
  /-- A member that is not ejected is, and the background thread is started. -/
  | ejected (ep : String) (h : ∀ m, st.members.get? ep = some m → m.ejectedUntil = none) :
    Effect b e st
      (ensureMaintainer e.spawned { st with members := st.members.modify ep (b.ejectMember e.now) })
  /-- The background thread is started. -/
  | started : Effect b e st (ensureMaintainer e.spawned st)
  /-- Numbers are drawn from the generator, and nothing else changes. -/
  | drawn (n : ℕ) : Effect b e st { st with rng := nextU64^[n] st.rng }
  /-- A write is recorded under its key. -/
  | recorded (affinity : Affinity) : Effect b e st { st with affinity := affinity }
  /-- Idle connections come or go. -/
  | moved (idle : List Connection) (h : e.occurs.Moves) : Effect b e st { st with idle := idle }
  /-- A listing is folded into the members. -/
  | listed {dialed : String} {rows : List (List Value)}
    (h : listing e.occurs = some (dialed, rows)) :
    Effect b e st (b.foldListing e.now dialed rows st)
  /-- Discovery is put off, or turned off. -/
  | scheduled (off : Bool) (next : ℕ) :
    Effect b e st { st with discoveryOff := off, nextRefresh := next }
  /-- A pass of the background thread marks the members whose probe is due. -/
  | marked {read : ℕ} (h : e.occurs = .tick read) :
    Effect b e st { st with members := st.members.alter fun _ m => some (markDue read m) }
  /-- The verdict of a probe admits its member, or keeps it out. -/
  | judged {ep : String} {probed : Option Connection} (h : e.occurs = .probed ep probed)
    {f : Member → Member} (hf : f = readmitted e.now ∨ f = b.prolong e.now) :
    Effect b e st { st with members := st.members.modify ep f }
  /-- The pool is closed. -/
  | closed (h : e.occurs = .close) :
    Effect b e st { st with closed := true, maintainer := false }

/-- Any number of effects of an event, one after another. -/
abbrev Effects (b : Balancer) (e : Event) : BalancerState → BalancerState → Prop :=
  Relation.ReflTransGen (Effect b e)

/-- A preorder that holds for each effect holds for a sequence of them. -/
theorem Effects.frame {b : Balancer} {e : Event} {R : BalancerState → BalancerState → Prop}
    [IsPreorder BalancerState R] {st st' : BalancerState} (h : Effects b e st st')
    (heffect : ∀ st st', Effect b e st st' → R st st') : R st st' := by
  have hmono : Relation.ReflTransGen R st st' := Relation.ReflTransGen.mono heffect _ _ h
  rwa [Relation.reflTransGen_eq_self] at hmono

/-- All that `ensureMaintainer` may change is the flag of the background thread. -/
theorem ensureMaintainer_eq (spawned : Bool) (st : BalancerState) :
    ∃ running, ensureMaintainer spawned st = { st with maintainer := running } := by
  unfold ensureMaintainer
  split
  · exact ⟨st.maintainer, rfl⟩
  · exact ⟨spawned, rfl⟩

section Sections

variable {b : Balancer} {e : Event}

/-! ## Connections that count -/

/-- A connection more is a note about its member. -/
theorem sameRotation_claim (m : Member) : SameRotation m (Member.claim m) := ⟨rfl, rfl, rfl⟩

/-- A connection less is a note about its member. -/
theorem sameRotation_free (m : Member) : SameRotation m (Member.free m) := ⟨rfl, rfl, rfl⟩

/-- A connection that stops counting is a note about its member, if it was checked out. -/
theorem uncount_effects (link : PoolLink) (st : BalancerState) :
    Effects b e st (uncount link st) := by
  unfold uncount
  split
  · exact .single (.noted link.member sameRotation_free)
  · exact .refl

/-- A connection that is dropped stops counting, if it belongs to the pool. -/
theorem discard_effects (c : Connection) (st : BalancerState) :
    Effects b e st (b.discard c st) := by
  unfold discard
  split
  · split
    · exact uncount_effects _ st
    · exact .refl
  · exact .refl

/-- Connections that are dropped one after another, as the stale ones of a checkout and the idle
ones of a pool that is closed are. -/
theorem foldl_discard_effects (cs : List Connection) (st : BalancerState) :
    Effects b e st (cs.foldl (fun st c => b.discard c st) st) := by
  induction cs generalizing st with
  | nil => exact .refl
  | cons c cs ih =>
    rw [List.foldl_cons]
    exact (discard_effects c st).trans (ih _)

/-- A connection that reaches another member counts there from then on. -/
theorem reattribute_effects (link : PoolLink) (connected : String) (st : BalancerState) :
    Effects b e st (reattribute link connected st).2 := by
  unfold reattribute
  split
  · exact .refl
  · dsimp only
    split
    · have hfree : Effects b e st
          { st with members := st.members.modify link.member Member.free } :=
        .single (.noted link.member sameRotation_free)
      exact hfree.tail (.noted connected sameRotation_claim)
    · exact .refl

/-- A connection that is handed out counts against its member. -/
theorem checkoutFinish_effects (affinity : Option String) (c : Connection) (st : BalancerState) :
    Effects b e st (checkoutFinish affinity c st).2 := by
  unfold checkoutFinish
  split
  · next link _ => exact .single (.noted link.member sameRotation_claim)
  · exact .refl

/-- A connection that is returned stops counting and may become idle. -/
theorem checkin_effects (hmoves : e.occurs.Moves) (c : Connection) (st : BalancerState) :
    Effects b e st (b.checkin c st) := by
  unfold checkin
  split
  · next link _ =>
    split
    · have hcount : Effects b e st (uncount link st) := uncount_effects link st
      dsimp only
      split
      · exact hcount.tail (.moved _ hmoves)
      · exact hcount.trans (discard_effects _ _)
    · exact discard_effects c st
  · exact discard_effects c st

/-! ## Reports -/

/-- A member that is ejected is not usable, whatever the listings say of it. -/
theorem usable_of_ejected {m : Member} (h : m.ejectedUntil ≠ none) : m.usable = false := by
  unfold Member.usable
  cases hm : m.ejectedUntil with
  | none => exact absurd hm h
  | some _ => rfl

/-- Only a member in rotation can be too slow, so the latency check never ejects a member twice. -/
theorem ejectedUntil_of_tooSlow {members : Members} {ep : String} {m : Member}
    (h : b.tooSlow members ep m = true) : m.ejectedUntil = none := by
  unfold tooSlow at h
  split at h
  · cases h
  · dsimp only at h
    split at h
    · cases h
    · next hguard =>
      simp only [Bool.or_eq_true, not_or, Bool.not_eq_true', Bool.not_eq_false] at hguard
      by_contra hejected
      rw [usable_of_ejected hejected] at hguard
      exact absurd hguard.1.1 Bool.false_ne_true

/-- A note about a member that is not ejected, and then its ejection, unless it is the last usable
one. -/
theorem eject_effects {ep : String} {st : BalancerState} {f : Member → Member}
    (hf : ∀ m, SameRotation m (f m))
    (h : ∀ m, st.members.get? ep = some m → m.ejectedUntil = none) :
    Effects b e st
      (b.eject e.now e.spawned ep { st with members := st.members.modify ep f }) := by
  have hnoted : Effects b e st { st with members := st.members.modify ep f } :=
    .single (.noted ep hf)
  have hout (m : Member) (hm : (st.members.modify ep f).get? ep = some m) :
      m.ejectedUntil = none := by
    rw [OrdMap.get?_modify, beq_self_eq_true, if_pos rfl] at hm
    obtain ⟨old, hold, rfl⟩ := Option.map_eq_some_iff.mp hm
    rw [(hf old).ejectedUntil, h old hold]
  unfold eject
  split
  · split
    · exact hnoted.tail (.ejected ep hout)
    · exact hnoted
  · exact hnoted

/-- A failure is noted, and ejects a member that is not ejected yet or nobody. -/
theorem failed_effects (ep : String) (st : BalancerState) :
    Effects b e st (b.failed e.now e.spawned ep st) := by
  have hcount (m : Member) : SameRotation m { m with errors := saturatingSucc m.errors } :=
    ⟨rfl, rfl, rfl⟩
  unfold failed
  split
  · exact .refl
  · next m hm =>
    dsimp only
    split
    · next heject =>
      apply eject_effects hcount
      intro m' hm'
      obtain rfl := Option.some.inj (hm.symm.trans hm')
      exact heject.2
    · exact .single (.noted ep hcount)

/-- A round trip is measured, and ejects the member it was to if that has become too slow. -/
theorem roundTrip_effects (elapsed : ℕ) (link : PoolLink) (connected : String)
    (st : BalancerState) :
    Effects b e st (b.roundTrip e.now e.spawned elapsed link connected st).2 := by
  have hmeasure (m : Member) : SameRotation m (b.measure e.now elapsed m) := ⟨rfl, rfl, rfl⟩
  have hreach := @reattribute_effects b e link connected st
  unfold roundTrip
  generalize reattribute link connected st = reached at hreach
  obtain ⟨link', st'⟩ := reached
  dsimp only at hreach ⊢
  split
  · exact hreach
  · next m hm =>
    dsimp only
    split
    · next hslow =>
      apply hreach.trans
      apply eject_effects hmeasure
      intro m' hm'
      obtain rfl := Option.some.inj (hm.symm.trans hm')
      have hin : (b.measure e.now elapsed m).ejectedUntil = none := ejectedUntil_of_tooSlow hslow
      exact hin
    · exact hreach.tail (.noted connected hmeasure)

/-- A shuffle draws numbers, and changes the generator in no other way. -/
theorem shuffle_rng {α : Type} (rng : UInt64) (v : List α) :
    ∃ n, (shuffle rng v).2 = nextU64^[n] rng := by
  unfold shuffle
  generalize (List.range' 1 (v.length - 1)).reverse = positions
  suffices h : ∀ start : List α × UInt64, ∃ n, (positions.foldl (fun acc i =>
      (swap acc.1 i (below acc.2 (i + 1)).1, (below acc.2 (i + 1)).2)) start).2 =
        nextU64^[n] start.2 by
    exact h (v, rng)
  induction positions with
  | nil => exact fun start => ⟨0, rfl⟩
  | cons i positions ih =>
    intro start
    obtain ⟨n, hn⟩ := ih (swap start.1 i (below start.2 (i + 1)).1, nextU64 start.2)
    exact ⟨n + 1, hn⟩

/-- Arranging the endpoints for a dial draws numbers and changes nothing else. -/
theorem order_effects (first exclude : Option String) (st : BalancerState) :
    Effects b e st (order first exclude st).2 := by
  obtain ⟨n, hn⟩ := shuffle_rng st.rng ((st.members.entries.filter fun e =>
    some e.1 != first).filter (fun e => e.2.usable) |>.map Prod.fst)
  have horder : (order first exclude st).2 = { st with rng := nextU64^[n] st.rng } := by
    rw [← hn]
    rfl
  rw [horder]
  exact .single (.drawn n)

/-- What a connection does while it is in use, whoever uses it. -/
theorem activity_effects (a : Activity) (c : Connection) (st : BalancerState) :
    Effects b e st (b.activity e a c st).2 := by
  cases hlink : c.link with
  | none =>
    cases a <;> simp only [activity, hlink, Option.isSome_none, Bool.false_eq_true, if_false] <;>
      exact .refl
  | some link =>
    cases a with
    | roundTrip elapsed =>
      simp only [activity, hlink]
      exact roundTrip_effects elapsed _ c.connected st
    | failed =>
      simp only [activity, hlink]
      exact failed_effects c.connected st
    | redial =>
      simp only [activity, hlink, Option.isSome_some, if_true]
      exact order_effects none (some c.connected) st
    | redialFailed ep =>
      simp only [activity, hlink, Option.isSome_some, if_true]
      exact failed_effects ep st
    | moved ep =>
      simp only [activity, hlink]
      exact reattribute_effects _ ep st
    | succeeded sql read =>
      simp only [activity, hlink]
      split
      · exact .single (.recorded _)
      · exact .refl
    | configure session | statement inForce => exact .refl

/-! ## Discovery and probes -/

/-- Asking whether discovery is due may start the background thread. -/
theorem discoverDue_effects (connected : String) (st : BalancerState) :
    Effects b e st (b.discoverDue e.spawned connected st).2 := by
  unfold discoverDue
  split
  · exact .refl
  · split
    · split
      · exact .single .started
      · exact .refl
    · exact .refl

/-- An answer of `SHOW ENDPOINTS` folds the listing of the event in, or turns discovery off. -/
theorem listThrough_effects {dialed : String} {answer : Except DriverError Response}
    (h : listing e.occurs = (answeredRows answer).map fun rows => (dialed, rows))
    (st : BalancerState) : Effects b e st (b.listThrough e.now dialed answer st) := by
  unfold listThrough
  split
  · exact .single (.listed h)
  · exact .single (.scheduled true st.nextRefresh)
  · exact .single (.scheduled true st.nextRefresh)
  · exact .single (.scheduled true st.nextRefresh)
  · exact .refl

/-- A verdict is applied to the member it is about, and its connection may become idle. -/
theorem probeVerdict_effects {ep : String} {probed : Option Connection}
    (h : e.occurs = .probed ep probed) (st : BalancerState) :
    Effects b e st (b.probeVerdict e.now ep probed st) := by
  have hmoves : e.occurs.Moves := by
    rw [h]
    trivial
  unfold probeVerdict
  split
  · exact .refl
  · split
    · split
      · exact .single (.judged h (.inr rfl))
      · have hadmit : Effects b e st
            { st with members := st.members.modify ep (readmitted e.now) } :=
          .single (.judged h (.inl rfl))
        dsimp only
        split
        · exact hadmit.tail (.moved _ hmoves)
        · exact hadmit
    · exact .single (.judged h (.inr rfl))

/-- A pass of the background thread marks members, unless the pool is closed. -/
theorem tick_effects {read : ℕ} (h : e.occurs = .tick read) (st : BalancerState) :
    Effects b e st (b.tick read st).2 := by
  unfold tick
  split
  · exact .refl
  · exact .single (.marked h)

/-- A pool that is closed drops its idle connections. -/
theorem close_effects (h : e.occurs = .close) (st : BalancerState) :
    Effects b e st (b.close st) := by
  have hmoves : e.occurs.Moves := by
    rw [h]
    trivial
  have hempty : Effects b e st { st with idle := [] } := .single (.moved [] hmoves)
  exact (hempty.tail (.closed h)).trans (foldl_discard_effects st.idle _)

/-! ## Checkouts -/

/-- Taking an idle connection changes the idle connections only. -/
theorem takeFound_effects (hmoves : e.occurs.Moves) (found : Option ℕ) (stale : List ℕ)
    (st : BalancerState) : Effects b e st (takeFound found stale st).2 := by
  unfold takeFound
  split <;> exact .single (.moved _ hmoves)

/-- On a closed pool the first section of a checkout fails and changes nothing. -/
theorem begin_of_closed {s : System} (h : s.pool.closed = true) (key : Option String)
    (attempts : ℕ) : b.begin e key attempts s = s := by
  unfold Balancer.begin checkoutStart
  rw [if_pos h]

/-- On an open pool the first section of a checkout picks a member; what it does then depends on
what is idle. -/
theorem begin_effects {s : System} (h : ¬ s.pool.closed = true) (hmoves : e.occurs.Moves)
    (key : Option String) (attempts : ℕ) :
    Effects b e (b.pick e.now e.later key s.pool).2 (b.begin e key attempts s).pool := by
  unfold Balancer.begin checkoutStart
  rw [if_neg h]
  generalize b.pick e.now e.later key s.pool = target
  obtain ⟨target, st⟩ := target
  dsimp only [takeIdle]
  generalize searchIdle st target _ = searched
  have htake : Effects b e st (takeFound searched.1 searched.2 st).2 :=
    takeFound_effects hmoves searched.1 searched.2 st
  generalize takeFound searched.1 searched.2 st = taken at htake ⊢
  obtain ⟨⟨_ | c, stale⟩, st'⟩ := taken
  · exact (htake.trans (order_effects target none st')).trans (foldl_discard_effects stale _)
  · exact htake.trans (foldl_discard_effects stale st')

end Sections

/-! ## One event -/

section Step

variable (b : Balancer)

/-- The state in which an event picks a member, and the affinity key it picks under. -/
def picking (s : System) : Section → Option (BalancerState × Option String)
  | .start affinity => if s.pool.closed then none else some (s.pool, affinity)
  | .retry k =>
    match k.phase, k.attempts with
    | .settled c, _ + 1 =>
      let st := b.discard c s.pool
      if st.closed then none else some (st, k.affinity)
    | _, _ => none
  | _ => none

/-- The state an event leaves to its pick, if it picks. -/
def picked (s : System) (e : Event) : BalancerState :=
  match b.picking s e.occurs with
  | some (st, key) => (b.pick e.now e.later key st).2
  | none => s.pool

variable {b} {s : System} {e : Event}

/-- Before it picks, an event has dropped a connection at most. -/
theorem picking_effects {st : BalancerState} {key : Option String}
    (h : b.picking s e.occurs = some (st, key)) : Effects b e s.pool st := by
  unfold picking at h
  split at h
  · split at h
    · cases h
    · obtain ⟨rfl, -⟩ := Prod.mk.inj (Option.some.inj h)
      exact .refl
  · split at h
    · dsimp only at h
      split at h
      · cases h
      · obtain ⟨rfl, -⟩ := Prod.mk.inj (Option.some.inj h)
        exact discard_effects _ s.pool
    · cases h
  · cases h

/-- **One event** is made of effects that follow its pick, and of nothing else. -/
theorem step_effects (b : Balancer) (s : System) (e : Event) :
    Effects b e (b.picked s e) (b.step s e).pool := by
  have hlisting (dialed : String) (answer : Except DriverError Response)
      (h : listing e.occurs = (answeredRows answer).map fun rows => (dialed, rows)) :
      Effects b e s.pool (b.listThrough e.now dialed answer s.pool) := listThrough_effects h s.pool
  unfold step picked
  cases hwhat : e.occurs with
  | start key =>
    simp only [occur, picking]
    by_cases hclosed : s.pool.closed = true
    · rw [if_pos hclosed, begin_of_closed hclosed]
    · rw [if_neg hclosed]
      exact begin_effects hclosed (hwhat ▸ trivial) key 2
  | retry k =>
    simp only [occur, picking]
    cases k.phase with
    | settled c =>
      cases k.attempts with
      | zero => exact discard_effects c s.pool
      | succ attempts =>
        have hdiscard : Effects b e s.pool (b.discard c s.pool) := discard_effects c s.pool
        let left := (({ s with pool := b.discard c s.pool } : System).leave k)
        dsimp only
        by_cases hclosed : (b.discard c s.pool).closed = true
        · rw [if_pos hclosed, begin_of_closed (s := left) hclosed]
          exact hdiscard
        · rw [if_neg hclosed]
          exact begin_effects (s := left) hclosed (hwhat ▸ trivial) k.affinity attempts
    | _ => exact .refl
  | dialFailed k fault =>
    simp only [occur, picking]
    split
    · next ep rest _ =>
      have hfailed : Effects b e s.pool
          (if fault then b.failed e.now e.spawned ep s.pool else s.pool) := by
        split
        · exact failed_effects ep s.pool
        · exact .refl
      split <;> exact hfailed
    · exact .refl
  | dialed k =>
    simp only [occur, picking]
    split <;> exact .refl
  | opening k a =>
    simp only [occur, picking]
    split
    · exact activity_effects a _ s.pool
    · exact .refl
  | opened k =>
    simp only [occur, picking]
    split
    · exact discoverDue_effects _ s.pool
    · exact .refl
  | abandon k =>
    simp only [occur, picking]
    split
    · exact discard_effects _ s.pool
    · exact .refl
  | listed k answer =>
    simp only [occur, picking]
    split
    · next c hphase =>
      apply hlisting
      rw [hwhat]
      simp only [listing, hphase]
    · exact .refl
  | finish k =>
    simp only [occur, picking]
    split
    · exact checkoutFinish_effects k.affinity _ s.pool
    · exact .refl
  | act c a => exact activity_effects a c s.pool
  | checkin c | checkinForeign c => exact checkin_effects (hwhat ▸ trivial) c s.pool
  | drop c => exact discard_effects c s.pool
  | refresh c answer =>
    apply hlisting
    rw [hwhat]
    rfl
  | refreshFailed => exact .single (.scheduled s.pool.discoveryOff _)
  | tick read =>
    have htick := tick_effects (b := b) hwhat s.pool
    simp only [occur, picking]
    generalize b.tick read s.pool = ticked at htick
    obtain ⟨_ | ⟨due, _⟩, pool⟩ := ticked
    · exact htick
    · exact htick
  | probed ep probed => exact probeVerdict_effects hwhat s.pool
  | close => exact close_effects hwhat s.pool

/-- **Frames.** A preorder that holds for every effect of an event, and for what a pick may change,
holds between the states before and after the event. -/
theorem step_frame {R : BalancerState → BalancerState → Prop} [IsPreorder BalancerState R]
    (hpick : ∀ st rr rng affinity, R st { st with rr := rr, rng := rng, affinity := affinity })
    (heffect : ∀ st st', Effect b e st st' → R st st') : R s.pool (b.step s e).pool := by
  have hafter : R (b.picked s e) (b.step s e).pool := (step_effects b s e).frame heffect
  unfold picked at hafter
  cases hpicking : b.picking s e.occurs with
  | none =>
    rw [hpicking] at hafter
    exact hafter
  | some before =>
    obtain ⟨st, key⟩ := before
    rw [hpicking] at hafter
    obtain ⟨rr, rng, hpicked⟩ := b.pick_eq e.now e.later key st
    obtain ⟨affinity, hfollow⟩ := b.followWrite_eq e.now key st
    dsimp only at hafter
    rw [hpicked, hfollow] at hafter
    have hbefore : R s.pool st := (picking_effects hpicking).frame heffect
    have hpicks : R s.pool
        { st with rr := rr, rng := rng, affinity := affinity } :=
      IsTrans.trans _ _ _ hbefore (hpick st rr rng affinity)
    exact IsTrans.trans _ _ _ hpicks hafter

/-- Unless the event moves connections, no effect of it touches the idle ones or the flag of a
closed pool. -/
theorem Effect.keepsIdle {st st' : BalancerState} (h : Effect b e st st')
    (hmoves : ¬ e.occurs.Moves) : KeepsIdle st st' := by
  cases h with
  | ejected ep =>
    obtain ⟨running, hrunning⟩ := ensureMaintainer_eq e.spawned
      { st with members := st.members.modify ep (b.ejectMember e.now) }
    rw [hrunning]
    exact ⟨rfl, rfl⟩
  | started =>
    obtain ⟨running, hrunning⟩ := ensureMaintainer_eq e.spawned st
    rw [hrunning]
    exact ⟨rfl, rfl⟩
  | moved idle h => exact absurd h hmoves
  | closed h => exact absurd (h ▸ trivial) hmoves
  | _ => exact ⟨rfl, rfl⟩

instance isPreorder_keepsIdle : IsPreorder BalancerState KeepsIdle where
  refl := KeepsIdle.refl
  trans _ _ _ := KeepsIdle.trans

/-- An event that moves no connection leaves the idle ones and the flag of a closed pool as they
are. -/
theorem step_keepsIdle (hmoves : ¬ e.occurs.Moves) : KeepsIdle s.pool (b.step s e).pool :=
  step_frame (fun _ _ _ _ => ⟨rfl, rfl⟩) fun _ _ h => h.keepsIdle hmoves

/-- Only a pass of the background thread starts probes, and only a verdict ends one. -/
theorem step_probes (htick : ∀ read, e.occurs ≠ .tick read)
    (hprobed : ∀ ep probed, e.occurs ≠ .probed ep probed) : (b.step s e).probes = s.probes := by
  have hbegin (s : System) (key : Option String) (attempts : ℕ) :
      (b.begin e key attempts s).probes = s.probes := by
    unfold Balancer.begin
    split <;> rfl
  unfold step
  cases hwhat : e.occurs with
  | start key => exact hbegin s key 2
  | retry k =>
    simp only [occur]
    split
    · split
      · rfl
      · exact hbegin _ k.affinity _
    · rfl
  | dialFailed k fault =>
    simp only [occur]
    split
    · split <;> rfl
    · rfl
  | tick read => exact absurd hwhat (htick read)
  | probed ep probed => exact absurd hwhat (hprobed ep probed)
  | act c a => rfl
  | checkin c | checkinForeign c | drop c | refresh c answer | refreshFailed | close => rfl
  | dialed k | opening k a | opened k | abandon k | listed k answer | finish k =>
    simp only [occur]
    split <;> rfl

end Step

end Balancer

end Skaidb
