import Skaidb.Pool.Idle

/-!
# What an event does to the members

One event, by what it does to the members, to the connections checked out against
them, to the probes under way and to the affinity keys. The invariants of the pool over whole
runs are case analyses of this.
-/

namespace Skaidb

open Program

namespace Balancer

/-! ## What an event brings -/

/-- The write an event records: its key, the member it went to and when. -/
def recorded (b : Balancer) : Section → Option (Option String × String × ℕ)
  | .act c (.succeeded sql read) =>
    match c.link with
    | some link =>
      if link.out && b.readYourWrites && isWrite sql then some (link.affinity, c.connected, read)
      else none
    | none => none
  | _ => none

/-- The number of connections checked out and attributed to an endpoint. -/
def System.checkedOut (s : System) (ep : String) : ℕ := s.out.countP fun c => memberOf c == ep

/-! ## The changes -/

/-- The members stay, with mild changes, and some member stays usable. -/
structure MildChange (members members' : Members) : Prop where
  /-- The members are the same ones, each with mild changes. -/
  mild : OrdMap.Relates Mild members members'
  /-- When some member was usable, some member still is. -/
  usable : members.AnyUsable → members'.AnyUsable

/-- Members that stay as they are have changed mildly. -/
theorem MildChange.refl (members : Members) : MildChange members members :=
  ⟨OrdMap.Relates.refl Mild.refl _, fun h => h⟩

/-- What a report does to the pool changes its members no more than mildly. -/
theorem Reported.mildChange {st st' : BalancerState} (h : Reported st st') :
    MildChange st.members st'.members := ⟨h.members, h.usable⟩

/-- What an event can do to the members, to the connections checked out and to the probes. -/
inductive MembersStep (b : Balancer) (s : System) (e : Event) (s' : System) : Prop
  /-- A report, or nothing. -/
  | reported (members : MildChange s.pool.members s'.pool.members)
    (out : ∀ k, s'.checkedOut k = s.checkedOut k) (probes : s'.probes = s.probes)
  /-- A connection is checked out. -/
  | claimed (ep : String) (members : s'.pool.members = s.pool.members.modify ep Member.claim)
    (out : ∀ k, s'.checkedOut k = s.checkedOut k + if ep == k then 1 else 0)
    (probes : s'.probes = s.probes)
  /-- A connection is returned or dropped. -/
  | freed (ep : String) (members : s'.pool.members = s.pool.members.modify ep Member.free)
    (out : ∀ k, s.checkedOut k = s'.checkedOut k + if ep == k then 1 else 0)
    (probes : s'.probes = s.probes)
  /-- A connection that is checked out reaches another member. -/
  | moved (ep ep' : String) (others : String → ℕ)
    (members : s'.pool.members =
      (s.pool.members.modify ep Member.free).modify ep' Member.claim)
    (before : ∀ k, s.checkedOut k = others k + if ep == k then 1 else 0)
    (after : ∀ k, s'.checkedOut k = others k + if ep' == k then 1 else 0)
    (probes : s'.probes = s.probes)
  /-- A listing was folded into the members. -/
  | listed {dialed : String} {rows : List (List Value)}
    (listing : listing e.occurs = some (dialed, rows))
    (members : s'.pool.members = applyListing s.pool.members dialed rows)
    (out : ∀ k, s'.checkedOut k = s.checkedOut k) (probes : s'.probes = s.probes)
  /-- A pass of the background thread. -/
  | ticked (read : ℕ)
    (members : s'.pool.members = s.pool.members.alter fun _ m => some (markDue read m))
    (out : ∀ k, s'.checkedOut k = s.checkedOut k)
    (probes : s'.probes =
      (s.pool.members.entries.filter fun m => probeDue read m.2).map Prod.fst ++ s.probes)
  /-- The verdict of a probe. -/
  | probed {ep : String} {probed : Option Connection} (occurs : e.occurs = .probed ep probed)
    (members : s'.pool.members = (b.probeVerdict e.now ep probed s.pool).members)
    (out : ∀ k, s'.checkedOut k = s.checkedOut k) (probes : s'.probes = s.probes.erase ep)

/-- What an event can do to the affinity keys. -/
inductive AffinityStep (b : Balancer) (e : Event) (st st' : BalancerState) : Prop
  /-- The affinity keys are what they were. -/
  | kept (affinity : st'.affinity = st.affinity)
  /-- A checkout looks its key up. -/
  | followed (key : Option String)
    (affinity : st'.affinity = (b.followWrite e.now key st).2.affinity)
  /-- A write is recorded. -/
  | wrote {key : Option String} {ep : String} {read : ℕ}
    (recorded : b.recorded e.occurs = some (key, ep, read))
    (affinity : st'.affinity = (b.wrote read key ep st).affinity)

section Parts

variable {b : Balancer} {e : Event}

/-- The answer of `SHOW ENDPOINTS` changes the members by its rows only. -/
theorem listThrough_members (now : ℕ) (dialed : String) (answer : Except DriverError Response)
    (st : BalancerState) :
    (b.listThrough now dialed answer st).members =
        ((answeredRows answer).map (applyListing st.members dialed)).getD st.members ∧
      (b.listThrough now dialed answer st).affinity = st.affinity := by
  cases answer with
  | error err => cases err <;> exact ⟨rfl, rfl⟩
  | ok response =>
    cases response with
    | rows columns rows => cases rows <;> exact ⟨rfl, rfl⟩
    | _ => exact ⟨rfl, rfl⟩

/-- A tied connection that is dropped stops counting, if it is checked out. -/
theorem Tied.discard {out : Bool} {c : Connection} (h : b.Tied out c) (st : BalancerState) :
    b.discard c st = if out then closedOut (Balancer.memberOf c) st else st := by
  obtain ⟨link, hlink, hpool, rfl, -⟩ := h
  unfold Balancer.discard uncount Balancer.memberOf
  rw [hlink]
  dsimp only
  rw [if_pos hpool]
  rfl

/-- A returned connection of the pool stops counting, and that is all for the members. -/
theorem Tied.checkin {c : Connection} (h : b.Tied true c) (st : BalancerState) :
    (b.checkin c st).members = st.members.modify (Balancer.memberOf c) Member.free ∧
      (b.checkin c st).affinity = st.affinity := by
  obtain ⟨link, hlink, hpool, hout, -⟩ := h
  have hmember : Balancer.memberOf c = link.member := by
    rw [Balancer.memberOf, hlink]
    rfl
  rw [hmember]
  unfold Balancer.checkin
  rw [hlink]
  dsimp only
  rw [if_pos hpool, uncount, if_pos hout]
  split
  · exact ⟨rfl, rfl⟩
  · rw [discard_of_not_out]
    · exact ⟨rfl, rfl⟩
    · intro link' hlink'
      obtain rfl := Option.some.inj hlink'
      rfl

/-- A connection the pool did not hand out changes nothing for the members. -/
theorem checkin_foreign {c : Connection} (h : ∀ link, c.link = some link → link.pool ≠ b.id)
    (st : BalancerState) : b.checkin c st = st := by
  unfold Balancer.checkin Balancer.discard
  cases hlink : c.link with
  | none => rfl
  | some link => simp only [if_neg (h link hlink)]

/-- Taking a connection out of those that are checked out takes one from the count of its member and
none from another. -/
theorem checkedOut_erase {out : List Connection} {c : Connection} (h : c ∈ out) (k : String) :
    out.countP (fun c => memberOf c == k) =
      (out.erase c).countP (fun c => memberOf c == k) + if memberOf c == k then 1 else 0 := by
  rw [(List.perm_cons_erase h).countP_eq, List.countP_cons]

/-- A key is looked up once in the first section of a checkout. -/
theorem checkoutStart_affinity {now later : ℕ} {key : Option String} {st st' : BalancerState}
    {found : Found} (h : b.checkoutStart now later key st = .ok (found, st')) :
    st'.affinity = (b.followWrite now key st).2.affinity := by
  have hpick : (b.pick now later key st).2.affinity = (b.followWrite now key st).2.affinity := by
    obtain ⟨rr, rng, hpick⟩ := b.pick_eq now later key st
    rw [hpick]
  unfold checkoutStart at h
  split at h
  · cases h
  · generalize b.pick now later key st = picked at h hpick
    obtain ⟨target, st₁⟩ := picked
    dsimp only [takeIdle] at h hpick
    generalize searchIdle st₁ target _ = searched at h
    obtain ⟨-, -, htake⟩ := takeFound_keeps searched.1 searched.2 st₁
    split at h
    · obtain ⟨-, rfl⟩ := Prod.mk.inj (Except.ok.inj h)
      exact htake.trans hpick
    · obtain ⟨-, rfl⟩ := Prod.mk.inj (Except.ok.inj h)
      exact htake.trans hpick

/-- What a connection does to the members: a report, or a move when it is checked out. -/
theorem activity_members {out : Bool} {c : Connection} (h : b.Tied out c) (a : Activity)
    (st : BalancerState) :
    (MildChange st.members (b.activity e a c st).2.members ∧
        (out = true → memberOf (b.activity e a c st).1 = memberOf c)) ∨
      out = true ∧ (b.activity e a c st).2.members =
        (st.members.modify (memberOf c) Member.free).modify
          (memberOf (b.activity e a c st).1) Member.claim := by
  obtain ⟨link, hlink, hpool, hout, hmember⟩ := h
  cases a with
  | roundTrip elapsed =>
    have hreport := b.roundTrip_reported e.now e.spawned elapsed
      { link with broken := false } hmember st
    simp only [activity, hlink]
    rw [hreport.1]
    exact .inl ⟨hreport.2.mildChange, fun _ => by simp [memberOf, hlink]⟩
  | failed =>
    simp only [activity, hlink]
    exact .inl ⟨(failed_reported _ _ _ st).mildChange, fun _ => by simp [memberOf, hlink]⟩
  | redial =>
    simp only [activity, hlink, Option.isSome_some, if_true]
    exact .inl ⟨MildChange.refl _, fun _ => trivial⟩
  | redialFailed ep =>
    simp only [activity, hlink, Option.isSome_some, if_true]
    exact .inl ⟨(failed_reported _ _ _ st).mildChange, fun _ => trivial⟩
  | moved ep =>
    have hc : memberOf c = link.member := by simp [memberOf, hlink]
    simp only [activity, hlink]
    rw [hc]
    unfold reattribute
    split
    · exact .inl ⟨MildChange.refl _, fun _ => rfl⟩
    · cases out with
      | true => exact .inr ⟨rfl, if_pos hout⟩
      | false =>
        refine .inl ⟨?_, fun h => absurd h Bool.false_ne_true⟩
        simp only [hout]
        exact MildChange.refl _
  | succeeded sql read =>
    simp only [activity, hlink]
    refine .inl ⟨?_, fun _ => trivial⟩
    split <;> exact MildChange.refl _
  | configure session | statement inForce => exact .inl ⟨MildChange.refl _, fun _ => rfl⟩

/-- What a connection does to the affinity keys: it records a write when it is checked out. -/
theorem activity_affinity {out : Bool} {c : Connection} (h : b.Tied out c) (a : Activity)
    (st : BalancerState) :
    (b.activity e a c st).2.affinity = st.affinity ∨
      out = true ∧ ∃ key ep read, b.recorded (.act c a) = some (key, ep, read) ∧
        (b.activity e a c st).2.affinity = (b.wrote read key ep st).affinity := by
  obtain ⟨link, hlink, hpool, hout, hmember⟩ := h
  cases a with
  | roundTrip elapsed =>
    simp only [activity, hlink]
    exact .inl (b.roundTrip_reported e.now e.spawned elapsed { link with broken := false }
      hmember st).2.affinity
  | failed =>
    simp only [activity, hlink]
    exact .inl (failed_reported _ _ _ st).affinity
  | redial =>
    simp only [activity, hlink, Option.isSome_some, if_true]
    exact .inl rfl
  | redialFailed ep =>
    simp only [activity, hlink, Option.isSome_some, if_true]
    exact .inl (failed_reported _ _ _ st).affinity
  | moved ep =>
    simp only [activity, hlink]
    unfold reattribute
    split <;> exact .inl rfl
  | succeeded sql read =>
    simp only [activity, hlink, recorded]
    split
    · next hrecord =>
      simp only [Bool.and_eq_true] at hrecord
      exact .inr ⟨hout.symm.trans hrecord.1.1, _, _, _, rfl, rfl⟩
    · exact .inl rfl
  | configure session | statement inForce => exact .inl rfl

end Parts

section Step

variable {b : Balancer} {e : Event}

/-- The first section of a checkout changes the members by nothing. -/
theorem begin_changes {s : System} (hidle : IdleKept b s.pool) (key : Option String)
    (attempts : ℕ) :
    (b.begin e key attempts s).pool.members = s.pool.members ∧
      (b.begin e key attempts s).out = s.out ∧ (b.begin e key attempts s).probes = s.probes ∧
      AffinityStep b e s.pool (b.begin e key attempts s).pool := by
  unfold Balancer.begin
  cases hstart : b.checkoutStart e.now e.later key s.pool with
  | error err => exact ⟨rfl, rfl, rfl, .kept rfl⟩
  | ok result =>
    obtain ⟨found, pool⟩ := result
    have hstarts := checkoutStart_ok hstart
    dsimp only
    rw [hidle.discard_stale hstart]
    exact ⟨hstarts.members, rfl, rfl, .followed key (checkoutStart_affinity hstart)⟩

/-- An event that leaves the members, the connections outside and the probes alone is a step of the
members. -/
theorem MembersStep.same {s s' : System} (members : s'.pool.members = s.pool.members)
    (out : s'.out = s.out) (probes : s'.probes = s.probes) : MembersStep b s e s' := by
  refine .reported ?_ (fun k => ?_) probes
  · rw [members]
    exact MildChange.refl _
  · rw [System.checkedOut, out, System.checkedOut]

/-- A listing that an event brings is folded into the members. -/
theorem step_of_listing {s : System} {dialed : String} {rows : List (List Value)}
    (h : listing e.occurs = some (dialed, rows)) :
    (b.step s e).pool.members = applyListing s.pool.members dialed rows ∧
      (b.step s e).out = s.out ∧ (b.step s e).probes = s.probes ∧
      (b.step s e).pool.affinity = s.pool.affinity := by
  have hfold {ep : String} {answer : Except DriverError Response}
      (hrows : (answeredRows answer).map (fun rows => (ep, rows)) = some (dialed, rows)) :
      (b.listThrough e.now ep answer s.pool).members = applyListing s.pool.members dialed rows := by
    obtain ⟨rows', hanswer, hpair⟩ := Option.map_eq_some_iff.mp hrows
    obtain ⟨rfl, rfl⟩ := Prod.mk.inj hpair
    rw [(listThrough_members e.now ep answer s.pool).1, hanswer]
    rfl
  unfold Balancer.step
  generalize e.occurs = what at h
  cases what with
  | listed k answer =>
    cases hphase : k.phase with
    | listing c =>
      simp only [listing, hphase] at h
      simp only [occur, hphase]
      exact ⟨hfold h, rfl, rfl, (listThrough_members e.now _ answer s.pool).2⟩
    | _ => simp [listing, hphase] at h
  | refresh c answer => exact ⟨hfold h, rfl, rfl, (listThrough_members e.now _ answer s.pool).2⟩
  | _ => cases h

/-- An answer that brings no listing changes the members by nothing. -/
theorem listThrough_of_none {answer : Except DriverError Response} {dialed : String}
    (h : (answeredRows answer).map (fun rows => (dialed, rows)) = none) (st : BalancerState) :
    (b.listThrough e.now dialed answer st).members = st.members := by
  rw [(listThrough_members e.now dialed answer st).1, Option.map_eq_none_iff.mp h]
  rfl

/-- A connection in the hands of its caller is active. -/
theorem act_changes {s : System} {c : Connection} {a : Activity} (hc : c ∈ s.out)
    (htied : b.Tied true c) (hwhat : e.occurs = .act c a) :
    MembersStep b s e (b.step s e) ∧ AffinityStep b e s.pool (b.step s e).pool := by
  have hbefore := checkedOut_erase hc
  have hafter (k : String) : (b.step s e).checkedOut k =
      (s.out.erase c).countP (fun c => memberOf c == k) +
        if memberOf (b.activity e a c s.pool).1 == k then 1 else 0 := by
    rw [System.checkedOut, step, hwhat]
    exact List.countP_cons
  constructor
  · rcases activity_members (e := e) htied a s.pool with ⟨hmild, hmember⟩ | ⟨-, hmoved⟩
    · refine .reported ?_ (fun k => ?_) ?_
      · rw [step, hwhat]
        exact hmild
      · rw [hafter, hmember rfl, System.checkedOut, hbefore]
      · rw [step, hwhat]
        rfl
    · refine .moved _ _ _ ?_ hbefore hafter ?_
      · rw [step, hwhat]
        exact hmoved
      · rw [step, hwhat]
        rfl
  · rcases activity_affinity (e := e) htied a s.pool with hkept | ⟨-, key, ep, read, hrec, hwrote⟩
    · refine .kept ?_
      rw [step, hwhat]
      exact hkept
    · refine .wrote (hwhat ▸ hrec) ?_
      rw [step, hwhat]
      exact hwrote

/-- **One event.** What it does to the members and to the affinity keys. -/
theorem step_changes {s : System} (hidle : IdleKept b s.pool) (hheld : HeldKept b s)
    (he : b.Enabled s e) :
    MembersStep b s e (b.step s e) ∧ AffinityStep b e s.pool (b.step s e).pool := by
  obtain ⟨-, -, hpossible⟩ := he
  cases hlisting : listing e.occurs with
  | some listed =>
    obtain ⟨hmembers, hout, hprobes, haffinity⟩ := step_of_listing (b := b) (s := s) hlisting
    refine ⟨.listed hlisting hmembers (fun k => ?_) hprobes, .kept haffinity⟩
    rw [System.checkedOut, hout, System.checkedOut]
  | none =>
    have hfree {k : Checkout} {c : Connection} (hk : k ∈ s.checkouts) (hc : k.connection = some c)
        (st : BalancerState) : b.discard c st = st :=
      discard_of_not_out (hheld.checkouts k hk c hc).not_out st
    cases hwhat : e.occurs with
    | act c a =>
      rw [hwhat] at hpossible
      exact act_changes hpossible.1 (hheld.out c hpossible.1) hwhat
    | start key =>
      rw [step, hwhat]
      obtain ⟨hmembers, hout, hprobes, haffinity⟩ := begin_changes (e := e) hidle key 2
      exact ⟨.same hmembers hout hprobes, haffinity⟩
    | retry k =>
      rw [hwhat] at hpossible
      obtain ⟨hk, c, link, hphase, -⟩ := hpossible
      have hc : k.connection = some c := by simp [Checkout.connection, hphase]
      rw [step, hwhat]
      simp only [occur, hphase, hfree hk hc]
      split
      · exact ⟨.same rfl rfl rfl, .kept rfl⟩
      · next attempts _ =>
        obtain ⟨hmembers, hout, hprobes, haffinity⟩ :=
          begin_changes (e := e) (s := s.leave k) hidle k.affinity attempts
        exact ⟨.same hmembers hout hprobes, haffinity⟩
    | dialFailed k fault =>
      rw [hwhat] at hpossible
      obtain ⟨hk, ep, rest, hphase⟩ := hpossible
      have hreport := b.dialFailed_reported fault e.now e.spawned ep s.pool
      rw [step, hwhat]
      simp only [occur, hphase]
      split <;>
        exact ⟨.reported hreport.mildChange (fun _ => rfl) rfl, .kept hreport.affinity⟩
    | dialed k =>
      rw [hwhat] at hpossible
      obtain ⟨hk, ep, rest, hphase⟩ := hpossible
      rw [step, hwhat]
      simp only [occur, hphase]
      exact ⟨.same rfl rfl rfl, .kept rfl⟩
    | opening k a =>
      rw [hwhat] at hpossible
      obtain ⟨hk, -⟩ := hpossible
      rw [step, hwhat]
      simp only [occur]
      cases hc : k.connection with
      | none => exact ⟨.same rfl rfl rfl, .kept rfl⟩
      | some c =>
        have htied := hheld.checkouts k hk c hc
        obtain ⟨hmild, -⟩ := (activity_members (e := e) htied a s.pool).resolve_right (by simp)
        have haffinity := (activity_affinity (e := e) htied a s.pool).resolve_right (by simp)
        exact ⟨.reported hmild (fun _ => rfl) rfl, .kept haffinity⟩
    | opened k =>
      rw [hwhat] at hpossible
      obtain ⟨hk, c, hphase⟩ := hpossible
      have hreport := b.discoverDue_reported e.spawned (b.configured c).connected s.pool
      rw [step, hwhat]
      simp only [occur, hphase]
      exact ⟨.reported hreport.mildChange (fun _ => rfl) rfl, .kept hreport.affinity⟩
    | abandon k =>
      rw [hwhat] at hpossible
      obtain ⟨hk, -⟩ := hpossible
      rw [step, hwhat]
      simp only [occur]
      split
      · next c hc =>
        rw [hfree hk hc]
        exact ⟨.same rfl rfl rfl, .kept rfl⟩
      · exact ⟨.same rfl rfl rfl, .kept rfl⟩
    | listed k answer =>
      rw [hwhat] at hpossible hlisting
      obtain ⟨hk, c, hphase⟩ := hpossible
      simp only [listing, hphase] at hlisting
      rw [step, hwhat]
      simp only [occur, hphase]
      exact ⟨.same (listThrough_of_none hlisting _) rfl rfl, .kept (listThrough_members _ _ _ _).2⟩
    | refresh c answer =>
      rw [hwhat] at hlisting
      rw [step, hwhat]
      exact ⟨.same (listThrough_of_none hlisting _) rfl rfl, .kept (listThrough_members _ _ _ _).2⟩
    | finish k =>
      rw [hwhat] at hpossible
      obtain ⟨hk, -⟩ := hpossible
      rw [step, hwhat]
      simp only [occur]
      cases hc : k.connection with
      | none => exact ⟨.same rfl rfl rfl, .kept rfl⟩
      | some c =>
        obtain ⟨link, hlink, -⟩ := hheld.checkouts k hk c hc
        simp only [checkoutFinish, hlink]
        exact ⟨.claimed link.member rfl (fun _ => List.countP_cons) rfl, .kept rfl⟩
    | checkin c =>
      rw [hwhat] at hpossible
      obtain ⟨hmembers, haffinity⟩ := (hheld.out c hpossible).checkin s.pool
      rw [step, hwhat]
      exact ⟨.freed _ hmembers (checkedOut_erase hpossible) rfl, .kept haffinity⟩
    | checkinForeign c =>
      rw [hwhat] at hpossible
      rw [step, hwhat]
      simp only [occur, checkin_foreign hpossible]
      exact ⟨.same rfl rfl rfl, .kept rfl⟩
    | drop c =>
      rw [hwhat] at hpossible
      rw [step, hwhat]
      simp only [occur, (hheld.out c hpossible).discard, if_true]
      exact ⟨.freed _ rfl (checkedOut_erase hpossible) rfl, .kept rfl⟩
    | refreshFailed =>
      rw [step, hwhat]
      exact ⟨.same rfl rfl rfl, .kept rfl⟩
    | tick read =>
      rw [step, hwhat]
      simp only [occur, tick]
      cases s.pool.closed with
      | true => exact ⟨.same rfl rfl rfl, .kept rfl⟩
      | false => exact ⟨.ticked read rfl (fun _ => rfl) rfl, .kept rfl⟩
    | probed ep probed =>
      rw [step, hwhat]
      exact ⟨.probed hwhat rfl (fun _ => rfl) rfl, .kept (probeVerdict_affinity _ _ _ _)⟩
    | close =>
      rw [step, hwhat]
      simp only [occur, hidle.close]
      exact ⟨.same rfl rfl rfl, .kept rfl⟩

/-- **Invariants.** A property that the changes of each event keep holds along every run. -/
theorem invariant_of_changes {guard : System → Event → Prop} {I : System → Prop}
    (henabled : ∀ s e, guard s e → b.Enabled s e)
    (hstep : ∀ s e, HeldKept b s → guard s e → MembersStep b s e (b.step s e) →
      AffinityStep b e s.pool (b.step s e).pool → I s → I (b.step s e))
    {s s' : System} (hidle : IdleKept b s.pool) (hheld : HeldKept b s)
    (h : Run b.step guard s s') (hs : I s) : I s' := by
  have hinv : (IdleKept b s'.pool ∧ HeldKept b s') ∧ I s' := by
    refine Run.invariant (I := fun s => (IdleKept b s.pool ∧ HeldKept b s) ∧ I s)
      (fun s e he hs => ?_) h ⟨⟨hidle, hheld⟩, hs⟩
    obtain ⟨⟨hidle, hheld⟩, hI⟩ := hs
    obtain ⟨hidle', hheld'⟩ := step_idle hidle hheld (henabled s e he)
    obtain ⟨hmembers, haffinity⟩ := step_changes hidle hheld (henabled s e he)
    exact ⟨⟨hidle'.kept hidle, hheld'⟩, hstep s e hheld he hmembers haffinity hI⟩
  exact hinv.2

end Step

/-! ## Connections and answers for runs -/

/-- A connection of the pool with the address zero. -/
def pooled (ep : String) (out broken : Bool) : Connection :=
  ⟨ep, ⟨.quorum, none, 0⟩, some ⟨0, ep, out, none, broken⟩, ⟨none, 0⟩⟩

/-- The connection of the examples is not broken when it is made so. -/
theorem pooled_sound (ep : String) (out : Bool) : Sound (pooled ep out false) := by
  intro link hlink
  obtain rfl := Option.some.inj hlink
  rfl

/-- A row of `SHOW ENDPOINTS` as a server sends it: an endpoint, its state, and whether it is the
server itself. -/
def memberRow (ep state : String) (self : Bool) : List Value :=
  [⟨.string ep, trivial⟩, ⟨.string state, trivial⟩, ⟨.bool self, trivial⟩]

/-- The rows as the answer of a server. -/
def answered (rows : List (List Value)) : Except DriverError Response := .ok (.rows [] rows)

end Balancer

end Skaidb
