import Skaidb.Pool.Changes

/-!
# Counting the connections checked out

Every member of a balanced pool counts the connections in the hands of callers that are
attributed to it. A record that discovery adds starts at zero, so the counts are right as long as
no listing adds an endpoint to which connections are checked out. The clock's panics
(`Skaidb.Pool.Clock`) are left out of the runs.
-/

namespace Skaidb

open Program

namespace Balancer

/-- Every member's record counts as many connections as the given function has for its endpoint. -/
def Counts (members : Members) (n : String → ℕ) : Prop :=
  ∀ ep m, members.get? ep = some m → m.inUse = n ep

/-- The counts of connections, endpoint by endpoint, are what they were before. -/
def SameUse (members members' : Members) : Prop :=
  OrdMap.Relates (fun m m' : Member => m'.inUse = m.inUse) members members'

section Counting

variable {members members' : Members} {n n' : String → ℕ} {a : String}

/-- Counts that are right stay right when the members' counts do not change. -/
theorem Counts.of_sameUse (h : Counts members n) (hsame : SameUse members members') :
    Counts members' n := by
  intro ep m' hm'
  obtain ⟨m, hm, huse⟩ := hsame.origin hm'
  rw [huse, h ep m hm]

/-- Counts that are right stay right when a member and its connections both become one more. -/
theorem Counts.claim (h : Counts members n)
    (hn : ∀ ep, n' ep = n ep + if a == ep then 1 else 0) :
    Counts (members.modify a Member.claim) n' := by
  intro ep m hm
  rw [OrdMap.get?_modify] at hm
  rw [hn]
  by_cases hep : ep = a
  · subst hep
    simp only [beq_self_eq_true, if_true, Option.map_eq_some_iff] at hm ⊢
    obtain ⟨old, hold, rfl⟩ := hm
    simp only [Member.claim, h ep old hold]
  · rw [beq_eq_false_iff_ne.mpr hep] at hm
    rw [beq_eq_false_iff_ne.mpr (Ne.symm hep)]
    exact h ep m hm

/-- Counts that are right stay right when a member and its connections both become one less. -/
theorem Counts.free (h : Counts members n)
    (hn : ∀ ep, n ep = n' ep + if a == ep then 1 else 0) :
    Counts (members.modify a Member.free) n' := by
  intro ep m hm
  have hep := hn ep
  rw [OrdMap.get?_modify] at hm
  by_cases heq : ep = a
  · subst heq
    simp only [beq_self_eq_true, if_true, Option.map_eq_some_iff] at hm hep
    obtain ⟨old, hold, rfl⟩ := hm
    have huse := h ep old hold
    simp only [Member.free]
    omega
  · rw [beq_eq_false_iff_ne.mpr heq] at hm
    rw [beq_eq_false_iff_ne.mpr (Ne.symm heq)] at hep
    rw [h ep m hm, hep]
    rfl

end Counting

section Frames

variable {b : Balancer} {e : Event}

/-- A mild change of the members, such as a report makes, leaves the counts of connections alone. -/
theorem MildChange.sameUse {members members' : Members} (h : MildChange members members') :
    SameUse members members' :=
  h.mild.mono fun _ _ hm => hm.inUse

/-- A pass of the background thread leaves the counts alone. -/
theorem tick_sameUse (read : ℕ) (members : Members) :
    SameUse members (members.alter fun _ m => some (markDue read m)) := by
  refine OrdMap.relates_alter (fun m => ?_) members
  unfold markDue
  split <;> rfl

/-- The verdict of a probe leaves the counts alone. -/
theorem probeVerdict_sameUse (now : ℕ) (ep : String) (probed : Option Connection)
    (st : BalancerState) : SameUse st.members (b.probeVerdict now ep probed st).members := by
  have hmodify {f : Member → Member} (hf : ∀ m : Member, (f m).inUse = m.inUse) :
      SameUse st.members (st.members.modify ep f) :=
    OrdMap.relates_modify (R := fun m m' : Member => m'.inUse = m.inUse) (fun _ => rfl) hf _
  by_cases hout : probed = none ∨ st.closed = true
  · rw [probeVerdict_out hout]
    exact hmodify fun m => rfl
  · rw [probeVerdict_in hout]
    exact hmodify fun m => rfl

end Frames

/-! ## Whole runs -/

/-- Every member counts the connections checked out and attributed to it. -/
def System.Accounted (s : System) : Prop := Counts s.pool.members s.checkedOut

/-- The event lists a member that the pool does not have, or no longer has. -/
def Readds (s : System) (e : Event) (ep : String) : Prop :=
  ∃ dialed rows, listing e.occurs = some (dialed, rows) ∧ Adds s.pool.members dialed rows ep

/-- No member is added to which connections are checked out. -/
def AddsUncounted (s : System) (e : Event) : Prop := ∀ ep, Readds s e ep → s.checkedOut ep = 0

section Runs

variable {b : Balancer} {e : Event}

/-- **One event.** The counts stay right when no member is added to which connections are
checked out. -/
theorem MembersStep.accounted {s s' : System} (h : MembersStep b s e s') (hs : s.Accounted)
    (hadds : AddsUncounted s e) : s'.Accounted := by
  cases h with
  | reported members out probes =>
    rw [System.Accounted, funext out]
    exact hs.of_sameUse members.sameUse
  | claimed ep members out probes =>
    rw [System.Accounted, members]
    exact hs.claim out
  | freed ep members out probes =>
    rw [System.Accounted, members]
    exact hs.free out
  | moved ep ep' others members before after probes =>
    rw [System.Accounted, members]
    exact (hs.free before).claim after
  | listed hlisting members out probes =>
    rw [System.Accounted, members, funext out]
    intro ep m hm
    rcases applyListing_record hm with ⟨old, hold, hcont, -⟩ | ⟨hadd, hnew⟩
    · rw [hcont.inUse, hs ep old hold]
    · rw [hnew.inUse, hadds ep ⟨_, _, hlisting, hadd⟩]
      rfl
  | ticked read members out probes =>
    rw [System.Accounted, members, funext out]
    exact hs.of_sameUse (tick_sameUse read _)
  | probed occurs members out probes =>
    rw [System.Accounted, members, funext out]
    exact hs.of_sameUse (probeVerdict_sameUse _ _ _ _)

/-- A member added to which connections are checked out counts none of them. -/
theorem addsUncounted_of_accounted {s : System} (h : (b.step s e).Accounted) :
    AddsUncounted s e := by
  rintro ep ⟨dialed, rows, hlisting, hadds⟩
  obtain ⟨hmembers, hout, -⟩ := step_of_listing (b := b) (s := s) hlisting
  obtain ⟨m, hm, hnew⟩ := get?_applyListing_of_adds hadds
  have hcount := h ep m (hmembers ▸ hm)
  rw [hnew.inUse, System.checkedOut, hout] at hcount
  exact hcount.symm

/-- The counts of a new pool are right, since nothing has been checked out and every member counts
none. -/
theorem fresh_accounted (endpoints : List String) (now : ℕ) (rng : UInt64) :
    (fresh endpoints now rng).Accounted := by
  intro ep m hm
  have hmem := OrdMap.mem_of_get?_ofList hm
  obtain ⟨ep', -, hpair⟩ := List.mem_map.mp hmem
  obtain ⟨-, rfl⟩ := Prod.mk.inj hpair
  rfl

/-- **Checked-out accounting.** Along every run in which no listing adds a member to which
connections are checked out, each member counts exactly the connections checked out and
attributed to it; and one event keeps right counts right if and only if it adds no such
member. -/
theorem in_use_exact (b : Balancer) (endpoints : List String) (now : ℕ) (rng : UInt64) :
    (∀ s, Run b.step (fun s e => b.Enabled s e ∧ AddsUncounted s e)
        (fresh endpoints now rng) s →
      ∀ ep m, s.pool.members.get? ep = some m → m.inUse = s.checkedOut ep) ∧
    ∀ s, b.Reaches (fresh endpoints now rng) s → s.Accounted → ∀ e, b.Enabled s e →
      ((b.step s e).Accounted ↔ AddsUncounted s e) := by
  constructor
  · intro s hrun
    obtain ⟨hidle, hheld⟩ := reaches_kept (b := b) (s := fresh endpoints now rng) Run.refl
    exact invariant_of_changes (I := System.Accounted) (fun _ _ he => he.1)
      (fun s e _ he hchange _ hs => hchange.accounted hs he.2) hidle hheld hrun
      (fresh_accounted _ _ _)
  · intro s hreach hs e he
    obtain ⟨hidle, hheld⟩ := reaches_kept hreach
    exact ⟨addsUncounted_of_accounted, (step_changes hidle hheld he).1.accounted hs⟩

end Runs

/-! ## A member that is listed again -/

/-- A pool that learns its members from the listings of the servers it reaches. -/
def learning : Balancer := ⟨0, { discover := true }, none, .quorum⟩

/-- A connection is handed out and moves to the member `x` that it learned of. -/
def movedAway : List Event :=
  [.start none, .dialed ⟨none, 2, .dialing ["a"]⟩,
    .opened ⟨none, 2, .opening (pooled "a" false false)⟩,
    .listed ⟨none, 2, .listing (pooled "a" false false)⟩
      (answered [memberRow "a" "ready" true, memberRow "x" "ready" false]),
    .finish ⟨none, 2, .settled (pooled "a" false false)⟩,
    .act (pooled "a" true false) .failed, .act (pooled "a" true true) (.moved "x")].map
    fun what => ⟨0, 0, true, what⟩

/-- One refresh drops the member `x`, and the next one lists it again. -/
def listedAgain : List Event :=
  [.start none, .dialed ⟨none, 2, .dialing ["a", "x"]⟩,
    .opened ⟨none, 2, .opening (pooled "a" false false)⟩,
    .finish ⟨none, 2, .settled (pooled "a" false false)⟩,
    .refresh (pooled "a" true false) (answered [memberRow "a" "ready" true]),
    .checkin (pooled "a" true false),
    .start none, .finish ⟨none, 2, .reused (pooled "a" false false)⟩,
    .refresh (pooled "a" true false)
      (answered [memberRow "a" "ready" true, memberRow "x" "ready" false])].map
    fun what => ⟨0, 0, true, what⟩

/-- The events up to the move can happen, and the listing among them comes before a connection
is handed out. -/
theorem movedAway_guarded :
    Guarded learning.step (fun s e => learning.Enabled s e ∧ AddsUncounted s e)
      (fresh ["a"] 0 1) movedAway := by
  have hnone {s : System} {e : Event} (h : listing e.occurs = none) : AddsUncounted s e := by
    rintro ep ⟨dialed, rows, hlisting, -⟩
    rw [h] at hlisting
    cases hlisting
  exact ⟨⟨⟨le_rfl, le_rfl, trivial⟩, hnone rfl⟩,
    ⟨⟨le_rfl, le_rfl, by decide, _, _, rfl⟩, hnone rfl⟩,
    ⟨⟨le_rfl, le_rfl, by decide, _, rfl⟩, hnone rfl⟩,
    ⟨⟨le_rfl, le_rfl, by decide, _, rfl⟩, fun _ _ => rfl⟩,
    ⟨⟨le_rfl, le_rfl, by decide, _, .inr ⟨rfl, pooled_sound _ _⟩⟩, hnone rfl⟩,
    ⟨⟨le_rfl, le_rfl, by decide, fun _ _ h => (nomatch h)⟩, hnone rfl⟩,
    ⟨⟨le_rfl, le_rfl, by decide, fun _ _ h => (nomatch h)⟩, hnone rfl⟩, trivial⟩

/-- The events of the two refreshes can happen one after another in the pool they are for. -/
theorem listedAgain_guarded :
    Guarded learning.step learning.Enabled (movedAway.foldl learning.step (fresh ["a"] 0 1))
      listedAgain :=
  ⟨⟨le_rfl, le_rfl, trivial⟩, ⟨le_rfl, le_rfl, by decide, _, _, rfl⟩,
    ⟨le_rfl, le_rfl, by decide, _, rfl⟩,
    ⟨le_rfl, le_rfl, by decide, _, .inr ⟨rfl, pooled_sound _ _⟩⟩,
    ⟨le_rfl, le_rfl, by decide, rfl⟩, ⟨le_rfl, le_rfl, List.mem_cons_self⟩,
    ⟨le_rfl, le_rfl, trivial⟩, ⟨le_rfl, le_rfl, by decide, _, .inl rfl⟩,
    ⟨le_rfl, le_rfl, by decide, rfl⟩, trivial⟩

/-- After the move the connection counts against `x`. -/
theorem in_use_exact_moved :
    (movedAway.foldl learning.step (fresh ["a"] 0 1)).checkedOut "x" = 1 ∧
      ∀ m, (movedAway.foldl learning.step (fresh ["a"] 0 1)).pool.members.get? "x" = some m →
        m.inUse = 1 :=
  ⟨by decide, fun m hm =>
    (in_use_exact learning ["a"] 0 1).1 _ movedAway_guarded.run "x" m hm⟩

/-- The connection is still checked out when `x` is listed again, and `x` counts none. -/
theorem in_use_drifts :
    ∃ s, learning.Reaches (fresh ["a"] 0 1) s ∧ s.checkedOut "x" = 1 ∧
      ∃ m, s.pool.members.get? "x" = some m ∧ m.inUse = 0 :=
  ⟨_, (movedAway_guarded.run.mono fun _ _ h => h.1).trans listedAgain_guarded.run,
    by decide, _, rfl, rfl⟩

end Balancer

end Skaidb
