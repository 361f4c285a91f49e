import Skaidb.Pool.Usable

/-!
# How long a member stays out

An ejection stands until its probe: reports do not touch a member that is ejected, and a probe is
sent once the ejection is over and no other probe of the record is under way. A failed probe
ejects the member again for at least as long. The endpoint of a record that discovery drops may
belong to a new record later, so the runs here are those in which discovery does not remove the
member, and the clock's panics (`Skaidb.Pool.Clock`) are left out of them.
-/

namespace Skaidb

open Program

namespace Balancer

/-! ## The length of an ejection -/

/-- The factor of the given ejection in a row. -/
def doublings (ejections : ℕ) : ℕ := min (2 ^ (ejections - 1)) (2 ^ 32 - 1)

section Backoff

variable (b : Balancer)

/-- The factor is a 32-bit number, and not zero. -/
theorem doublings_bounds (ejections : ℕ) :
    1 ≤ doublings ejections ∧ doublings ejections < 2 ^ 32 := by
  have hpow := Nat.one_le_two_pow (n := ejections - 1)
  unfold doublings
  omega

/-- More ejections in a row give at least as large a factor. -/
theorem doublings_mono {n n' : ℕ} (h : n ≤ n') : doublings n ≤ doublings n' := by
  have hpow : 2 ^ (n - 1) ≤ 2 ^ (n' - 1) := Nat.pow_le_pow_right (by decide) (by omega)
  unfold doublings
  omega

/-- The factor does not grow beyond the largest 32-bit number. -/
theorem doublings_of_ge {n : ℕ} (h : 33 ≤ n) : doublings n = 2 ^ 32 - 1 := by
  have hpow : 2 ^ 32 ≤ 2 ^ (n - 1) := Nat.pow_le_pow_right (by decide) (by omega)
  unfold doublings
  omega

/-- An ejection is as long as the backoff doubled for each ejection in a row, up to the limits. -/
theorem backoffFor_eq (ejections : ℕ) : b.backoffFor ejections =
    min (min (b.opts.ejectBackoff * doublings ejections) durationMax) b.opts.ejectBackoffMax :=
  rfl

/-- More ejections in a row give at least as long an ejection. -/
theorem backoffFor_mono {n n' : ℕ} (h : n ≤ n') : b.backoffFor n ≤ b.backoffFor n' := by
  have hmul := Nat.mul_le_mul_left b.opts.ejectBackoff (doublings_mono h)
  rw [backoffFor_eq, backoffFor_eq]
  omega

/-- The next ejection in a row is no shorter. -/
theorem backoffFor_le_succ (n : ℕ) : b.backoffFor n ≤ b.backoffFor (saturatingSucc n) := by
  unfold saturatingSucc
  rcases Nat.lt_or_ge n (2 ^ 32 - 1) with hlt | hge
  · rw [min_eq_left (by omega)]
    exact b.backoffFor_mono (Nat.le_succ n)
  · -- The count stays at its largest value, where the factor is the largest one already.
    rw [min_eq_right (by omega), backoffFor_eq, backoffFor_eq, doublings_of_ge (by omega),
      doublings_of_ge (by decide)]

/-- The length of an ejection is within the options. -/
theorem backoffFor_bounds (hduration : b.opts.ejectBackoff ≤ durationMax) (ejections : ℕ) :
    min b.opts.ejectBackoff b.opts.ejectBackoffMax ≤ b.backoffFor ejections ∧
      b.backoffFor ejections ≤ b.opts.ejectBackoffMax := by
  have hmul : b.opts.ejectBackoff * 1 ≤ b.opts.ejectBackoff * doublings ejections :=
    Nat.mul_le_mul_left _ (doublings_bounds ejections).1
  rw [backoffFor_eq]
  omega

end Backoff

/-! ## What a report does to an ejection -/

/-- What a report at an instant does to the ejection of a member: nothing, or the member was not
ejected and is so from then on. -/
structure Reacts (b : Balancer) (now : ℕ) (m m' : Member) : Prop where
  /-- It is being probed exactly if it was before. -/
  probing : m'.probing = m.probing
  /-- Its ejection stays as it is, or a new one begins. -/
  ejection : (m'.ejectedUntil = m.ejectedUntil ∧ m'.ejections = m.ejections) ∨
    (m.ejectedUntil = none ∧ m'.ejectedUntil = some (now + b.backoffFor m'.ejections))

section Reports

variable {b : Balancer} {now : ℕ}

/-- A member that stays as it is has reacted, by nothing. -/
theorem Reacts.refl (m : Member) : Reacts b now m m := ⟨rfl, .inl ⟨rfl, rfl⟩⟩

/-- A member that reacts to one report and then to another at one instant has reacted to both. -/
theorem Reacts.trans {m m' m'' : Member} (h : Reacts b now m m') (h' : Reacts b now m' m'') :
    Reacts b now m m'' := by
  refine ⟨h'.probing.trans h.probing, ?_⟩
  rcases h.ejection with ⟨huntil, hcount⟩ | ⟨hnone, huntil⟩
  · rcases h'.ejection with ⟨huntil', hcount'⟩ | ⟨hnone', huntil'⟩
    · exact .inl ⟨huntil'.trans huntil, hcount'.trans hcount⟩
    · exact .inr ⟨huntil.symm.trans hnone', huntil'⟩
  · rcases h'.ejection with ⟨huntil', hcount'⟩ | ⟨hnone', -⟩
    · rw [← hcount'] at huntil
      exact .inr ⟨hnone, huntil'.trans huntil⟩
    · rw [huntil] at hnone'
      cases hnone'

/-- Every record of the members reacts to a report as `Reacts` allows, ejected ones not at all. -/
abbrev React (b : Balancer) (now : ℕ) : Members → Members → Prop := OrdMap.Relates (Reacts b now)

/-- Members that stay as they are have reacted. -/
theorem React.refl (members : Members) : React b now members members :=
  OrdMap.Relates.refl Reacts.refl members

/-- Members that react to one report and then to another at one instant have reacted to both. -/
theorem React.trans {members members' members'' : Members} (h : React b now members members')
    (h' : React b now members' members'') : React b now members members'' :=
  OrdMap.Relates.trans (fun _ _ _ => Reacts.trans) h h'

/-- A note about a member leaves its ejection and its probe. -/
theorem SameRotation.reacts {m m' : Member} (h : SameRotation m m') : Reacts b now m m' :=
  ⟨h.probing, .inl ⟨h.ejectedUntil, h.ejections⟩⟩

instance isPreorder_react :
    IsPreorder BalancerState fun st st' => React b now st.members st'.members where
  refl st := React.refl st.members
  trans _ _ _ := React.trans

end Reports

/-! ## One event -/

section Step

variable {b : Balancer} {s : System} {e : Event} {ep : String}

/-- The effects of an event that is no listing, no pass of the background thread and no verdict of
a probe do not end an ejection, and eject only a member that is not ejected. -/
theorem Effect.react {st st' : BalancerState} (h : Effect b e st st')
    (hlisting : listing e.occurs = none) (htick : ∀ read, e.occurs ≠ .tick read)
    (hprobed : ∀ ep probed, e.occurs ≠ .probed ep probed) :
    React b e.now st.members st'.members := by
  cases h with
  | noted ep hf => exact OrdMap.relates_modify Reacts.refl (fun m => (hf m).reacts) _
  | ejected ep hout =>
    rw [(ensureMaintainer_reported e.spawned _).2]
    exact OrdMap.relates_modify_of Reacts.refl fun m hm => ⟨rfl, .inr ⟨hout m hm, rfl⟩⟩
  | started =>
    rw [(ensureMaintainer_reported e.spawned st).2]
    exact React.refl st.members
  | listed hlisted =>
    rw [hlisting] at hlisted
    cases hlisted
  | marked hread => exact absurd hread (htick _)
  | judged hverdict => exact absurd hverdict (hprobed _ _)
  | _ => exact React.refl st.members

/-- The members react to an event that is no listing, no pass of the background thread and no
verdict of a probe. -/
theorem step_react (hlisting : listing e.occurs = none) (htick : ∀ read, e.occurs ≠ .tick read)
    (hprobed : ∀ ep probed, e.occurs ≠ .probed ep probed) :
    React b e.now s.pool.members (b.step s e).pool.members ∧ (b.step s e).probes = s.probes := by
  constructor
  · exact step_frame (R := fun st st' => React b e.now st.members st'.members)
      (fun st _ _ _ => React.refl st.members) fun _ _ h => h.react hlisting htick hprobed
  · exact step_probes htick hprobed

end Step

/-! ## The record of a member -/

/-- The event is a listing that removes the record of the endpoint, whether or not it adds a new
one. -/
def Removes (ep : String) (s : System) (e : Event) : Prop :=
  ∃ dialed rows, listing e.occurs = some (dialed, rows) ∧ s.pool.members.get? ep ≠ none ∧
    (Adds s.pool.members dialed rows ep ∨
      (applyListing s.pool.members dialed rows).get? ep = none)

/-- The event can happen, and discovery does not remove the member. -/
def Retains (b : Balancer) (ep : String) (s : System) (e : Event) : Prop :=
  b.Enabled s e ∧ ¬ Removes ep s e

/-- The number of probes of an endpoint that are under way. -/
def System.probesOf (s : System) (ep : String) : ℕ := s.probes.count ep

/-- What an event can do to the record of an endpoint, if it has one, and to its probes. -/
inductive EntryStep (b : Balancer) (ep : String) (s : System) (e : Event) (s' : System) : Prop
  /-- A report, or nothing. -/
  | reacted (record : Option.Rel (Reacts b e.now) (s.pool.members.get? ep)
      (s'.pool.members.get? ep)) (probes : s'.probesOf ep = s.probesOf ep)
  /-- A listing was folded into the members. -/
  | listed {dialed : String} {rows : List (List Value)}
    (listing : listing e.occurs = some (dialed, rows))
    (record : s'.pool.members.get? ep = (applyListing s.pool.members dialed rows).get? ep)
    (probes : s'.probesOf ep = s.probesOf ep)
  /-- A pass of the background thread. -/
  | ticked {read : ℕ} (occurs : e.occurs = .tick read)
    (record : s'.pool.members.get? ep = (s.pool.members.get? ep).map (markDue read))
    (probes : s'.probesOf ep =
      s.probesOf ep + if (s.pool.members.get? ep).any (probeDue read) then 1 else 0)
  /-- The verdict of a probe. -/
  | judged {probed : Option Connection} (occurs : e.occurs = .probed ep probed)
    (record : s'.pool.members.get? ep = (s.pool.members.get? ep).map
      (if probed = none ∨ s.pool.closed = true then b.prolong e.now else readmitted e.now))
    (probes : s'.probesOf ep = s.probesOf ep - 1)

/-- What an event can do to a record that it does not remove, and to its probes. -/
inductive RecordStep (b : Balancer) (ep : String) (s : System) (e : Event) (m m' : Member)
    (s' : System) : Prop
  /-- A report or a listing, or nothing. -/
  | reacted (reacts : Reacts b e.now m m') (probes : s'.probesOf ep = s.probesOf ep)
  /-- A probe is started. -/
  | marked {read : ℕ} (occurs : e.occurs = .tick read) (due : probeDue read m = true)
    (record : m' = { m with probing := true }) (probes : s'.probesOf ep = s.probesOf ep + 1)
  /-- The verdict of a probe. -/
  | judged {probed : Option Connection} (occurs : e.occurs = .probed ep probed)
    (record : m' = if probed = none ∨ s.pool.closed = true then b.prolong e.now m
      else readmitted e.now m) (probes : s'.probesOf ep = s.probesOf ep - 1)

section Record

variable {b : Balancer} {s : System} {e : Event} {ep : String}

/-- An endpoint is due once when its member is. -/
theorem count_due (members : Members) (read : ℕ) :
    ((members.entries.filter fun m => probeDue read m.2).map Prod.fst).count ep =
      if (members.get? ep).any (probeDue read) then 1 else 0 := by
  have hnodup : ((members.entries.filter fun m => probeDue read m.2).map Prod.fst).Nodup :=
    members.nodup_keys.sublist (List.filter_sublist.map Prod.fst)
  rw [hnodup.count]
  apply if_congr _ rfl rfl
  rw [mem_due, Option.any_eq_true]

/-- A pass of the background thread marks the members whose probe is due and starts it; it ends
when the pool is closed. -/
theorem tick_entry {read : ℕ} (h : e.occurs = .tick read) :
    EntryStep b ep s e (b.step s e) := by
  cases hclosed : s.pool.closed with
  | true =>
    have hstep : (b.step s e).pool = s.pool ∧ (b.step s e).probes = s.probes := by
      unfold step
      simp [h, occur, tick, hclosed]
    apply EntryStep.reacted
    · rw [hstep.1]
      exact React.refl _ ep
    · rw [System.probesOf, hstep.2, System.probesOf]
  | false =>
    apply EntryStep.ticked h
    · unfold step
      simp only [h, occur, tick, hclosed, Bool.false_eq_true, if_false]
      rw [OrdMap.get?_alter]
      cases s.pool.members.get? ep <;> rfl
    · unfold step
      simp only [h, occur, tick, hclosed, Bool.false_eq_true, if_false, System.probesOf]
      rw [List.count_append, count_due, Nat.add_comm]

/-- A verdict is applied to the record that has the endpoint. -/
theorem step_probed {ep' : String} {probed : Option Connection}
    (h : e.occurs = .probed ep' probed) :
    (b.step s e).pool.members = s.pool.members.modify ep'
        (if probed = none ∨ s.pool.closed = true then b.prolong e.now else readmitted e.now) ∧
      (b.step s e).probes = s.probes.erase ep' := by
  unfold step
  rw [h]
  refine ⟨?_, rfl⟩
  split
  · next hout => exact probeVerdict_out hout
  · next hin => exact probeVerdict_in hin

/-- A verdict matters to the endpoint it is about. -/
theorem probed_entry {ep' : String} {probed : Option Connection}
    (h : e.occurs = .probed ep' probed) : EntryStep b ep s e (b.step s e) := by
  obtain ⟨hmembers, hprobes⟩ := step_probed (b := b) (s := s) h
  by_cases hep : ep = ep'
  · subst hep
    apply EntryStep.judged h
    · rw [hmembers, OrdMap.get?_modify, beq_self_eq_true, if_pos rfl]
    · rw [System.probesOf, hprobes, List.count_erase_self, System.probesOf]
  · apply EntryStep.reacted
    · rw [hmembers, OrdMap.get?_modify, beq_eq_false_iff_ne.mpr hep]
      exact React.refl _ ep
    · rw [System.probesOf, hprobes, List.count_erase_of_ne hep, System.probesOf]

/-- **One event**, by what it does to an endpoint. -/
theorem step_entry (b : Balancer) (s : System) (e : Event) (ep : String) :
    EntryStep b ep s e (b.step s e) := by
  cases hlisting : listing e.occurs with
  | some listed =>
    obtain ⟨dialed, rows⟩ := listed
    obtain ⟨hmembers, -, hprobes, -⟩ := step_of_listing (b := b) (s := s) hlisting
    apply EntryStep.listed hlisting
    · rw [hmembers]
    · rw [System.probesOf, hprobes, System.probesOf]
  | none =>
    by_cases htick : ∃ read, e.occurs = .tick read
    · obtain ⟨read, hread⟩ := htick
      exact tick_entry hread
    · by_cases hprobed : ∃ ep' probed, e.occurs = .probed ep' probed
      · obtain ⟨ep', probed, hverdict⟩ := hprobed
        exact probed_entry hverdict
      · obtain ⟨hreact, hprobes⟩ := step_react (b := b) (s := s) hlisting
          (fun read hread => htick ⟨read, hread⟩)
          (fun ep' probed hverdict => hprobed ⟨ep', probed, hverdict⟩)
        apply EntryStep.reacted (hreact ep)
        rw [System.probesOf, hprobes, System.probesOf]

/-- **One event**, by what it does to a record that it does not remove. -/
theorem step_record (hkept : ¬ Removes ep s e) {m : Member}
    (hm : s.pool.members.get? ep = some m) :
    ∃ m', (b.step s e).pool.members.get? ep = some m' ∧
      RecordStep b ep s e m m' (b.step s e) := by
  have hsome : s.pool.members.get? ep ≠ none := by
    rw [hm]
    exact Option.some_ne_none m
  cases step_entry b s e ep with
  | reacted record probes =>
    rw [hm] at record
    generalize (b.step s e).pool.members.get? ep = after at record ⊢
    cases record with
    | @some _ m' hreacts => exact ⟨m', rfl, .reacted hreacts probes⟩
  | @listed dialed rows hlisting record probes =>
    have hstays : (applyListing s.pool.members dialed rows).get? ep ≠ none :=
      fun hnone => hkept ⟨dialed, rows, hlisting, hsome, .inr hnone⟩
    obtain ⟨m', hm'⟩ := Option.ne_none_iff_exists'.mp hstays
    refine ⟨m', record.trans hm', .reacted ?_ probes⟩
    rcases applyListing_record hm' with ⟨m₀, hm₀, hcont, -⟩ | ⟨hadds, -⟩
    · obtain rfl := Option.some.inj (hm.symm.trans hm₀)
      exact ⟨hcont.probing, .inl ⟨hcont.ejectedUntil, hcont.ejections⟩⟩
    · exact absurd ⟨dialed, rows, hlisting, hsome, .inl hadds⟩ hkept
  | @ticked read occurs record probes =>
    rw [hm, Option.map_some] at record
    rw [hm, Option.any_some] at probes
    refine ⟨_, record, ?_⟩
    cases hdue : probeDue read m with
    | true =>
      rw [hdue, if_pos rfl] at probes
      refine .marked occurs hdue ?_ probes
      rw [markDue, if_pos hdue]
    | false =>
      rw [hdue] at probes
      refine .reacted ?_ probes
      rw [markDue, hdue]
      exact Reacts.refl m
  | judged occurs record probes =>
    rw [hm, Option.map_some] at record
    refine ⟨_, record, .judged occurs ?_ probes⟩
    split <;> rfl

/-- An ejection stands through an event other than the verdict of its probe. -/
theorem step_stands (hkept : ¬ Removes ep s e) (hother : ∀ probed, e.occurs ≠ .probed ep probed)
    {m : Member} (hm : s.pool.members.get? ep = some m) (hejected : m.ejectedUntil ≠ none) :
    ∃ m', (b.step s e).pool.members.get? ep = some m' ∧ m'.ejectedUntil = m.ejectedUntil ∧
      m'.ejections = m.ejections := by
  obtain ⟨m', hm', hstep⟩ := step_record (b := b) hkept hm
  refine ⟨m', hm', ?_⟩
  cases hstep with
  | reacted reacts probes =>
    rcases reacts.ejection with hsame | ⟨hnone, -⟩
    · exact hsame
    · exact absurd hnone hejected
  | marked occurs due record probes =>
    rw [record]
    exact ⟨rfl, rfl⟩
  | judged occurs record probes => exact absurd occurs (hother _)

/-- When the dial of a probe fails, the member is ejected once more, by the rule for repeated
failures. -/
theorem step_prolongs {probed : Option Connection} (h : e.occurs = .probed ep probed)
    (hfails : probed = none ∨ s.pool.closed = true) {m : Member}
    (hm : s.pool.members.get? ep = some m) :
    (b.step s e).pool.members.get? ep = some (b.prolong e.now m) := by
  rw [(step_probed h).1, OrdMap.get?_modify, hm, beq_self_eq_true, if_pos rfl, if_pos hfails]
  rfl

/-- An endpoint that has no record gets a new one, or none. -/
theorem step_absent (hnone : s.pool.members.get? ep = none) :
    (b.step s e).probesOf ep ≤ s.probesOf ep ∧
      ∀ m', (b.step s e).pool.members.get? ep = some m' →
        m'.probing = false ∧ m'.ejectedUntil = none := by
  have hstays (h : (b.step s e).pool.members.get? ep = none) (m' : Member) :
      (b.step s e).pool.members.get? ep = some m' →
        m'.probing = false ∧ m'.ejectedUntil = none := by
    rw [h]
    exact fun h => by cases h
  cases step_entry b s e ep with
  | reacted record probes =>
    rw [hnone] at record
    refine ⟨probes.le, hstays ?_⟩
    generalize (b.step s e).pool.members.get? ep = after at record
    cases record with
    | none => rfl
  | listed hlisting record probes =>
    refine ⟨probes.le, fun m' hm' => ?_⟩
    rw [record] at hm'
    rcases applyListing_record hm' with ⟨m, hm, -⟩ | ⟨-, hnew⟩
    · rw [hnone] at hm
      cases hm
    · exact ⟨hnew.probing, hnew.ejectedUntil⟩
  | ticked occurs record probes =>
    rw [hnone] at record probes
    exact ⟨probes.le, hstays record⟩
  | judged occurs record probes =>
    rw [hnone] at record
    exact ⟨by omega, hstays record⟩

end Record

/-! ## Runs -/

/-- What holds of the record of a member that discovery does not remove: it is marked while its
one probe is under way, it is ejected then, and its ejection has the length of its number. -/
structure RecordSound (b : Balancer) (clock probes : ℕ) (m : Member) : Prop where
  /-- The probes under way. -/
  probes : probes = if m.probing then 1 else 0
  /-- A marked member is ejected. -/
  ejected : m.probing = true → m.ejectedUntil ≠ none
  /-- The ejection began at some instant. -/
  since : ∀ t, m.ejectedUntil = some t → ∃ t₀ ≤ clock, t = t₀ + b.backoffFor m.ejections

/-- What holds of an endpoint whose record discovery does not remove. -/
structure Attended (b : Balancer) (ep : String) (s : System) : Prop where
  /-- No probe of it is under way while it has no record. -/
  absent : s.pool.members.get? ep = none → s.probesOf ep = 0
  /-- The record of the member, if it has one, is sound. -/
  record : ∀ m, s.pool.members.get? ep = some m → RecordSound b s.clock (s.probesOf ep) m

section Runs

variable {b : Balancer} {s : System} {e : Event} {ep : String}

/-- The record of a member that is neither ejected nor probed. -/
theorem RecordSound.of_admitted {clock : ℕ} {m : Member} (hprobing : m.probing = false)
    (hnone : m.ejectedUntil = none) : RecordSound b clock 0 m := by
  constructor
  · rw [hprobing]
    rfl
  · rw [hprobing]
    exact fun h => absurd h Bool.false_ne_true
  · rw [hnone]
    exact fun t ht => by cases ht

/-- A verdict is on the record that is marked for it. -/
theorem Attended.probing_of_verdict (h : Attended b ep s) (he : b.Enabled s e)
    {probed : Option Connection} (hverdict : e.occurs = .probed ep probed) :
    ∃ m, s.pool.members.get? ep = some m ∧ m.probing = true := by
  have hpossible := he.2.2
  rw [hverdict] at hpossible
  have hpos : 0 < s.probesOf ep := List.count_pos_iff.mpr hpossible.1
  cases hm : s.pool.members.get? ep with
  | none =>
    rw [h.absent hm] at hpos
    exact absurd hpos (Nat.lt_irrefl 0)
  | some m =>
    refine ⟨m, rfl, ?_⟩
    by_contra hprobing
    rw [(h.record m hm).probes, if_neg hprobing] at hpos
    exact absurd hpos (Nat.lt_irrefl 0)

/-- What an event does to a sound record leaves it sound. -/
theorem RecordStep.sound {m m' : Member} {s' : System} (h : RecordStep b ep s e m m' s')
    (he : b.Enabled s e) (hm : RecordSound b s.clock (s.probesOf ep) m) :
    RecordSound b e.later (s'.probesOf ep) m' := by
  obtain ⟨hnow, hlater, hpossible⟩ := he
  cases h with
  | reacted reacts probes =>
    constructor
    · rw [probes, reacts.probing]
      exact hm.probes
    · intro hprobing
      rw [reacts.probing] at hprobing
      rcases reacts.ejection with ⟨hsame, -⟩ | ⟨hnone, -⟩
      · rw [hsame]
        exact hm.ejected hprobing
      · exact absurd hnone (hm.ejected hprobing)
    · intro t ht
      rcases reacts.ejection with ⟨hsame, hcount⟩ | ⟨-, hnew⟩
      · obtain ⟨t₀, hle, hlength⟩ := hm.since t (hsame ▸ ht)
        refine ⟨t₀, by omega, ?_⟩
        rw [hcount]
        exact hlength
      · exact ⟨e.now, hlater, Option.some.inj (ht.symm.trans hnew)⟩
  | marked occurs due record probes =>
    obtain ⟨hejected, hfree⟩ := ejected_of_probeDue due
    have hcount := hm.probes
    rw [hfree] at hcount
    rw [record]
    refine ⟨?_, fun _ => hejected, fun t ht => ?_⟩
    · rw [probes, hcount]
      rfl
    · obtain ⟨t₀, hle, hlength⟩ := hm.since t ht
      exact ⟨t₀, by omega, hlength⟩
  | @judged probed occurs record probes =>
    have hcount : s'.probesOf ep = 0 := by
      rw [probes, hm.probes]
      split <;> rfl
    rw [record, hcount]
    split
    · refine ⟨rfl, fun hprobing => absurd hprobing Bool.false_ne_true, fun t ht => ?_⟩
      exact ⟨e.now, hlater, (Option.some.inj ht).symm⟩
    · exact RecordSound.of_admitted rfl rfl

/-- **One event** keeps what holds of an endpoint, unless it removes its record. -/
theorem Attended.step (h : Attended b ep s) (he : b.Retains ep s e) :
    Attended b ep (b.step s e) := by
  obtain ⟨henabled, hkept⟩ := he
  cases hm : s.pool.members.get? ep with
  | none =>
    obtain ⟨hle, hnew⟩ := step_absent (b := b) (e := e) hm
    have hzero : (b.step s e).probesOf ep = 0 := by
      rw [h.absent hm] at hle
      exact Nat.le_zero.mp hle
    refine ⟨fun _ => hzero, fun m' hm' => ?_⟩
    obtain ⟨hprobing, hnone⟩ := hnew m' hm'
    rw [hzero]
    exact RecordSound.of_admitted hprobing hnone
  | some m =>
    obtain ⟨m', hm', hstep⟩ := step_record (b := b) hkept hm
    refine ⟨fun hnone => ?_, fun m'' hm'' => ?_⟩
    · rw [hm'] at hnone
      cases hnone
    · obtain rfl := Option.some.inj (hm'.symm.trans hm'')
      exact hstep.sound henabled (h.record m hm)

/-- A probe is started when the ejection is over and no other one is under way. -/
theorem Attended.of_start (h : Attended b ep s) (he : b.Retains ep s e)
    (hstarts : s.probesOf ep < (b.step s e).probesOf ep) :
    s.probesOf ep = 0 ∧ ∃ read m t, e.occurs = .tick read ∧ read ≤ e.now ∧
      s.pool.members.get? ep = some m ∧ m.ejectedUntil = some t ∧ t ≤ read := by
  obtain ⟨⟨-, -, hpossible⟩, hkept⟩ := he
  cases hm : s.pool.members.get? ep with
  | none => exact absurd hstarts (Nat.not_lt.mpr (step_absent hm).1)
  | some m =>
    obtain ⟨m', -, hstep⟩ := step_record (b := b) hkept hm
    cases hstep with
    | reacted reacts probes => omega
    | @marked read occurs due record probes =>
      have hnone := (h.record m hm).probes
      rw [(ejected_of_probeDue due).2] at hnone
      rw [occurs] at hpossible
      simp only [probeDue, Bool.and_eq_true, Option.any_eq_true, decide_eq_true_eq] at due
      obtain ⟨⟨t, ht, hover⟩, -⟩ := due
      exact ⟨hnone, read, m, t, occurs, hpossible, rfl, ht, hover⟩
    | judged occurs record probes => omega

/-- An ejection stands through every run without a verdict on the member. -/
theorem run_stands {s' : System} {m : Member} (hm : s.pool.members.get? ep = some m)
    (hejected : m.ejectedUntil ≠ none)
    (hrun : Run b.step (fun s e => b.Retains ep s e ∧ ∀ probed, e.occurs ≠ .probed ep probed)
      s s') :
    ∃ m', s'.pool.members.get? ep = some m' ∧ m'.ejectedUntil = m.ejectedUntil ∧
      m'.ejections = m.ejections := by
  induction hrun with
  | refl => exact ⟨m, hm, rfl, rfl⟩
  | tail _ hguard ih =>
    obtain ⟨m₁, hm₁, huntil, hcount⟩ := ih
    obtain ⟨⟨-, hkept⟩, hother⟩ := hguard
    rw [← huntil] at hejected
    obtain ⟨m₂, hm₂, huntil', hcount'⟩ := step_stands (b := b) hkept hother hm₁ hejected
    exact ⟨m₂, hm₂, huntil'.trans huntil, hcount'.trans hcount⟩

/-- **Every run** that does not remove the record keeps it. -/
theorem run_attended {endpoints : List String} {now : ℕ} {rng : UInt64}
    (h : Run b.step (b.Retains ep) (fresh endpoints now rng) s) : Attended b ep s := by
  refine h.invariant (fun s e he hs => hs.step he) ⟨fun _ => rfl, fun m hm => ?_⟩
  rw [get?_fresh hm]
  exact RecordSound.of_admitted rfl rfl

end Runs

/-- The event is the verdict of a probe of the endpoint. -/
def judges (ep : String) (e : Event) : Bool :=
  match e.occurs with
  | .probed ep' _ => ep' == ep
  | _ => false

/-- A probe of the endpoint that ends in the event has failed or finds the pool closed, so it does
not reinstate it. -/
def Fails (ep : String) (s : System) (e : Event) : Prop :=
  ∀ probed, e.occurs = .probed ep probed → probed = none ∨ s.pool.closed = true

section Lengths

variable (b : Balancer)

/-- How long a member is ejected after an event. -/
def ejectedFor (ep : String) (s : System) (e : Event) : Option ℕ :=
  (((b.step s e).pool.members.get? ep).bind Member.ejectedUntil).map (· - e.now)

/-- How long the verdicts of the probes of a member eject it. -/
def ejectionLengths (ep : String) (s : System) : List Event → List (Option ℕ)
  | [] => []
  | e :: es =>
    if judges ep e then b.ejectedFor ep s e :: ejectionLengths ep (b.step s e) es
    else ejectionLengths ep (b.step s e) es

variable {b}

/-- **Failed probes in a row** eject the member for longer and longer. -/
theorem ejectionLengths_ascend {ep : String} {es : List Event} {s : System} {m : Member}
    (hm : s.pool.members.get? ep = some m) (hejected : m.ejectedUntil ≠ none)
    (hrun : Guarded b.step (fun s e => b.Retains ep s e ∧ Fails ep s e) s es) :
    ∃ counts : List ℕ, b.ejectionLengths ep s es = counts.map (some ∘ b.backoffFor) ∧
      ((m.ejections :: counts).map b.backoffFor).Pairwise (· ≤ ·) := by
  induction es generalizing s m with
  | nil => exact ⟨[], rfl, List.pairwise_singleton _ _⟩
  | cons e es ih =>
    obtain ⟨⟨⟨-, hkept⟩, hfails⟩, hrest⟩ := hrun
    by_cases hverdict : ∃ probed, e.occurs = .probed ep probed
    · obtain ⟨probed, hprobed⟩ := hverdict
      have hm' := step_prolongs (b := b) hprobed (hfails probed hprobed) hm
      obtain ⟨counts, hlengths, hascend⟩ := ih hm' (Option.some_ne_none _) hrest
      have hjudges : judges ep e = true := by simp [judges, hprobed]
      have hfor : b.ejectedFor ep s e = some (b.backoffFor (saturatingSucc m.ejections)) := by
        rw [ejectedFor, hm']
        simp [prolong]
      refine ⟨saturatingSucc m.ejections :: counts, ?_, ?_⟩
      · rw [ejectionLengths, if_pos hjudges, hfor, hlengths]
        rfl
      · refine List.pairwise_cons.mpr ⟨fun d hd => ?_, hascend⟩
        rcases List.mem_cons.mp hd with rfl | hd
        · exact b.backoffFor_le_succ m.ejections
        · exact (b.backoffFor_le_succ m.ejections).trans ((List.pairwise_cons.mp hascend).1 d hd)
    · have hother (probed : Option Connection) : e.occurs ≠ .probed ep probed :=
        fun hprobed => hverdict ⟨probed, hprobed⟩
      obtain ⟨m', hm', huntil, hcount⟩ := step_stands (b := b) hkept hother hm hejected
      obtain ⟨counts, hlengths, hascend⟩ := ih hm' (huntil ▸ hejected) hrest
      have hjudges : ¬ judges ep e = true := by
        unfold judges
        split
        · next ep' probed hprobed =>
          intro hep
          obtain rfl := eq_of_beq hep
          exact hother probed hprobed
        · exact Bool.false_ne_true
      refine ⟨counts, ?_, ?_⟩
      · rw [ejectionLengths, if_neg hjudges, hlengths]
      · rw [← hcount]
        exact hascend

end Lengths

/-- **An ejection stands until its probe.** In every run that does not remove the member, an
ejection lasts as long as its number says, and nothing but the verdict of a probe of that record
changes it; a probe is started only when the ejection is over and no other one is under way.
Failed probes in a row eject the member for longer and longer, within the options, whatever
the number of ejections. -/
theorem ejection_stands (b : Balancer) (hduration : b.opts.ejectBackoff ≤ durationMax)
    (endpoints : List String) (now : ℕ) (rng : UInt64) (ep : String) (s : System)
    (hrun : Run b.step (b.Retains ep) (fresh endpoints now rng) s) :
    (∀ m t, s.pool.members.get? ep = some m → m.ejectedUntil = some t →
      (∃ since ≤ s.clock, t = since + b.backoffFor m.ejections) ∧
      (∀ s', Run b.step (fun s e => b.Retains ep s e ∧ ∀ probed, e.occurs ≠ .probed ep probed)
          s s' →
        ∃ m', s'.pool.members.get? ep = some m' ∧ m'.ejectedUntil = some t ∧
          m'.ejections = m.ejections) ∧
      ∀ es, Guarded b.step (fun s e => b.Retains ep s e ∧ Fails ep s e) s es →
        ∃ lengths : List ℕ, b.ejectionLengths ep s es = lengths.map some ∧
          (b.backoffFor m.ejections :: lengths).Pairwise (· ≤ ·) ∧
          ∀ d ∈ b.backoffFor m.ejections :: lengths,
            min b.opts.ejectBackoff b.opts.ejectBackoffMax ≤ d ∧ d ≤ b.opts.ejectBackoffMax) ∧
    (∀ e, b.Retains ep s e →
      (∀ probed, e.occurs = .probed ep probed →
        ∃ m, s.pool.members.get? ep = some m ∧ m.probing = true) ∧
      (s.probesOf ep < (b.step s e).probesOf ep →
        s.probesOf ep = 0 ∧ ∃ read m t, e.occurs = .tick read ∧ read ≤ e.now ∧
          s.pool.members.get? ep = some m ∧ m.ejectedUntil = some t ∧ t ≤ read)) ∧
    ∀ ejections, doublings ejections < 2 ^ 32 ∧ b.backoffFor ejections ≤ durationMax ∧
      b.backoffFor ejections ≤ b.backoffFor (saturatingSucc ejections) ∧
      min b.opts.ejectBackoff b.opts.ejectBackoffMax ≤ b.backoffFor ejections ∧
      b.backoffFor ejections ≤ b.opts.ejectBackoffMax := by
  have hattended := run_attended hrun
  refine ⟨fun m t hm ht => ?_, fun e he => ⟨?_, ?_⟩, fun ejections => ?_⟩
  · have hejected : m.ejectedUntil ≠ none := by
      rw [ht]
      exact Option.some_ne_none t
    refine ⟨(hattended.record m hm).since t ht, fun s' hquiet => ?_, fun es hfailing => ?_⟩
    · obtain ⟨m', hm', huntil, hcount⟩ := run_stands hm hejected hquiet
      exact ⟨m', hm', huntil.trans ht, hcount⟩
    · obtain ⟨counts, hlengths, hascend⟩ := ejectionLengths_ascend hm hejected hfailing
      refine ⟨counts.map b.backoffFor, ?_, hascend, fun d hd => ?_⟩
      · rw [hlengths, List.map_map]
      · rw [← List.map_cons] at hd
        obtain ⟨n, -, rfl⟩ := List.mem_map.mp hd
        exact b.backoffFor_bounds hduration n
  · intro probed hverdict
    exact hattended.probing_of_verdict he.1 hverdict
  · intro hstarts
    exact hattended.of_start he hstarts
  · obtain ⟨hleast, hmost⟩ := b.backoffFor_bounds hduration ejections
    refine ⟨(doublings_bounds ejections).2, ?_, b.backoffFor_le_succ ejections, hleast, hmost⟩
    rw [backoffFor_eq]
    omega

/-- A pool that ejects a member at its first failure. -/
def brittle : Balancer := ⟨0, { loadBalancing := .roundRobin, ejectErrors := 1 }, none, .quorum⟩

/-- The events of a checkout whose dial of the member `a` fails, so that the member is ejected. -/
def tripping : List Event :=
  [⟨0, 0, true, .start none⟩, ⟨0, 0, true, .dialFailed ⟨none, 2, .dialing ["a", "b"]⟩ true⟩]

/-- The events of the example that follow: the background thread probes the member, and the probe
fails. -/
def failing : List Event :=
  [⟨5 * 10 ^ 9, 5 * 10 ^ 9, true, .tick (5 * 10 ^ 9)⟩,
    ⟨6 * 10 ^ 9, 6 * 10 ^ 9, true, .probed "a" none⟩]

/-- An event that is no listing removes no record. -/
theorem not_removes {ep : String} {s : System} {e : Event} (h : listing e.occurs = none) :
    ¬ Removes ep s e := by
  rintro ⟨dialed, rows, hlisting, -⟩
  rw [h] at hlisting
  cases hlisting

/-- The events of the example that eject the member can happen, and none of them removes it. -/
theorem tripping_guarded :
    Guarded brittle.step (brittle.Retains "a") (fresh ["a", "b"] 0 1) tripping :=
  ⟨⟨⟨le_rfl, le_rfl, trivial⟩, not_removes rfl⟩,
    ⟨⟨le_rfl, le_rfl, by decide, _, _, rfl⟩, not_removes rfl⟩, trivial⟩

/-- The events of the example that probe the member can happen, and the verdict is that the probe
failed. -/
theorem failing_guarded :
    Guarded brittle.step (fun s e => brittle.Retains "a" s e ∧ Fails "a" s e)
      (tripping.foldl brittle.step (fresh ["a", "b"] 0 1)) failing := by
  refine ⟨⟨⟨⟨Nat.zero_le _, le_rfl, Nat.le_refl _⟩, not_removes rfl⟩, fun _ h => by cases h⟩,
    ⟨⟨⟨by decide, le_rfl, by decide, fun _ h => by cases h⟩, not_removes rfl⟩, ?_⟩, trivial⟩
  intro probed h
  cases h
  exact .inl rfl

/-- The member that failed is ejected for five seconds, and for ten after its failed probe. -/
theorem ejection_stands_tripped :
    brittle.ejectionLengths "a" (tripping.foldl brittle.step (fresh ["a", "b"] 0 1)) failing =
        [some (10 * 10 ^ 9)] ∧
      ∃ m, (tripping.foldl brittle.step (fresh ["a", "b"] 0 1)).pool.members.get? "a" = some m ∧
        m.ejectedUntil = some (5 * 10 ^ 9) ∧ ∃ lengths : List ℕ,
          brittle.ejectionLengths "a" (tripping.foldl brittle.step (fresh ["a", "b"] 0 1))
            failing = lengths.map some ∧
          (brittle.backoffFor m.ejections :: lengths).Pairwise (· ≤ ·) := by
  obtain ⟨hstands, -⟩ := ejection_stands brittle (by decide) ["a", "b"] 0 1 "a" _
    tripping_guarded.run
  refine ⟨by decide, _, rfl, rfl, ?_⟩
  obtain ⟨-, -, hlengths⟩ := hstands _ (5 * 10 ^ 9) rfl rfl
  obtain ⟨lengths, heq, hascend, -⟩ := hlengths failing failing_guarded
  exact ⟨lengths, heq, hascend⟩

end Balancer

end Skaidb
