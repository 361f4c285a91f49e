import Skaidb.Pool.Changes

/-!
# The last usable member

Reports spare the last usable member. The verdict of a probe is applied to the record that has
the endpoint when the dial is over; a record marked by the pass that sent the probe is ejected
already, but discovery may have dropped it and listed the endpoint again meanwhile. The clock's
panics (`Skaidb.Pool.Clock`) are left out of the runs.
-/

namespace Skaidb

open Program

namespace Balancer

/-- A failed probe, or one of a closed pool, finds the record still marked, or another member
is usable. -/
def VerdictSpares (s : System) (e : Event) : Prop :=
  ∀ ep probed, e.occurs = .probed ep probed → probed = none ∨ s.pool.closed = true →
    ∀ m, s.pool.members.get? ep = some m →
      m.probing = true ∨ ∃ k, k ≠ ep ∧ s.pool.members.Usable k

/-- Members whose probe is under way are ejected. -/
def ProbedEjected (members : Members) : Prop :=
  ∀ ep m, members.get? ep = some m → m.probing = true → m.ejectedUntil ≠ none

section Members

variable {members members' : Members} {ep : String} {f : Member → Member}

/-- Some member stays usable when every one that is usable stays so. -/
theorem anyUsable_of_relates (h : members.AnyUsable)
    (hrel : OrdMap.Relates (fun m m' : Member => m.usable = true → m'.usable = true)
      members members') : members'.AnyUsable := by
  obtain ⟨k, m, hm, husable⟩ := h
  obtain ⟨m', hm', hstays⟩ := hrel.value hm
  exact ⟨k, m', hm', hstays husable⟩

/-- A change of one member that leaves it usable. -/
theorem anyUsable_modify (h : members.AnyUsable)
    (hf : ∀ m : Member, m.usable = true → (f m).usable = true) :
    Members.AnyUsable (members.modify ep f) :=
  anyUsable_of_relates h (OrdMap.relates_modify (fun _ h => h) hf _)

/-- A change of one member that leaves it out: the others decide. -/
theorem anyUsable_modify_iff (hf : ∀ m, (f m).usable = false) {m : Member}
    (hm : members.get? ep = some m) :
    Members.AnyUsable (members.modify ep f) ↔ ∃ k, k ≠ ep ∧ members.Usable k := by
  constructor
  · rintro ⟨k, m', hm', husable⟩
    rw [OrdMap.get?_modify] at hm'
    by_cases hk : k = ep
    · subst hk
      rw [hm, beq_self_eq_true, if_pos rfl, Option.map_some] at hm'
      obtain rfl := Option.some.inj hm'
      rw [hf m] at husable
      cases husable
    · rw [beq_eq_false_iff_ne.mpr hk] at hm'
      exact ⟨k, hk, m', hm', husable⟩
  · rintro ⟨k, hk, m', hm', husable⟩
    refine ⟨k, m', ?_, husable⟩
    rw [OrdMap.get?_modify, beq_eq_false_iff_ne.mpr hk]
    exact hm'

/-- Some member is usable exactly when one of the entries of the map is. -/
theorem anyUsable_iff : members.AnyUsable ↔ ∃ e ∈ members.entries, e.2.usable = true := by
  constructor
  · rintro ⟨ep, m, hm, husable⟩
    exact ⟨(ep, m), OrdMap.mem_entries.mpr hm, husable⟩
  · rintro ⟨⟨ep, m⟩, hmem, husable⟩
    exact ⟨ep, m, OrdMap.mem_entries.mp hmem, husable⟩

/-- Marking a member as being probed leaves the end of its ejection alone. -/
theorem ejectedUntil_markDue (read : ℕ) (m : Member) :
    (markDue read m).ejectedUntil = m.ejectedUntil := by
  unfold markDue
  split <;> rfl

/-- Marking a member that is due for a probe leaves it usable or not as it was. -/
theorem usable_markDue (read : ℕ) (m : Member) : (markDue read m).usable = m.usable := by
  unfold markDue
  split <;> rfl

/-- A marked member was marked before or is due. -/
theorem probing_markDue {read : ℕ} {m : Member} (h : (markDue read m).probing = true) :
    m.probing = true ∨ probeDue read m = true := by
  unfold markDue at h
  split at h
  · next hdue => exact .inr hdue
  · exact .inl h

/-- A member whose probe is due is ejected and not marked. -/
theorem ejected_of_probeDue {read : ℕ} {m : Member} (h : probeDue read m = true) :
    m.ejectedUntil ≠ none ∧ m.probing = false := by
  simp only [probeDue, Bool.and_eq_true, Bool.not_eq_true'] at h
  refine ⟨fun hnone => ?_, h.2⟩
  rw [hnone] at h
  cases h.1

/-- The endpoints to probe are those of the members whose probe is due. -/
theorem mem_due {read : ℕ} :
    ep ∈ (members.entries.filter fun m => probeDue read m.2).map Prod.fst ↔
      ∃ m, members.get? ep = some m ∧ probeDue read m = true := by
  rw [List.mem_map]
  constructor
  · rintro ⟨⟨_, m⟩, hentry, rfl⟩
    obtain ⟨hentry, hdue⟩ := List.mem_filter.mp hentry
    exact ⟨m, OrdMap.mem_entries.mp hentry, hdue⟩
  · rintro ⟨m, hm, hdue⟩
    exact ⟨(ep, m), List.mem_filter.mpr ⟨OrdMap.mem_entries.mpr hm, hdue⟩, rfl⟩

/-- A change of one member that leaves its probe and its ejection alone, or ends the probe. -/
theorem ProbedEjected.modify (h : ProbedEjected members)
    (hf : ∀ m : Member, (f m).probing = true →
      m.probing = true ∧ (f m).ejectedUntil = m.ejectedUntil) :
    ProbedEjected (members.modify ep f) := by
  intro k m' hm' hprobing
  rw [OrdMap.get?_modify] at hm'
  split at hm'
  · obtain ⟨m, hm, rfl⟩ := Option.map_eq_some_iff.mp hm'
    obtain ⟨hmarked, hsame⟩ := hf m hprobing
    rw [hsame]
    exact h k m hm hmarked
  · exact h k m' hm' hprobing

end Members

section Verdict

variable {b : Balancer} {now : ℕ} {ep : String} {probed : Option Connection} {st : BalancerState}

/-- A member that is admitted again and was usable stays so. -/
theorem usable_readmitted {m : Member} (h : m.usable = true) :
    (readmitted now m).usable = true := by
  unfold Member.usable at h ⊢
  exact (Bool.and_eq_true _ _).mpr ⟨rfl, ((Bool.and_eq_true _ _).mp h).2⟩

/-- **The verdict of a probe** leaves a usable member exactly when it is no bad one, its record
is still marked or another member is usable. -/
theorem anyUsable_probeVerdict_iff (hinv : ProbedEjected st.members)
    (hany : st.members.AnyUsable) :
    (b.probeVerdict now ep probed st).members.AnyUsable ↔
      (probed = none ∨ st.closed = true → ∀ m, st.members.get? ep = some m →
        m.probing = true ∨ ∃ k, k ≠ ep ∧ st.members.Usable k) := by
  by_cases hout : probed = none ∨ st.closed = true
  · have hprolong (m : Member) : (b.prolong now m).usable = false :=
      usable_of_ejected (Option.some_ne_none _)
    rw [probeVerdict_out hout]
    constructor
    · exact fun h _ m hm => .inr ((anyUsable_modify_iff hprolong hm).mp h)
    · intro h
      cases hm : st.members.get? ep with
      | none =>
        rw [OrdMap.modify_of_none hm]
        exact hany
      | some m =>
        refine (anyUsable_modify_iff hprolong hm).mpr ?_
        rcases h hout m hm with hprobing | hother
        · -- The record is ejected, so the usable member is another one.
          obtain ⟨k, m', hm', husable⟩ := hany
          refine ⟨k, ?_, m', hm', husable⟩
          rintro rfl
          obtain rfl := Option.some.inj (hm.symm.trans hm')
          rw [usable_of_ejected (hinv k m hm hprobing)] at husable
          cases husable
        · exact hother
  · refine ⟨fun _ h => absurd h hout, fun _ => ?_⟩
    rw [probeVerdict_in hout]
    exact anyUsable_modify hany fun m => usable_readmitted

end Verdict

/-! ## One event -/

section Step

variable {b : Balancer} {e : Event} {s s' : System}

/-- **One event** keeps that members whose probe is under way are ejected. -/
theorem MembersStep.probedEjected (h : MembersStep b s e s')
    (hs : ProbedEjected s.pool.members) : ProbedEjected s'.pool.members := by
  cases h with
  | reported members out probes =>
    intro ep m' hm' hprobing
    obtain ⟨m, hm, hmild⟩ := members.mild.origin hm'
    exact hmild.ejected (hs ep m hm (hmild.probing ▸ hprobing))
  | claimed ep members out probes =>
    rw [members]
    exact hs.modify fun m h => ⟨h, rfl⟩
  | freed ep members out probes =>
    rw [members]
    exact hs.modify fun m h => ⟨h, rfl⟩
  | moved ep ep' others members before after probes =>
    rw [members]
    exact ProbedEjected.modify (hs.modify fun m h => ⟨h, rfl⟩) fun m h => ⟨h, rfl⟩
  | listed hlisting members out probes =>
    rw [members]
    intro ep m' hm' hprobing
    rcases applyListing_record hm' with ⟨m, hm, hcont, -⟩ | ⟨-, hnew⟩
    · rw [hcont.ejectedUntil]
      exact hs ep m hm (hcont.probing ▸ hprobing)
    · rw [hnew.probing] at hprobing
      cases hprobing
  | ticked read members out probes =>
    rw [members]
    intro ep m' hm' hprobing
    rw [OrdMap.get?_alter, Option.bind_eq_some_iff] at hm'
    obtain ⟨m, hm, hmark⟩ := hm'
    obtain rfl := Option.some.inj hmark
    rw [ejectedUntil_markDue]
    rcases probing_markDue hprobing with hold | hdue
    · exact hs ep m hm hold
    · exact (ejected_of_probeDue hdue).1
  | @probed ep probed occurs members out probes =>
    rw [members]
    by_cases hout : probed = none ∨ s.pool.closed = true
    · rw [probeVerdict_out hout]
      exact hs.modify fun m h => (nomatch h)
    · rw [probeVerdict_in hout]
      exact hs.modify fun m h => (nomatch h)

/-- An event that is neither a listing nor a verdict leaves a usable member. -/
theorem MembersStep.anyUsable (h : MembersStep b s e s') (hany : s.pool.members.AnyUsable)
    (hlisting : listing e.occurs = none) (hprobe : ∀ ep probed, e.occurs ≠ .probed ep probed) :
    s'.pool.members.AnyUsable := by
  cases h with
  | reported members out probes => exact members.usable hany
  | claimed ep members out probes =>
    rw [members]
    exact anyUsable_modify hany fun m h => h
  | freed ep members out probes =>
    rw [members]
    exact anyUsable_modify hany fun m h => h
  | moved ep ep' others members before after probes =>
    rw [members]
    exact anyUsable_modify (anyUsable_modify hany fun m h => h) fun m h => h
  | listed hlisted members out probes =>
    rw [hlisting] at hlisted
    cases hlisted
  | ticked read members out probes =>
    rw [members]
    exact anyUsable_of_relates hany
      (OrdMap.relates_alter (fun m h => (usable_markDue read m).trans h) _)
  | probed occurs members out probes => exact absurd occurs (hprobe _ _)

/-- **One event** other than a listing leaves a usable member exactly when it is no verdict
that hits the last one. -/
theorem step_anyUsable_iff (h : MembersStep b s e (b.step s e))
    (hs : ProbedEjected s.pool.members) (hany : s.pool.members.AnyUsable)
    (hlisting : listing e.occurs = none) :
    (b.step s e).pool.members.AnyUsable ↔ VerdictSpares s e := by
  by_cases hprobe : ∃ ep probed, e.occurs = .probed ep probed
  · obtain ⟨ep, probed, hoccurs⟩ := hprobe
    have hmembers : (b.step s e).pool.members =
        (b.probeVerdict e.now ep probed s.pool).members := by
      rw [step, hoccurs]
      rfl
    rw [hmembers, anyUsable_probeVerdict_iff hs hany]
    constructor
    · intro hspares ep' probed' hoccurs'
      obtain ⟨rfl, rfl⟩ : ep = ep' ∧ probed = probed' := by
        simpa using hoccurs.symm.trans hoccurs'
      exact hspares
    · exact fun hspares => hspares ep probed hoccurs
  · have hother (ep : String) (probed : Option Connection) : e.occurs ≠ .probed ep probed :=
      fun hoccurs => hprobe ⟨ep, probed, hoccurs⟩
    exact ⟨fun _ ep probed hoccurs => absurd hoccurs (hother ep probed),
      fun _ => h.anyUsable hany hlisting hother⟩

end Step

/-! ## Without discovery -/

/-- The probes under way are of different members, each of them marked. -/
structure ProbesMarked (s : System) : Prop where
  /-- One probe for a member. -/
  nodup : s.probes.Nodup
  /-- Each member that is being probed is marked so in its record. -/
  marked : ∀ ep ∈ s.probes, ∃ m, s.pool.members.get? ep = some m ∧ m.probing = true

section Off

variable {b : Balancer} {e : Event} {s s' : System}

/-- The marks that say which members are being probed are what they were before. -/
def SameMarks (members members' : Members) : Prop :=
  OrdMap.Relates (fun m m' : Member => m'.probing = m.probing) members members'

/-- A change of one member that leaves its mark. -/
theorem sameMarks_modify {f : Member → Member} (hf : ∀ m : Member, (f m).probing = m.probing)
    (members : Members) (ep : String) : SameMarks members (members.modify ep f) :=
  OrdMap.relates_modify (R := fun m m' : Member => m'.probing = m.probing) (fun _ => rfl) hf members

/-- The probes under way are still marked when neither they nor the marks have changed. -/
theorem ProbesMarked.of_sameMarks (h : ProbesMarked s) (hprobes : s'.probes = s.probes)
    (hmarks : SameMarks s.pool.members s'.pool.members) : ProbesMarked s' := by
  refine ⟨hprobes ▸ h.nodup, fun ep hep => ?_⟩
  obtain ⟨m, hm, hprobing⟩ := h.marked ep (hprobes ▸ hep)
  obtain ⟨m', hm', hsame⟩ := hmarks.value hm
  exact ⟨m', hm', hsame.trans hprobing⟩

/-- **One event** other than a listing keeps the marks of the probes under way. -/
theorem MembersStep.probesMarked (h : MembersStep b s e s') (hs : ProbesMarked s)
    (hlisting : listing e.occurs = none) : ProbesMarked s' := by
  cases h with
  | reported members out probes =>
    exact hs.of_sameMarks probes (members.mild.mono fun _ _ hm => hm.probing)
  | claimed ep members out probes =>
    refine hs.of_sameMarks probes ?_
    rw [members]
    exact sameMarks_modify (f := Member.claim) (fun m => rfl) _ _
  | freed ep members out probes =>
    refine hs.of_sameMarks probes ?_
    rw [members]
    exact sameMarks_modify (f := Member.free) (fun m => rfl) _ _
  | moved ep ep' others members before after probes =>
    refine hs.of_sameMarks probes ?_
    rw [members]
    exact (sameMarks_modify (f := Member.free) (fun m => rfl) _ _).trans
      (fun _ _ _ h h' => h'.trans h) (sameMarks_modify (f := Member.claim) (fun m => rfl) _ _)
  | listed hlisted members out probes =>
    rw [hlisting] at hlisted
    cases hlisted
  | ticked read members out probes =>
    have hget (k : String) : s'.pool.members.get? k =
        (s.pool.members.get? k).map (markDue read) := by
      rw [members, OrdMap.get?_alter]
      cases s.pool.members.get? k <;> rfl
    constructor
    · rw [probes]
      refine List.nodup_append.mpr ⟨?_, hs.nodup, fun k hk k' hk' heq => ?_⟩
      · exact s.pool.members.nodup_keys.sublist (List.filter_sublist.map Prod.fst)
      · -- What is due is not marked, and what is probed is.
        subst heq
        obtain ⟨m, hm, hmdue⟩ := mem_due.mp hk
        obtain ⟨m', hm', hprobing⟩ := hs.marked k hk'
        obtain rfl := Option.some.inj (hm.symm.trans hm')
        rw [(ejected_of_probeDue hmdue).2] at hprobing
        cases hprobing
    · intro k hk
      rw [probes, List.mem_append] at hk
      rw [hget]
      rcases hk with hk | hk
      · obtain ⟨m, hm, hmdue⟩ := mem_due.mp hk
        refine ⟨_, congrArg _ hm, ?_⟩
        rw [markDue, if_pos hmdue]
      · obtain ⟨m, hm, hprobing⟩ := hs.marked k hk
        refine ⟨_, congrArg _ hm, ?_⟩
        unfold markDue
        split
        · rfl
        · exact hprobing
  | @probed ep probed occurs members out probes =>
    have hget {k : String} (hk : k ≠ ep) :
        s'.pool.members.get? k = s.pool.members.get? k := by
      rw [members]
      by_cases hout : probed = none ∨ s.pool.closed = true
      · rw [probeVerdict_out hout, OrdMap.get?_modify, beq_eq_false_iff_ne.mpr hk]
        rfl
      · rw [probeVerdict_in hout, OrdMap.get?_modify, beq_eq_false_iff_ne.mpr hk]
        rfl
    constructor
    · rw [probes]
      exact hs.nodup.erase ep
    · intro k hk
      rw [probes] at hk
      have hne : k ≠ ep := by
        rintro rfl
        exact hs.nodup.not_mem_erase hk
      rw [hget hne]
      exact hs.marked k (List.mem_of_mem_erase hk)

/-- With discovery off no event is a listing, so the members are the endpoints of the builder for
good. -/
theorem listing_of_off (hheld : HeldKept b s) (he : b.Enabled s e)
    (hoff : b.opts.discover = false) : listing e.occurs = none := by
  obtain ⟨-, -, hpossible⟩ := he
  cases hwhat : e.occurs with
  | listed k answer =>
    rw [hwhat] at hpossible
    obtain ⟨hk, c, hphase⟩ := hpossible
    have hon := hheld.listing k hk c hphase
    rw [hoff] at hon
    cases hon
  | refresh c answer =>
    rw [hwhat] at hpossible
    have hon := hpossible.2
    rw [hoff] at hon
    cases hon
  | _ => rfl

/-- A verdict on a marked member spares the last usable one. -/
theorem verdictSpares_of_marked (hs : ProbesMarked s) (he : b.Enabled s e) :
    VerdictSpares s e := by
  intro ep probed hoccurs _ m hm
  have hpending : ep ∈ s.probes := by
    have hpossible := he.2.2
    rw [hoccurs] at hpossible
    exact hpossible.1
  obtain ⟨m', hm', hprobing⟩ := hs.marked ep hpending
  obtain rfl := Option.some.inj (hm.symm.trans hm')
  exact .inl hprobing

end Off

/-! ## Whole runs -/

section Runs

variable {b : Balancer} {endpoints : List String} {now : ℕ} {rng : UInt64} {s s' : System}

/-- Every member of a pool that has just been built is a seed of which nothing is known yet. -/
theorem get?_fresh {ep : String} {m : Member}
    (h : (fresh endpoints now rng).pool.members.get? ep = some m) : m = Member.new true := by
  obtain ⟨_, -, hpair⟩ := List.mem_map.mp (OrdMap.mem_of_get?_ofList h)
  exact (Prod.mk.inj hpair).2.symm

/-- In every state a pool reaches, members whose probe is under way are ejected. -/
theorem reaches_probedEjected (h : b.Reaches (fresh endpoints now rng) s) :
    ProbedEjected s.pool.members := by
  obtain ⟨hidle, hheld⟩ := reaches_kept (b := b) (s := fresh endpoints now rng) Run.refl
  refine invariant_of_changes (I := fun s => ProbedEjected s.pool.members) (fun _ _ he => he)
    (fun s e _ _ hchange _ hs => hchange.probedEjected hs) hidle hheld h ?_
  intro ep m hm hprobing
  rw [get?_fresh hm] at hprobing
  cases hprobing

/-- A pool built with at least one endpoint starts with a usable member. -/
theorem fresh_anyUsable (h : Client.dedup endpoints ≠ []) :
    (fresh endpoints now rng).pool.members.AnyUsable := by
  obtain ⟨ep, hep⟩ := List.exists_mem_of_ne_nil _ h
  have hkey : ep ∈ ((Client.dedup endpoints).map fun ep => (ep, Member.new true)).map Prod.fst := by
    simpa using hep
  have hsome : (fresh endpoints now rng).pool.members.get? ep ≠ none :=
    OrdMap.get?_ofList_ne_none.mpr hkey
  obtain ⟨m, hm⟩ := Option.ne_none_iff_exists'.mp hsome
  refine ⟨ep, m, hm, ?_⟩
  rw [get?_fresh hm]
  rfl

/-- A run of events other than listings, each of which spares the last usable member. -/
theorem run_anyUsable (h : b.Reaches (fresh endpoints now rng) s)
    (hrun : Run b.step (fun s e => b.Enabled s e ∧ listing e.occurs = none ∧ VerdictSpares s e)
      s s') (hs : s.pool.members.AnyUsable) : s'.pool.members.AnyUsable := by
  obtain ⟨hidle, hheld⟩ := reaches_kept h
  have hinv : ProbedEjected s'.pool.members ∧ s'.pool.members.AnyUsable :=
    invariant_of_changes (I := fun s => ProbedEjected s.pool.members ∧ s.pool.members.AnyUsable)
      (fun _ _ he => he.1)
      (fun s e _ he hchange _ hs => ⟨hchange.probedEjected hs.1,
        (step_anyUsable_iff hchange hs.1 hs.2 he.2.1).mpr he.2.2⟩)
      hidle hheld hrun ⟨reaches_probedEjected h, hs⟩
  exact hinv.2

/-- With discovery off every event spares the last usable member. -/
theorem reaches_spares (hoff : b.opts.discover = false)
    (h : b.Reaches (fresh endpoints now rng) s) :
    Run b.step (fun s e => b.Enabled s e ∧ listing e.occurs = none ∧ VerdictSpares s e)
      (fresh endpoints now rng) s := by
  induction h with
  | refl => exact Run.refl
  | @tail s e hreach he ih =>
    obtain ⟨hidle, hheld⟩ := reaches_kept (b := b) (s := fresh endpoints now rng) Run.refl
    have hmarked : ProbesMarked s := by
      refine invariant_of_changes (I := ProbesMarked) (fun _ _ he => he.1)
        (fun s e _ he hchange _ hs => hchange.probesMarked hs he.2.1) hidle hheld ih ?_
      exact ⟨List.nodup_nil, fun ep hep => absurd hep List.not_mem_nil⟩
    exact ih.tail ⟨he, listing_of_off (reaches_kept hreach).2 he hoff,
      verdictSpares_of_marked hmarked he⟩

end Runs

/-- **The last usable member.** In every state a pool reaches that has a usable member, an
event other than a listing leaves a usable member exactly when it is no verdict of a failed
probe (or of a closed pool) whose record is not the marked one and no other member is usable;
so does every run of such events. With discovery off every state that a pool over some
endpoint reaches has a usable member. -/
theorem last_usable_spared (b : Balancer) (endpoints : List String) (now : ℕ) (rng : UInt64) :
    (∀ s, b.Reaches (fresh endpoints now rng) s → s.pool.members.AnyUsable →
      (∀ e, b.Enabled s e → listing e.occurs = none →
        ((b.step s e).pool.members.AnyUsable ↔ VerdictSpares s e)) ∧
      ∀ s', Run b.step (fun s e => b.Enabled s e ∧ listing e.occurs = none ∧ VerdictSpares s e)
          s s' → s'.pool.members.AnyUsable) ∧
    (Client.dedup endpoints ≠ [] → b.opts.discover = false →
      ∀ s, b.Reaches (fresh endpoints now rng) s → s.pool.members.AnyUsable) := by
  refine ⟨fun s hreach hany => ⟨fun e he hlisting => ?_, fun s' hrun => ?_⟩,
    fun hsome hoff s hreach => ?_⟩
  · obtain ⟨hidle, hheld⟩ := reaches_kept hreach
    exact step_anyUsable_iff (step_changes hidle hheld he).1 (reaches_probedEjected hreach) hany
      hlisting
  · exact run_anyUsable hreach hrun hany
  · exact run_anyUsable Run.refl (reaches_spares hoff hreach) (fresh_anyUsable hsome)

/-! ## A member that is listed again while its probe dials -/

/-- A pool that learns its members and ejects them at the first failure. -/
def strict : Balancer := ⟨0, { discover := true, ejectErrors := 1 }, none, .quorum⟩

/-- The member `x` is learned of, fails and is marked for its probe. -/
def probing : List Event :=
  [⟨0, 0, true, .start none⟩, ⟨0, 0, true, .dialed ⟨none, 2, .dialing ["a", "b", "c"]⟩⟩,
    ⟨0, 0, true, .opened ⟨none, 2, .opening (pooled "a" false false)⟩⟩,
    ⟨0, 0, true, .listed ⟨none, 2, .listing (pooled "a" false false)⟩
      (answered [memberRow "a" "ready" true, memberRow "x" "ready" false])⟩,
    ⟨0, 0, true, .start none⟩,
    ⟨0, 0, true, .dialFailed ⟨none, 2, .dialing ["x", "b", "a", "c"]⟩ true⟩,
    ⟨0, 0, true, .dialed ⟨none, 2, .dialing ["b", "a", "c"]⟩⟩,
    ⟨0, 0, true, .opened ⟨none, 2, .opening (pooled "b" false false)⟩⟩,
    ⟨5 * 10 ^ 9, 5 * 10 ^ 9, true, .tick (5 * 10 ^ 9)⟩]

/-- A first connection to `b` does not list `x`, and one to `c` lists it again. -/
def probedAnew : List Event :=
  [.listed ⟨none, 2, .listing (pooled "b" false false)⟩ (answered [memberRow "b" "ready" true]),
    .start none, .dialed ⟨none, 2, .dialing ["c", "b", "a"]⟩,
    .opened ⟨none, 2, .opening (pooled "c" false false)⟩,
    .listed ⟨none, 2, .listing (pooled "c" false false)⟩
      (answered [memberRow "c" "resyncing" true, memberRow "x" "ready" false])].map
    fun what => ⟨5 * 10 ^ 9, 5 * 10 ^ 9, true, what⟩

/-- The event of the example in which the probe of `x` fails. -/
def probeFails : Event := ⟨5 * 10 ^ 9, 5 * 10 ^ 9, true, .probed "x" none⟩

/-- The events up to the probe can happen. -/
theorem probing_guarded :
    Guarded strict.step strict.Enabled (fresh ["a", "b", "c"] 0 453) probing :=
  ⟨⟨le_rfl, le_rfl, trivial⟩, ⟨le_rfl, le_rfl, by decide, _, _, rfl⟩,
    ⟨le_rfl, le_rfl, by decide, _, rfl⟩, ⟨le_rfl, le_rfl, by decide, _, rfl⟩,
    ⟨le_rfl, le_rfl, trivial⟩, ⟨le_rfl, le_rfl, by decide, _, _, rfl⟩,
    ⟨le_rfl, le_rfl, by decide, _, _, rfl⟩, ⟨le_rfl, le_rfl, by decide, _, rfl⟩,
    ⟨Nat.zero_le _, le_rfl, Nat.le_refl _⟩, trivial⟩

/-- The events while the probe dials can happen. -/
theorem probedAnew_guarded :
    Guarded strict.step strict.Enabled
      (probing.foldl strict.step (fresh ["a", "b", "c"] 0 453)) probedAnew :=
  ⟨⟨le_rfl, le_rfl, by decide, _, rfl⟩, ⟨le_rfl, le_rfl, trivial⟩,
    ⟨le_rfl, le_rfl, by decide, _, _, rfl⟩, ⟨le_rfl, le_rfl, by decide, _, rfl⟩,
    ⟨le_rfl, le_rfl, by decide, _, rfl⟩, trivial⟩

/-- The probe fails with the record still marked; and the pool without discovery. -/
theorem last_usable_spared_marked :
    (strict.step (probing.foldl strict.step (fresh ["a", "b", "c"] 0 453))
        probeFails).pool.members.AnyUsable ∧
      (returnOne.foldl plain.step (fresh ["a"] 0 1)).pool.members.AnyUsable := by
  refine ⟨?_, (last_usable_spared plain ["a"] 0 1).2 (by decide) rfl _ returnOne_guarded.run⟩
  have hany : (probing.foldl strict.step (fresh ["a", "b", "c"] 0 453)).pool.members.AnyUsable :=
    anyUsable_iff.mpr (by decide)
  refine (((last_usable_spared strict ["a", "b", "c"] 0 453).1 _ probing_guarded.run hany).1
    probeFails ⟨le_rfl, le_rfl, by decide, fun _ h => (nomatch h)⟩ rfl).mpr ?_
  intro ep probed hoccurs _ m hm
  cases hoccurs
  cases hm
  exact .inl rfl

/-- Only `x` is usable when it is listed again; the probe of its old record ejects it. -/
theorem last_usable_ejected :
    ∃ s, strict.Reaches (fresh ["a", "b", "c"] 0 453) s ∧ strict.Enabled s probeFails ∧
      s.pool.members.AnyUsable ∧ ¬ (strict.step s probeFails).pool.members.AnyUsable :=
  ⟨_, probing_guarded.run.trans probedAnew_guarded.run,
    ⟨le_rfl, le_rfl, by decide, fun _ h => (nomatch h)⟩, anyUsable_iff.mpr (by decide),
    fun h => absurd (anyUsable_iff.mp h) (by decide)⟩

end Balancer

end Skaidb
