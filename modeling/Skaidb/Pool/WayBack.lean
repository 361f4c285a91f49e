import Skaidb.Pool.Ejection

/-!
# The way back into rotation

Only the background thread brings an ejected member back. As long as threads can be started, an
open pool with an ejected member has its thread, whoever ejected the member, and a member is
marked as being probed only while its probe is under way, so the next pass of the thread after
the end of the ejection probes it. The runs are those of the pool without the clock's panics,
which `Skaidb.Pool.Clock` is about.
-/

namespace Skaidb

open Program

namespace Balancer

/-! ## The thread -/

/-- The background thread runs, or there is nothing left to do for it. -/
def Watched (st : BalancerState) : Prop := st.maintainer = true ∨ st.closed = true

/-- No member is ejected, so that the background thread is not needed for one. -/
def Calm (members : Members) : Prop := ∀ ep m, members.get? ep = some m → m.ejectedUntil = none

/-- The thread keeps running, and runs when a first member is ejected. -/
structure KeepsWatch (st st' : BalancerState) : Prop where
  /-- The thread goes on, or the pool stays closed. -/
  watched : Watched st → Watched st'
  /-- The first ejection finds or starts the thread. -/
  calm : Calm st.members → Calm st'.members ∨ Watched st'

/-- A section that leaves the state as it was keeps the watch over the ejected members. -/
theorem KeepsWatch.refl (st : BalancerState) : KeepsWatch st st := ⟨fun h => h, fun h => .inl h⟩

/-- Two sections that keep the watch one after another keep it together. -/
theorem KeepsWatch.trans {st st' st'' : BalancerState} (h : KeepsWatch st st')
    (h' : KeepsWatch st' st'') : KeepsWatch st st'' := by
  refine ⟨fun hst => h'.watched (h.watched hst), fun hcalm => ?_⟩
  obtain hcalm' | hwatched := h.calm hcalm
  · exact h'.calm hcalm'
  · exact .inr (h'.watched hwatched)

instance isPreorder_keepsWatch : IsPreorder BalancerState KeepsWatch where
  refl := KeepsWatch.refl
  trans _ _ _ := KeepsWatch.trans

/-- Once `ensureMaintainer` has started the thread, there is one or the pool is closed. -/
theorem ensureMaintainer_watched (st : BalancerState) : Watched (ensureMaintainer true st) := by
  unfold ensureMaintainer
  split
  · next h => exact Bool.or_eq_true_iff.mp h
  · exact .inl rfl

/-- Members that change without being ejected stay calm, since calm says that none of them is
ejected. -/
theorem Calm.of_relates {members members' : Members} (h : Calm members)
    (hrel : OrdMap.Relates (fun m m' : Member => m'.ejectedUntil = m.ejectedUntil)
      members members') : Calm members' := by
  intro ep m' hm'
  obtain ⟨m, hm, hsame⟩ := hrel.origin hm'
  rw [hsame, h ep m hm]

/-- A listing ejects nobody, so that a pool that is calm stays calm. -/
theorem Calm.applyListing {members : Members} (h : Calm members) (dialed : String)
    (rows : List (List Value)) : Calm (applyListing members dialed rows) := by
  intro ep m hm
  obtain ⟨old, hold, hcont, -⟩ | ⟨-, hnew⟩ := applyListing_record hm
  · rw [hcont.ejectedUntil, h ep old hold]
  · exact hnew.ejectedUntil

/-- The effects of an event that is no verdict of a probe keep the watch, as each of them that
ejects a member starts the thread. -/
theorem Effect.keepsWatch {b : Balancer} {e : Event} {st st' : BalancerState}
    (h : Effect b e st st') (he : e.spawned = true)
    (hprobed : ∀ ep probed, e.occurs ≠ .probed ep probed) : KeepsWatch st st' := by
  cases h with
  | noted ep hf =>
    refine ⟨fun h => h, fun hcalm => .inl (hcalm.of_relates ?_)⟩
    exact OrdMap.relates_modify (R := fun m m' : Member => m'.ejectedUntil = m.ejectedUntil)
      (fun _ => rfl) (fun m => (hf m).ejectedUntil) _
  | ejected ep =>
    rw [he]
    exact ⟨fun _ => ensureMaintainer_watched _, fun _ => .inr (ensureMaintainer_watched _)⟩
  | started =>
    rw [he]
    exact ⟨fun _ => ensureMaintainer_watched st, fun _ => .inr (ensureMaintainer_watched st)⟩
  | @listed dialed rows =>
    exact ⟨fun h => h, fun hcalm => .inl (hcalm.applyListing dialed rows)⟩
  | @marked read =>
    refine ⟨fun h => h, fun hcalm => .inl (hcalm.of_relates ?_)⟩
    exact OrdMap.relates_alter (fun m => ejectedUntil_markDue read m) _
  | judged hverdict => exact absurd hverdict (hprobed _ _)
  | closed => exact ⟨fun _ => .inr rfl, fun _ => .inr (.inr rfl)⟩
  | _ => exact ⟨fun h => h, fun h => .inl h⟩

/-! ## Whole runs -/

/-- What the thread has to do: a member is ejected, or a probe is under way. -/
def Needed (s : System) : Prop := ¬ Calm s.pool.members ∨ s.probes ≠ []

/-- While a member is ejected or probed, the background thread runs or the pool is closed. -/
def Attends (s : System) : Prop := Needed s → Watched s.pool

section Runs

variable {b : Balancer} {s : System} {e : Event}

/-- An event that is no verdict of a probe keeps the watch. -/
theorem step_keepsWatch (he : e.spawned = true)
    (hprobed : ∀ ep probed, e.occurs ≠ .probed ep probed) :
    KeepsWatch s.pool (b.step s e).pool :=
  step_frame (fun _ _ _ _ => ⟨fun h => h, fun h => .inl h⟩) fun _ _ h => h.keepsWatch he hprobed

/-- The verdict of a probe leaves the thread alone. -/
theorem probeVerdict_watched (now : ℕ) (ep : String) (probed : Option Connection)
    {st : BalancerState} (h : Watched st) : Watched (b.probeVerdict now ep probed st) := by
  unfold probeVerdict
  split
  · exact h
  · split
    · split
      · exact h
      · dsimp only
        split <;> exact h
    · exact h

/-- On a calm pool without a probe none is started, since only ejected members are probed. -/
theorem probes_of_calm (hcalm : Calm s.pool.members) (hnone : s.probes = [])
    (hprobed : ∀ ep probed, e.occurs ≠ .probed ep probed) : (b.step s e).probes = [] := by
  apply List.eq_nil_iff_forall_not_mem.mpr
  intro ep hep
  have hpos : 0 < (b.step s e).probesOf ep := List.count_pos_iff.mpr hep
  have hzero : s.probesOf ep = 0 := by rw [System.probesOf, hnone, List.count_nil]
  cases step_entry b s e ep with
  | reacted record probes => omega
  | listed hlisting record probes => omega
  | @ticked read occurs record probes =>
    have hidle : (s.pool.members.get? ep).any (probeDue read) = false := by
      cases hm : s.pool.members.get? ep with
      | none => rfl
      | some m => simp [probeDue, hcalm ep m hm]
    rw [hidle] at probes
    simp only [Bool.false_eq_true, if_false] at probes
    omega
  | judged occurs record probes => exact hprobed _ _ occurs

/-- **One event.** The thread runs while it is needed. -/
theorem Attends.step (h : Attends s) (henabled : b.Enabled s e) (he : e.spawned = true) :
    Attends (b.step s e) := by
  by_cases hprobed : ∃ ep probed, e.occurs = .probed ep probed
  · obtain ⟨ep, probed, hwhat⟩ := hprobed
    have hpossible := henabled.2.2
    rw [hwhat] at hpossible
    have hwatched : Watched s.pool := h (.inr (List.ne_nil_of_mem hpossible.1))
    intro _
    unfold Balancer.step
    rw [hwhat]
    exact probeVerdict_watched e.now ep probed hwatched
  · have hother : ∀ ep probed, e.occurs ≠ .probed ep probed :=
      fun ep probed hwhat => hprobed ⟨ep, probed, hwhat⟩
    have hkeeps := step_keepsWatch (b := b) (s := s) he hother
    intro hneeded
    by_cases hbefore : Needed s
    · exact hkeeps.watched (h hbefore)
    · obtain ⟨hcalm, hnone⟩ := not_or.mp hbefore
      have hcalm := not_not.mp hcalm
      have hprobes := probes_of_calm (b := b) hcalm (not_not.mp hnone) hother
      obtain hcalm' | hwatched := hkeeps.calm hcalm
      · obtain hcalls | hcalls := hneeded
        · exact absurd hcalm' hcalls
        · exact absurd hprobes hcalls
      · exact hwatched

/-- A member is marked only while a probe of it is under way. -/
def Marked (s : System) : Prop :=
  ∀ ep m, s.pool.members.get? ep = some m → m.probing = true → 0 < s.probesOf ep

/-- **One event** keeps it that a member marked as being probed has a probe under way. -/
theorem Marked.step (h : Marked s) : Marked (b.step s e) := by
  intro ep m' hm' hprobing
  cases step_entry b s e ep with
  | reacted record probes =>
    rw [hm'] at record
    generalize hm : s.pool.members.get? ep = before at record
    cases record with
    | @some m _ hreacts =>
      rw [probes]
      exact h ep m hm (hreacts.probing ▸ hprobing)
  | listed hlisting record probes =>
    rw [record] at hm'
    rw [probes]
    obtain ⟨m, hm, hcont, -⟩ | ⟨-, hnew⟩ := applyListing_record hm'
    · exact h ep m hm (hcont.probing ▸ hprobing)
    · rw [hnew.probing] at hprobing
      cases hprobing
  | @ticked read occurs record probes =>
    rw [hm'] at record
    obtain ⟨m, hm, rfl⟩ := Option.map_eq_some_iff.mp record.symm
    rw [hm, Option.any_some] at probes
    cases hdue : probeDue read m with
    | true =>
      rw [hdue, if_pos rfl] at probes
      omega
    | false =>
      rw [markDue, hdue] at hprobing
      have hpos := h ep m hm hprobing
      omega
  | judged occurs record probes =>
    rw [hm'] at record
    obtain ⟨m, -, rfl⟩ := Option.map_eq_some_iff.mp record.symm
    split at hprobing <;> cases hprobing

end Runs

/-- **The way back.** In every run in which threads can be started, an ejected member of an open
pool has the background thread of its pool; its probe is under way or is started by the next pass
of the thread that reads the clock after the ejection; and a probe that succeeds admits it. -/
theorem ejected_way_back (b : Balancer) (endpoints : List String) (now : ℕ) (rng : UInt64)
    {s : System} (h : Run b.step (fun s e => b.Enabled s e ∧ e.spawned = true)
      (fresh endpoints now rng) s) (hopen : s.pool.closed = false) {ep : String} {m : Member}
    (hm : s.pool.members.get? ep = some m) {until_ : ℕ} (hejected : m.ejectedUntil = some until_) :
    s.pool.maintainer = true ∧
      (ep ∈ s.probes ∨ ∀ e read, e.occurs = .tick read → until_ ≤ read →
        ep ∈ (b.step s e).probes) ∧
      ∀ e c, e.occurs = .probed ep (some c) → ∃ m', (b.step s e).pool.members.get? ep = some m' ∧
        m'.ejectedUntil = none ∧ m'.probing = false := by
  have hattends : Attends s := by
    refine Run.invariant (fun s e he hs => hs.step he.1 he.2) h ?_
    rintro (hcalm | hprobes)
    · exfalso
      apply hcalm
      intro ep m hm
      rw [get?_fresh hm]
      rfl
    · exact absurd rfl hprobes
  have hmarked : Marked s := by
    refine Run.invariant (fun s e _ hs => hs.step) h ?_
    intro ep m hm hprobing
    rw [get?_fresh hm] at hprobing
    cases hprobing
  have hneeded : Needed s := by
    left
    intro hcalm
    rw [hcalm ep m hm] at hejected
    cases hejected
  refine ⟨(hattends hneeded).resolve_right (by simp [hopen]), ?_, ?_⟩
  · cases hprobing : m.probing with
    | true => exact .inl (List.count_pos_iff.mp (hmarked ep m hm hprobing))
    | false =>
      right
      intro e read hwhat hread
      have hdue : probeDue read m = true := by simp [probeDue, hejected, hprobing, hread]
      unfold step
      simp only [hwhat, occur, tick, hopen, Bool.false_eq_true, if_false]
      exact List.mem_append_left _ (mem_due.mpr ⟨m, hm, hdue⟩)
  · intro e c hwhat
    refine ⟨readmitted e.now m, ?_, rfl, rfl⟩
    rw [(step_probed hwhat).1, OrdMap.get?_modify, hm, beq_self_eq_true, if_pos rfl, if_neg]
    · rfl
    · simp [hopen]

/-- A member that failed once has its way back. -/
theorem tripping_way_back :
    (tripping.foldl brittle.step (fresh ["a", "b"] 0 1)).pool.maintainer = true ∧
      ∀ e c, e.occurs = .probed "a" (some c) → ∃ m',
        (brittle.step (tripping.foldl brittle.step
          (fresh ["a", "b"] 0 1)) e).pool.members.get? "a" = some m' ∧
          m'.ejectedUntil = none ∧ m'.probing = false := by
  have hguarded : Guarded brittle.step (fun s e => brittle.Enabled s e ∧ e.spawned = true)
      (fresh ["a", "b"] 0 1) tripping :=
    ⟨⟨⟨le_rfl, le_rfl, trivial⟩, rfl⟩, ⟨⟨le_rfl, le_rfl, by decide, _, _, rfl⟩, rfl⟩, trivial⟩
  have hejected : ∃ m, (tripping.foldl brittle.step (fresh ["a", "b"] 0 1)).pool.members.get? "a" =
      some m ∧ m.ejectedUntil = some (5 * 10 ^ 9) := ⟨_, rfl, rfl⟩
  obtain ⟨m, hm, huntil⟩ := hejected
  obtain ⟨hthread, -, hprobe⟩ :=
    ejected_way_back brittle ["a", "b"] 0 1 hguarded.run rfl hm huntil
  exact ⟨hthread, hprobe⟩

end Balancer

end Skaidb
