import Skaidb.Pool.Changes

/-!
# Reading one's writes

The member that took the last write under an affinity key is remembered until the window ends.
Entries go when a checkout finds them over or their member gone, and when the expired ones are
swept; neither touches a live entry whose member has stayed. The clock's panics
(`Skaidb.Pool.Clock`) are left out of the runs.
-/

namespace Skaidb

open Program

namespace Balancer

/-- The entry of the key is there, unless its window is over. -/
def Remembers (key : Option String) (ep : String) (until_ : ℕ) (s : System) : Prop :=
  s.pool.affinity.get? key = some (ep, until_) ∨ until_ ≤ s.clock

section Writes

variable {b : Balancer} {e : Event} {key : Option String} {ep : String} {t : ℕ}

/-- A recorded write is a statement of a connection that is checked out. -/
theorem recorded_eq_some {what : Section} (h : b.recorded what = some (key, ep, t)) :
    b.readYourWrites = true ∧ ∃ c sql, what = .act c (.succeeded sql t) ∧
      ∀ st, (b.activity e (.succeeded sql t) c st).2 = b.wrote t key ep st := by
  unfold recorded at h
  split at h
  · next c sql read =>
    split at h
    · next link hlink =>
      split at h
      · next hwrite =>
        obtain ⟨rfl, rfl, rfl⟩ : link.affinity = key ∧ c.connected = ep ∧ read = t := by
          simpa using h
        refine ⟨?_, c, sql, rfl, fun st => ?_⟩
        · simp only [Bool.and_eq_true] at hwrite
          exact hwrite.1.2
        · simp only [activity, hlink, hwrite, if_true]
      · cases h
    · cases h
  · cases h

/-- After an event that records a write, its key remembers the member until the window of the write
ends. -/
theorem step_remembers {s : System} (h : b.recorded e.occurs = some (key, ep, t)) :
    Remembers key ep (t + b.opts.readYourWrites) (b.step s e) := by
  obtain ⟨-, c, sql, hwhat, hwrote⟩ := recorded_eq_some (e := e) h
  have haffinity : (b.step s e).pool.affinity = (b.wrote t key ep s.pool).affinity := by
    rw [step, hwhat]
    exact congrArg BalancerState.affinity (hwrote s.pool)
  left
  rw [haffinity, wrote, OrdMap.get?_insert, beq_self_eq_true]
  rfl

/-- A write under another key sweeps only what is over. -/
theorem get?_wrote {key' : Option String} {ep' : String} {read until_ : ℕ} {st : BalancerState}
    (hkey : key ≠ key') (h : st.affinity.get? key = some (ep, until_)) (hlive : read < until_) :
    (b.wrote read key' ep' st).affinity.get? key = some (ep, until_) := by
  rw [wrote, OrdMap.get?_insert, beq_eq_false_iff_ne.mpr hkey]
  simp only [Bool.false_eq_true, if_false]
  split
  · rw [OrdMap.get?_alter, h]
    simp [hlive]
  · exact h

/-- Looking a key up keeps its entry or forgets it; the entries of other keys stay. -/
theorem get?_followWrite {key' : Option String} {now until_ : ℕ} {st : BalancerState}
    (h : st.affinity.get? key = some (ep, until_)) (hmember : st.members.get? ep ≠ none)
    (hlive : now < until_) :
    (b.followWrite now key' st).2.affinity.get? key = some (ep, until_) := by
  obtain ⟨m, hm⟩ := Option.ne_none_iff_exists'.mp hmember
  have herase (hkey : key ≠ key') :
      (st.affinity.erase key').get? key = some (ep, until_) := by
    rw [OrdMap.get?_erase, beq_eq_false_iff_ne.mpr hkey]
    exact h
  unfold followWrite
  by_cases hkey : key = key'
  · subst hkey
    simp only [h, hm, if_pos hlive]
    split <;> exact h
  · split
    · split
      · split
        · split
          · exact h
          · exact herase hkey
        · exact herase hkey
      · exact h
    · exact h

/-- A live entry of a usable member decides, whatever the policy. -/
theorem pick_of_remembered {now later until_ : ℕ} {st : BalancerState}
    (hwindow : b.readYourWrites = true) (h : st.affinity.get? key = some (ep, until_))
    (hlive : now < until_) (husable : st.members.Usable ep) :
    (b.pick now later key st).1 = some ep := by
  obtain ⟨m, hm, hmu⟩ := husable
  have hfollow : b.followWrite now key st = (some ep, st) := by
    unfold followWrite
    simp only [hwindow, h, hm, if_pos hlive, hmu, if_true]
  rw [pick, hfollow]

/-- **One event** keeps what is remembered, when the member is there and no write is recorded
under the key. -/
theorem AffinityStep.remembers {s : System} {until_ : ℕ}
    (h : AffinityStep b e s.pool (b.step s e).pool) (he : b.Enabled s e)
    (hmember : s.pool.members.get? ep ≠ none)
    (hkey : ∀ ep' t', b.recorded e.occurs ≠ some (key, ep', t'))
    (hs : Remembers key ep until_ s) : Remembers key ep until_ (b.step s e) := by
  obtain ⟨hnow, hlater, hpossible⟩ := he
  by_cases hlive : until_ ≤ e.now
  · exact .inr (hlive.trans hlater)
  rcases hs with hentry | hover
  · left
    cases h with
    | kept affinity =>
      rw [affinity]
      exact hentry
    | followed key' affinity =>
      rw [affinity]
      exact get?_followWrite hentry hmember (not_le.mp hlive)
    | @wrote key' ep' read hrecorded affinity =>
      obtain ⟨-, c, sql, hwhat, -⟩ := recorded_eq_some (e := e) hrecorded
      rw [hwhat] at hpossible
      have hread : read ≤ e.now := hpossible.2 sql read rfl
      rw [affinity]
      refine get?_wrote (fun heq => ?_) hentry (hread.trans_lt (not_le.mp hlive))
      subst heq
      exact hkey ep' read hrecorded
  · exact absurd (hover.trans hnow) hlive

end Writes

/-- **Reading one's writes.** A write under a key is recorded on a member. As long as the
member stays and no other write is recorded under the key, every pick for the key before the
window ends is that member if it is usable, whatever the policy and whatever else happens. -/
theorem pick_follows_write (b : Balancer) (endpoints : List String) (now₀ : ℕ) (rng : UInt64)
    (s : System) (h : b.Reaches (fresh endpoints now₀ rng) s) (e : Event) (he : b.Enabled s e)
    (key : Option String) (ep : String) (t : ℕ)
    (hwrite : b.recorded e.occurs = some (key, ep, t)) (s' : System)
    (hrun : Run b.step (fun s e => b.Enabled s e ∧ s.pool.members.get? ep ≠ none ∧
      ∀ ep' t', b.recorded e.occurs ≠ some (key, ep', t')) (b.step s e) s')
    (now later : ℕ) (hclock : s'.clock ≤ now) (hnow : now < t + b.opts.readYourWrites)
    (husable : s'.pool.members.Usable ep) : (b.pick now later key s'.pool).1 = some ep := by
  obtain ⟨hidle, hheld⟩ := reaches_kept (h.tail he)
  have hremembers : Remembers key ep (t + b.opts.readYourWrites) s' :=
    invariant_of_changes (I := Remembers key ep (t + b.opts.readYourWrites)) (fun _ _ he => he.1)
      (fun s e _ he _ hchange hs => hchange.remembers he.1 he.2.1 he.2.2 hs) hidle hheld hrun
      (step_remembers hwrite)
  obtain ⟨hwindow, -⟩ := recorded_eq_some (e := e) hwrite
  rcases hremembers with hentry | hover
  · exact pick_of_remembered hwindow hentry hnow husable
  · exact absurd (hover.trans hclock) (not_le.mpr hnow)

/-- A pool that reads its writes for a second and otherwise takes its members in turn. -/
def sticky : Balancer :=
  ⟨0, { loadBalancing := .roundRobin, readYourWrites := 10 ^ 9 }, none, .quorum⟩

/-- A connection to the member `a` is handed out. -/
def handedOut : List Event :=
  [.start none, .dialed ⟨none, 2, .dialing ["a", "b"]⟩,
    .opened ⟨none, 2, .opening (pooled "a" false false)⟩,
    .finish ⟨none, 2, .settled (pooled "a" false false)⟩].map fun what => ⟨0, 0, true, what⟩

/-- An event of the example: a statement that writes succeeds on the connection that is checked
out. -/
def writes : Event := ⟨0, 0, true, .act (pooled "a" true false) (.succeeded "INSERT" 0)⟩

/-- The connection is returned, and two checkouts under another key look for a member. -/
def returned : List Event :=
  [.checkin (pooled "a" true false), .start (some "k"), .start (some "k")].map
    fun what => ⟨0, 0, true, what⟩

/-- The events up to the write can happen. -/
theorem handedOut_guarded : Guarded sticky.step sticky.Enabled (fresh ["a", "b"] 0 1) handedOut :=
  ⟨⟨le_rfl, le_rfl, trivial⟩, ⟨le_rfl, le_rfl, by decide, _, _, rfl⟩,
    ⟨le_rfl, le_rfl, by decide, _, rfl⟩,
    ⟨le_rfl, le_rfl, by decide, _, .inr ⟨rfl, pooled_sound _ _⟩⟩, trivial⟩

/-- The events after the write can happen; the member stays and nothing more is written. -/
theorem returned_guarded :
    Guarded sticky.step (fun s e => sticky.Enabled s e ∧ s.pool.members.get? "a" ≠ none ∧
        ∀ ep' t', sticky.recorded e.occurs ≠ some (none, ep', t'))
      (sticky.step (handedOut.foldl sticky.step (fresh ["a", "b"] 0 1)) writes) returned :=
  ⟨⟨⟨le_rfl, le_rfl, List.mem_cons_self⟩, Option.some_ne_none _, fun _ _ h => (nomatch h)⟩,
    ⟨⟨le_rfl, le_rfl, trivial⟩, Option.some_ne_none _, fun _ _ h => (nomatch h)⟩,
    ⟨⟨le_rfl, le_rfl, trivial⟩, Option.some_ne_none _, fun _ _ h => (nomatch h)⟩, trivial⟩

/-- The next pick under the key is `a` again, where it would be the turn of `b`. -/
theorem pick_follows_write_returned :
    (sticky.pick 5 5 none (returned.foldl sticky.step (sticky.step
        (handedOut.foldl sticky.step (fresh ["a", "b"] 0 1)) writes)).pool).1 = some "a" ∧
      (sticky.balance 5 (returned.foldl sticky.step (sticky.step
        (handedOut.foldl sticky.step (fresh ["a", "b"] 0 1)) writes)).pool).1 = some "b" := by
  refine ⟨?_, by decide⟩
  refine pick_follows_write sticky ["a", "b"] 0 1 _ handedOut_guarded.run writes
    ⟨le_rfl, le_rfl, by decide, fun sql read h => ?_⟩ none "a" 0 (by decide) _
    returned_guarded.run 5 5 (by decide) (by decide) ⟨_, rfl, rfl⟩
  cases h
  exact le_rfl

end Balancer

end Skaidb
