import Mathlib.Data.List.Basic
import Skaidb.Logic.Program

/-!
# Shared memo tables

Calls of a function share a table of values that were computed before. A call looks for its key
in one section under a lock and returns what it finds; when there is nothing, it computes the
value outside the lock and keeps it in a second section. The table may forget, and the sections
of all calls interleave in any order. Each call still returns the value at its own key.
-/

namespace Memo

open Program

/-- A table of values, which may forget some of them. -/
structure Table (κ ν τ : Type) where
  /-- The table at the start, which keeps nothing. -/
  empty : τ
  /-- What is kept for a key. -/
  find : τ → κ → Option ν
  /-- Keep a value for a key. -/
  keep : τ → κ → ν → τ
  /-- The empty table holds nothing. -/
  find_empty : ∀ k, find empty k = none
  /-- Nothing but the value is added. -/
  find_keep : ∀ t k v k' w, find (keep t k v) k' = some w → (k' = k ∧ w = v) ∨ find t k' = some w

/-- How far a call has come: it entered, it computed a value after looking in vain, or it returned
one. -/
inductive Phase (ν : Type) where
  /-- It has not looked yet. -/
  | entered
  /-- It has found nothing and computed the value. -/
  | computed (value : ν)
  /-- It has returned a value, its own or one it found. -/
  | returned (value : ν)
  deriving DecidableEq

/-- A call of the memoized function: its key, and how far it has come. -/
structure Call (κ ν : Type) where
  /-- What the function is called with. -/
  key : κ
  /-- How far the call has come. -/
  phase : Phase ν

/-- The table and the calls in the order in which they entered. -/
structure Shared (κ ν τ : Type) where
  /-- The table under the lock. -/
  table : τ
  /-- All calls so far. -/
  calls : List (Call κ ν)

/-- What may happen next: a call enters, or a call goes on with its next section. -/
inductive Event (κ : Type) where
  /-- A new call for the value of a key begins. -/
  | enter (key : κ)
  /-- The next section of a call, which the lock may refuse. -/
  | advance (call : ℕ) (locked : Bool)
  deriving DecidableEq

variable {κ ν τ : Type}

/-- The sections that a call in this phase may still need before it returns. -/
def Phase.left : Phase ν → ℕ
  | .entered => 2
  | .computed _ => 1
  | .returned _ => 0

section Steps

variable (T : Table κ ν τ) (f : κ → ν)

/-- The next section of a call. A call that the lock refuses finds nothing and keeps nothing. -/
def Call.advance (locked : Bool) (table : τ) (c : Call κ ν) : Call κ ν × τ :=
  match c.phase with
  | .entered =>
    match if locked then T.find table c.key else none with
    | some hit => ({ c with phase := .returned hit }, table)
    | none => ({ c with phase := .computed (f c.key) }, table)
  | .computed value =>
    ({ c with phase := .returned value }, if locked then T.keep table c.key value else table)
  | .returned _ => (c, table)

/-- Carry out one event on the table and the calls under way. -/
def step (s : Shared κ ν τ) : Event κ → Shared κ ν τ
  | .enter key => { s with calls := s.calls ++ [⟨key, .entered⟩] }
  | .advance i locked =>
    match s.calls[i]? with
    | none => s
    | some c => ⟨(c.advance T f locked s.table).2, s.calls.set i (c.advance T f locked s.table).1⟩

/-- The event of a call that there is runs the next section of that call on the shared table. -/
theorem step_advance {s : Shared κ ν τ} {i : ℕ} {c : Call κ ν} (hc : s.calls[i]? = some c)
    (locked : Bool) : step T f s (.advance i locked) =
      ⟨(c.advance T f locked s.table).2, s.calls.set i (c.advance T f locked s.table).1⟩ := by
  simp only [step, hc]

/-- A section of a call that is not there changes nothing. -/
theorem step_advance_none {s : Shared κ ν τ} {i : ℕ} (hc : s.calls[i]? = none) (locked : Bool) :
    step T f s (.advance i locked) = s := by
  simp only [step, hc]

/-- The shared state before any call: the table is empty. -/
def Table.start : Shared κ ν τ := ⟨T.empty, []⟩

/-- A call whose sections come one after another. -/
def Table.compute (table : τ) (key : κ) : ν × τ :=
  match T.find table key with
  | some hit => (hit, table)
  | none => (f key, T.keep table key (f key))

end Steps

section Sound

variable {T : Table κ ν τ} {f : κ → ν}

/-! ## What is kept and returned -/

/-- Values that are kept, computed and returned are those of the function. -/
structure Sound (T : Table κ ν τ) (f : κ → ν) (s : Shared κ ν τ) : Prop where
  /-- Those in the table. -/
  table : ∀ k v, T.find s.table k = some v → v = f k
  /-- Those of the calls. -/
  calls : ∀ c ∈ s.calls, ∀ v, c.phase = .computed v ∨ c.phase = .returned v → v = f c.key

/-- The table that is kept at the start holds nothing and so nothing wrong. -/
theorem Sound.start : Sound T f T.start := by
  constructor
  · intro k v h
    rw [Table.start, T.find_empty] at h
    cases h
  · intro c hc
    cases hc

/-- A section of a call keeps its key and the soundness of the table, and the value it computes
or returns is that of the function. -/
theorem Sound.advance {s : Shared κ ν τ} (h : Sound T f s) {c : Call κ ν} (hc : c ∈ s.calls)
    (locked : Bool) :
    (c.advance T f locked s.table).1.key = c.key ∧
      (∀ v, (c.advance T f locked s.table).1.phase = .computed v ∨
        (c.advance T f locked s.table).1.phase = .returned v → v = f c.key) ∧
      ∀ k v, T.find (c.advance T f locked s.table).2 k = some v → v = f k := by
  have hvalue := h.calls c hc
  unfold Call.advance
  cases hphase : c.phase with
  | entered =>
    dsimp only
    cases hfound : if locked then T.find s.table c.key else none with
    | none =>
      refine ⟨rfl, fun v hv => ?_, h.table⟩
      rcases hv with hv | hv
      · exact (Phase.computed.inj hv).symm
      · cases hv
    | some hit =>
      have hhit : hit = f c.key := by
        cases locked with
        | false => cases hfound
        | true => exact h.table c.key hit hfound
      refine ⟨rfl, fun v hv => ?_, h.table⟩
      rcases hv with hv | hv
      · cases hv
      · exact (Phase.returned.inj hv).symm.trans hhit
  | computed value =>
    have hcomputed : value = f c.key := hvalue value (.inl hphase)
    refine ⟨rfl, fun v hv => ?_, fun k v hv => ?_⟩
    · rcases hv with hv | hv
      · cases hv
      · exact (Phase.returned.inj hv).symm.trans hcomputed
    · cases locked with
      | false => exact h.table k v hv
      | true =>
        rcases T.find_keep _ _ _ _ _ hv with ⟨rfl, rfl⟩ | hold
        · exact hcomputed
        · exact h.table k v hold
  | returned value => exact ⟨rfl, fun v hv => hvalue v (hphase ▸ hv), h.table⟩

/-- **One event.** Whatever happens next, the table and the calls hold values of the function
only. -/
theorem Sound.step {s : Shared κ ν τ} (h : Sound T f s) (e : Event κ) :
    Sound T f (step T f s e) := by
  cases e with
  | enter key =>
    refine ⟨h.table, fun c hc v hv => ?_⟩
    rcases List.mem_append.mp hc with hc | hc
    · exact h.calls c hc v hv
    · obtain rfl := List.mem_singleton.mp hc
      rcases hv with hv | hv
      · cases hv
      · cases hv
  | advance i locked =>
    cases hcall : s.calls[i]? with
    | none => rwa [step_advance_none T f hcall]
    | some c =>
      rw [step_advance T f hcall]
      obtain ⟨hkey, hvalue, htable⟩ := h.advance (List.mem_of_getElem? hcall) locked
      refine ⟨htable, fun d hd v hv => ?_⟩
      rcases List.mem_or_eq_of_mem_set hd with hd | rfl
      · exact h.calls d hd v hv
      · rw [hkey]
        exact hvalue v hv

/-- Along any events the table and the calls hold values of the function only. -/
theorem Sound.run {s : Shared κ ν τ} (h : Sound T f s) (events : List (Event κ)) :
    Sound T f (events.foldl (Memo.step T f) s) := by
  induction events generalizing s with
  | nil => exact h
  | cons e events ih => exact ih (h.step e)

/-- A property of tables that keeping a value preserves holds along any events. -/
theorem table_invariant {I : τ → Prop} (hkeep : ∀ t k v, I t → I (T.keep t k v))
    {s : Shared κ ν τ} (h : I s.table) (events : List (Event κ)) :
    I (events.foldl (step T f) s).table := by
  induction events generalizing s with
  | nil => exact h
  | cons e events ih =>
    apply ih
    cases e with
    | enter key => exact h
    | advance i locked =>
      cases hcall : s.calls[i]? with
      | none => rwa [step_advance_none T f hcall]
      | some c =>
        rw [step_advance T f hcall]
        unfold Call.advance
        split
        · split
          · exact h
          · exact h
        · split
          · exact hkeep _ _ _ h
          · exact h
        · exact h

/-! ## Every call returns -/

/-- The event is a section of the call. -/
def Event.advances (i : ℕ) : Event κ → Bool
  | .enter _ => false
  | .advance j _ => j == i

/-- A section leaves the key of its call alone and brings the call closer to its end. -/
theorem Call.left_advance (locked : Bool) (table : τ) (c : Call κ ν) :
    (c.advance T f locked table).1.key = c.key ∧
      (c.advance T f locked table).1.phase.left ≤ c.phase.left - 1 := by
  obtain ⟨key, phase⟩ := c
  cases phase with
  | entered =>
    unfold Call.advance
    dsimp only
    split
    · exact ⟨rfl, Nat.zero_le _⟩
    · exact ⟨rfl, Nat.le_refl _⟩
  | computed value => exact ⟨rfl, Nat.le_refl _⟩
  | returned value => exact ⟨rfl, Nat.le_refl _⟩

/-- One event and one call: the call stays with its key, and one section less is left of it when
the event is its own. -/
theorem getElem?_step {s : Shared κ ν τ} {i : ℕ} {c : Call κ ν} (hc : s.calls[i]? = some c)
    (e : Event κ) :
    ∃ c', (step T f s e).calls[i]? = some c' ∧ c'.key = c.key ∧
      c'.phase.left ≤ c.phase.left - (if e.advances i then 1 else 0) := by
  have hi := (List.getElem?_eq_some_iff.mp hc).1
  cases e with
  | enter key => exact ⟨c, by rw [step, List.getElem?_append_left hi, hc], rfl, Nat.le_refl _⟩
  | advance j locked =>
    by_cases hj : j = i
    · subst hj
      obtain ⟨hkey, hleft⟩ := c.left_advance (T := T) (f := f) locked s.table
      refine ⟨_, ?_, hkey, ?_⟩
      · rw [step_advance T f hc]
        exact List.getElem?_set_self hi
      · simpa [Event.advances] using hleft
    · refine ⟨c, ?_, rfl, ?_⟩
      · cases hcall : s.calls[j]? with
        | none => rw [step_advance_none T f hcall, hc]
        | some d => rw [step_advance T f hcall, List.getElem?_set_ne hj, hc]
      · simp [Event.advances, hj]

/-- Along any events a call keeps its key, and has less left to do by the number of sections that it
was given. -/
theorem getElem?_run {s : Shared κ ν τ} {i : ℕ} {c : Call κ ν} (hc : s.calls[i]? = some c)
    (events : List (Event κ)) :
    ∃ c', (events.foldl (step T f) s).calls[i]? = some c' ∧ c'.key = c.key ∧
      c'.phase.left ≤ c.phase.left - events.countP (Event.advances i) := by
  induction events generalizing s c with
  | nil => exact ⟨c, hc, rfl, Nat.le_refl _⟩
  | cons e events ih =>
    obtain ⟨c', hc', hkey, hleft⟩ := getElem?_step (T := T) (f := f) hc e
    obtain ⟨c'', hc'', hkey', hleft'⟩ := ih hc'
    refine ⟨c'', hc'', hkey'.trans hkey, ?_⟩
    rw [List.countP_cons]
    omega

/-- **Every call returns the value at its key.** After a call has entered, whatever happens before
and in between, it has returned once it has had two sections. -/
theorem returns_value {s : Shared κ ν τ} (h : Sound T f s) (key : κ) {events : List (Event κ)}
    (htwo : 2 ≤ events.countP (Event.advances s.calls.length)) :
    (events.foldl (step T f) (step T f s (.enter key))).calls[s.calls.length]? =
      some ⟨key, .returned (f key)⟩ := by
  have hentered : (step T f s (.enter key)).calls[s.calls.length]? = some ⟨key, .entered⟩ := by
    rw [step, List.getElem?_append_right (Nat.le_refl _), Nat.sub_self]
    rfl
  obtain ⟨c, hc, hkey, hleft⟩ := getElem?_run (T := T) (f := f) hentered events
  have htotal : c.phase.left ≤ 2 - events.countP (Event.advances s.calls.length) := hleft
  have hnone : c.phase.left = 0 := by omega
  have hsound := ((h.step (.enter key)).run events).calls c (List.mem_of_getElem? hc)
  obtain ⟨k, phase⟩ := c
  obtain rfl : k = key := hkey
  cases phase with
  | entered => cases hnone
  | computed value => cases hnone
  | returned value =>
    obtain rfl : value = f k := hsound value (.inr rfl)
    exact hc

/-- A call whose two sections follow its entry returns what it would compute alone. -/
theorem step_alone (s : Shared κ ν τ) (key : κ) :
    [Event.enter key, .advance s.calls.length true, .advance s.calls.length true].foldl
        (step T f) s =
      ⟨(T.compute f s.table key).2,
        s.calls ++ [⟨key, .returned (T.compute f s.table key).1⟩]⟩ := by
  have hset (c d : Call κ ν) : (s.calls ++ [c]).set s.calls.length d = s.calls ++ [d] := by
    rw [List.set_append_right _ _ (Nat.le_refl _), Nat.sub_self]
    rfl
  unfold Table.compute
  cases hfound : T.find s.table key with
  | none => simp [step, hset, Call.advance, hfound]
  | some hit => simp [step, hset, Call.advance, hfound]

end Sound

end Memo
