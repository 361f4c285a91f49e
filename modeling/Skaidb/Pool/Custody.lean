import Mathlib.Data.List.Perm.Lattice
import Skaidb.Pool.Factory

/-!
# Where the connections of a pool are

The callers of a pool with connections from a closure hold what it has handed out, and give back or
drop what they hold. At any moment, between any sections of any calls, each connection that the
closure has made is in one place: idle, on its way back, with one caller, or dropped.
-/

namespace Skaidb

open Program

/-- The pool, its callers and what has become of the connections. -/
structure Custody (γ : Type) where
  /-- The pool and the calls under way. -/
  pool : Factory γ
  /-- The connections in the hands of callers. -/
  held : List γ
  /-- The connections that were dropped. -/
  dropped : List γ
  /-- The connections that the closure has made. -/
  made : List γ

/-- What happens next: a section of a call, or a caller drops a connection. -/
inductive CustodyEvent (γ : Type) where
  | call (e : FactoryEvent γ)
  | drop (c : γ)

/-- The connection that a call of `release` is giving back, none for the other calls. -/
def FactoryCall.returned {γ : Type} : FactoryCall γ → Option γ
  | .release c => some c
  | .acquire | .close => none

namespace Custody

variable {γ : Type} [DecidableEq γ]

/-- A pool that has just been made: nothing is opened yet, so there is nothing to keep track of. -/
def new : Custody γ := ⟨Factory.new, [], [], []⟩

/-- The connections that calls of `release` carry between their two sections. -/
def returning (s : Custody γ) : List γ := s.pool.calls.filterMap FactoryCall.returned

/-- Who has which connection after a section, with the new ones counted as made. -/
def settle (maxsize : ℕ+) (s : Custody γ) : FactoryEvent γ → Custody γ
  | .pop make =>
    match (s.pool.take make).1 with
    | .ok c =>
      { s with held := c :: s.held, made := if s.pool.idle = [] then c :: s.made else s.made }
    | .error _ => s
  | .release c =>
    { s with
      held := s.held.erase c
      dropped := if s.pool.closed then c :: s.dropped else s.dropped }
  | .push c =>
    { s with dropped := if s.pool.idle.length < maxsize then s.dropped else c :: s.dropped }
  | .clear => { s with dropped := s.pool.idle ++ s.dropped }
  | .acquire | .close => s

/-- Carry out one event, with the connections that it opens, hands out, takes back or drops. -/
def step (maxsize : ℕ+) (s : Custody γ) : CustodyEvent γ → Custody γ
  | .call e => { s.settle maxsize e with pool := s.pool.step maxsize e }
  | .drop c => { s with held := s.held.erase c, dropped := c :: s.dropped }

/-- A caller gives back what it holds, and the closure makes new connections. -/
def Owns (s : Custody γ) : FactoryEvent γ → Prop
  | .release c => c ∈ s.held
  | .pop (.ok c) => c ∉ s.made
  | _ => True

instance (s : Custody γ) : (e : FactoryEvent γ) → Decidable (s.Owns e)
  | .release c => inferInstanceAs (Decidable (c ∈ s.held))
  | .pop (.ok c) => inferInstanceAs (Decidable (c ∉ s.made))
  | .pop (.error _) => isTrue trivial
  | .acquire => isTrue trivial
  | .push _ => isTrue trivial
  | .close => isTrue trivial
  | .clear => isTrue trivial

/-- The section is the next one of a call, and a caller gives back or drops what it holds. -/
def Enabled (s : Custody γ) : CustodyEvent γ → Prop
  | .call e => s.pool.Enabled e ∧ s.Owns e
  | .drop c => c ∈ s.held

instance (s : Custody γ) : (e : CustodyEvent γ) → Decidable (s.Enabled e)
  | .call e => inferInstanceAs (Decidable (s.pool.Enabled e ∧ s.Owns e))
  | .drop c => inferInstanceAs (Decidable (c ∈ s.held))

/-- The states that a pool reaches from one by events that can happen. -/
def Reaches (maxsize : ℕ+) : Custody γ → Custody γ → Prop := Run (step maxsize) Enabled

/-- How often a connection occurs among the idle ones, those on their way back, those held and those
dropped. -/
def count (s : Custody γ) (c : γ) : ℕ :=
  s.pool.idle.count c + s.returning.count c + s.held.count c + s.dropped.count c

/-- Every connection is in one place, and no more are idle than allowed. -/
structure Conserved (maxsize : ℕ+) (s : Custody γ) : Prop where
  /-- The connections are different. -/
  nodup : s.made.Nodup
  /-- Each of them is somewhere, as often as it was made. -/
  counted : ∀ c, s.made.count c = s.count c
  /-- The idle ones are within the limit. -/
  room : s.pool.idle.length ≤ maxsize

variable {maxsize : ℕ+} {s s' : Custody γ}

/-- When a call that carries no connection ends, those on their way back stay as they are. -/
theorem returned_erase {calls : List (FactoryCall γ)} {k : FactoryCall γ}
    (h : k.returned = none) :
    (calls.erase k).filterMap FactoryCall.returned = calls.filterMap FactoryCall.returned := by
  induction calls with
  | nil => rfl
  | cons d calls ih =>
    rw [List.erase_cons]
    split
    · next heq =>
      obtain rfl : d = k := eq_of_beq heq
      rw [List.filterMap_cons_none h]
    · cases hd : d.returned with
      | none => rw [List.filterMap_cons_none hd, List.filterMap_cons_none hd, ih]
      | some c => rw [List.filterMap_cons_some hd, List.filterMap_cons_some hd, ih]

/-- When a call that carries a connection ends, that one is no longer on its way back. -/
theorem count_returned_erase {calls : List (FactoryCall γ)} {c : γ}
    (h : FactoryCall.release c ∈ calls) (d : γ) :
    (calls.filterMap FactoryCall.returned).count d =
      ((calls.erase (.release c)).filterMap FactoryCall.returned).count d + [c].count d := by
  have hperm := (List.perm_cons_erase h).filterMap FactoryCall.returned
  have hcons : (FactoryCall.release c :: calls.erase (.release c)).filterMap FactoryCall.returned =
      c :: (calls.erase (.release c)).filterMap FactoryCall.returned := rfl
  rw [hperm.count_eq, hcons, ← List.singleton_append, List.count_append, Nat.add_comm]

/-- A caller that has a connection and one that has it no more. -/
theorem count_held {held : List γ} {c : γ} (h : c ∈ held) (d : γ) :
    held.count d = (held.erase c).count d + [c].count d := by
  rw [(List.perm_cons_erase h).count_eq, ← List.singleton_append, List.count_append, Nat.add_comm]

/-- A connection that is put in front of others adds one to its own count. -/
theorem count_more (c : γ) (cs : List γ) (d : γ) :
    (c :: cs).count d = cs.count d + [c].count d := by
  rw [← List.singleton_append, List.count_append, Nat.add_comm]

/-- `acquire` hands out what was idle or is new. -/
theorem Conserved.pop (h : Conserved maxsize s) {make : Except DriverError γ}
    (hnew : ∀ c, make = .ok c → c ∉ s.made) :
    Conserved maxsize (s.step maxsize (.call (.pop make))) := by
  have hcalls : (s.pool.calls.erase .acquire).filterMap FactoryCall.returned = s.returning :=
    returned_erase rfl
  obtain hidle | ⟨idle, c, hidle⟩ := s.pool.idle.eq_nil_or_concat
  · cases make with
    | error e =>
      have hstep : s.step maxsize (.call (.pop (.error e))) =
          { s with pool := { s.pool with calls := s.pool.calls.erase .acquire } } := by
        simp [step, settle, Factory.step, Factory.take, hidle]
      rw [hstep]
      refine ⟨h.nodup, fun d => ?_, h.room⟩
      have hd := h.counted d
      simp only [count, returning, hcalls] at hd ⊢
      exact hd
    | ok c =>
      have hstep : s.step maxsize (.call (.pop (.ok c))) =
          { s with
            pool := { s.pool with calls := s.pool.calls.erase .acquire }
            held := c :: s.held, made := c :: s.made } := by
        simp [step, settle, Factory.step, Factory.take, hidle]
      rw [hstep]
      refine ⟨List.nodup_cons.mpr ⟨hnew c rfl, h.nodup⟩, fun d => ?_, h.room⟩
      have hd := h.counted d
      simp only [count, returning, hcalls, count_more c s.held, count_more c s.made] at hd ⊢
      omega
  · have hstep : s.step maxsize (.call (.pop make)) =
        { s with
          pool := { s.pool with idle := idle, calls := s.pool.calls.erase .acquire }
          held := c :: s.held } := by
      simp [step, settle, Factory.step, Factory.take, hidle]
    rw [hstep]
    refine ⟨h.nodup, fun d => ?_, ?_⟩
    · have hd := h.counted d
      simp only [count, returning, hcalls, hidle, List.concat_eq_append, List.count_append,
        count_more c s.held] at hd ⊢
      omega
    · have hroom := h.room
      rw [hidle, List.length_concat] at hroom
      exact (Nat.le_succ _).trans hroom

/-- `release` takes back what a caller holds, or drops it. -/
theorem Conserved.release (h : Conserved maxsize s) {c : γ} (hc : c ∈ s.held) :
    Conserved maxsize (s.step maxsize (.call (.release c))) := by
  refine ⟨h.nodup, fun d => ?_, ?_⟩
  · have hd := h.counted d
    have hcount := count_held hc d
    cases hclosed : s.pool.closed with
    | true =>
      simp only [count, step, settle, Factory.step, returning, hclosed, if_true,
        count_more c s.dropped] at hd ⊢
      omega
    | false =>
      have hcalls : (FactoryCall.release c :: s.pool.calls).filterMap FactoryCall.returned =
          c :: s.pool.calls.filterMap FactoryCall.returned := rfl
      simp only [count, step, settle, Factory.step, returning, hclosed, Bool.false_eq_true,
        if_false, hcalls, count_more c (s.pool.calls.filterMap _)] at hd ⊢
      omega
  · show (s.pool.step maxsize (.release c)).idle.length ≤ maxsize
    rw [Factory.step]
    split_ifs <;> exact h.room

/-- `release` keeps what it has taken back, or drops it. -/
theorem Conserved.push (h : Conserved maxsize s) {c : γ}
    (hc : FactoryCall.release c ∈ s.pool.calls) :
    Conserved maxsize (s.step maxsize (.call (.push c))) := by
  refine ⟨h.nodup, fun d => ?_, ?_⟩
  · have hd := h.counted d
    have hcount := count_returned_erase hc d
    by_cases hroom : s.pool.idle.length < maxsize
    · simp only [count, step, settle, Factory.step, returning, if_pos hroom,
        List.count_append] at hd ⊢
      omega
    · simp only [count, step, settle, Factory.step, returning, if_neg hroom,
        count_more c s.dropped] at hd ⊢
      omega
  · show (s.pool.step maxsize (.push c)).idle.length ≤ maxsize
    rw [Factory.step]
    dsimp only
    split_ifs with hroom
    · rw [List.length_append]
      exact hroom
    · exact h.room

/-- `close` drops what is idle, and every connection it drops is accounted for as closed. -/
theorem Conserved.clear (h : Conserved maxsize s) :
    Conserved maxsize (s.step maxsize (.call .clear)) := by
  refine ⟨h.nodup, fun d => ?_, Nat.zero_le _⟩
  have hd := h.counted d
  have hcalls : (s.pool.calls.erase .close).filterMap FactoryCall.returned = s.returning :=
    returned_erase rfl
  simp only [count, step, settle, Factory.step, returning, hcalls, List.count_append,
    List.count_nil] at hd ⊢
  omega

/-- A caller that drops a connection keeps the others where they are. -/
theorem Conserved.drop (h : Conserved maxsize s) {c : γ} (hc : c ∈ s.held) :
    Conserved maxsize (s.step maxsize (.drop c)) := by
  refine ⟨h.nodup, fun d => ?_, h.room⟩
  have hd := h.counted d
  have hcount := count_held hc d
  simp only [count, step, returning, count_more c s.dropped] at hd ⊢
  omega

/-- Every event keeps every connection in exactly one place: one section moves one connection at
most. -/
theorem Conserved.step (h : Conserved maxsize s) {e : CustodyEvent γ} (he : s.Enabled e) :
    Conserved maxsize (s.step maxsize e) := by
  cases e with
  | drop c => exact h.drop he
  | call e =>
    obtain ⟨hpool, howns⟩ := he
    cases e with
    | acquire =>
      refine ⟨h.nodup, fun d => ?_, ?_⟩
      · have hd := h.counted d
        simp only [count, Custody.step, settle, returning, Factory.step_acquire] at hd ⊢
        split_ifs <;> exact hd
      · show (s.pool.step maxsize .acquire).idle.length ≤ maxsize
        rw [Factory.step_acquire]
        split_ifs <;> exact h.room
    | pop make =>
      apply h.pop
      rintro c rfl
      exact howns
    | release c => exact h.release howns
    | push c => exact h.push hpool
    | close => exact ⟨h.nodup, h.counted, h.room⟩
    | clear => exact h.clear

/-- The pool goes through sections of its own. -/
theorem Reaches.pool (h : Reaches maxsize s s') :
    Factory.Reaches maxsize s.pool s'.pool := by
  induction h with
  | refl => exact Run.refl
  | @tail s' e _ he ih =>
    cases e with
    | drop c => exact ih
    | call e => exact ih.tail he.1

/-- **Connections of a pool.** Between any sections of any calls, if callers give back or drop only
what they hold and the closure makes new connections: every connection made is either idle, on its
way back, held by a caller or dropped, in one place and once, and the idle ones are within the
limit. -/
theorem conserved (h : Reaches maxsize new s) :
    Factory.Reaches maxsize Factory.new s.pool ∧ s.pool.idle.length ≤ maxsize ∧
      (s.pool.idle ++ s.returning ++ s.held ++ s.dropped).Nodup ∧
      s.made.Perm (s.pool.idle ++ s.returning ++ s.held ++ s.dropped) := by
  have hs : Conserved maxsize s := Run.invariant (fun _ _ he hs => hs.step he) h
    ⟨List.nodup_nil, fun _ => rfl, Nat.zero_le _⟩
  have hperm : s.made.Perm (s.pool.idle ++ s.returning ++ s.held ++ s.dropped) := by
    apply List.perm_iff_count.mpr
    intro c
    simp only [List.count_append]
    exact hs.counted c
  exact ⟨h.pool, hs.room, hperm.nodup_iff.mp hs.nodup, hperm⟩

/-- Two callers, one of which has given its connection back. -/
def twoCallers : List (CustodyEvent ℕ) :=
  [.call .acquire, .call .acquire, .call (.pop (.ok 7)), .call (.pop (.ok 8)), .call (.release 7),
    .call (.push 7), .call .acquire]

/-- One connection is idle and one is held. -/
theorem twoCallers_conserved : (twoCallers.foldl (step 1) new).held = [8] ∧
    ([7] ++ [] ++ [8] ++ [] : List ℕ).Nodup := by
  have hrun : Reaches 1 new (twoCallers.foldl (step 1) new) := by
    apply Guarded.run
    refine ⟨?_, ?_, ?_, ?_, ?_, ?_, ?_, trivial⟩ <;> decide
  exact ⟨by decide, (conserved hrun).2.2.1⟩

end Custody

end Skaidb
