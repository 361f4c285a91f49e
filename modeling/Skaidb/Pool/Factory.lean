import Mathlib.Data.PNat.Notation
import Skaidb.Driver.World

/-!
# Pools with connections from a closure

The pool of `Pool::new` keeps its idle connections and its closed flag under two mutexes, so
a call is a sequence of atomic sections. Between two sections it waits among the calls
under way, and the sections of all threads interleave in any order.
-/

namespace Skaidb

open Program

/-- A call on a pool from a closure, between two of its sections under a lock. -/
inductive FactoryCall (γ : Type) where
  /-- `acquire` that found the pool open. -/
  | acquire
  /-- `release` of a connection that found the pool open. -/
  | release (client : γ)
  /-- `close` that has set the flag. -/
  | close
  deriving DecidableEq

/-- A pool from a closure: its idle connections, whether it is closed, and the calls under way. -/
structure Factory (γ : Type) where
  /-- Idle connections, the most recently returned last. -/
  idle : List γ
  /-- The pool is closed. -/
  closed : Bool
  /-- The calls between two of their sections. -/
  calls : List (FactoryCall γ)

/-- One section under a lock of one call, which is what other calls can come between. -/
inductive FactoryEvent (γ : Type) where
  /-- `acquire` reads the flag. -/
  | acquire
  /-- `acquire` takes an idle connection, or what the closure makes. -/
  | pop (make : Except DriverError γ)
  /-- `release` reads the flag. -/
  | release (client : γ)
  /-- `release` keeps the connection, if there is room. -/
  | push (client : γ)
  /-- `close` sets the flag. -/
  | close
  /-- `close` drops the idle connections and returns. -/
  | clear

namespace Factory

variable {γ : Type} [DecidableEq γ]

/-- A pool that has just been made: it has no idle connections, is open, and no call is under
way. -/
def new : Factory γ := ⟨[], false, []⟩

/-- What `acquire` makes of the flag that says whether the pool is closed. -/
def checkOpen (s : Factory γ) : Except DriverError Unit :=
  if s.closed then .error (.noEndpoint "pool is closed") else .ok ()

/-- The rest of `acquire`: an idle connection, or what the closure makes. -/
def take (make : Except DriverError γ) (s : Factory γ) : Except DriverError γ × Factory γ :=
  (match s.idle.getLast? with
    | some c => .ok c
    | none => make,
    { s with idle := s.idle.dropLast, calls := s.calls.erase .acquire })

/-- Carry out one section of a call, in the state that the sections before it have left. -/
def step (maxsize : ℕ+) (s : Factory γ) : FactoryEvent γ → Factory γ
  | .acquire =>
    match s.checkOpen with
    | .ok _ => { s with calls := .acquire :: s.calls }
    | .error _ => s
  | .pop make => (s.take make).2
  | .release c =>
    -- On a closed pool the connection is dropped.
    if s.closed then s else { s with calls := .release c :: s.calls }
  | .push c =>
    { s with
      idle := if s.idle.length < maxsize then s.idle ++ [c] else s.idle
      calls := s.calls.erase (.release c) }
  | .close => { s with closed := true, calls := .close :: s.calls }
  | .clear => { s with idle := [], calls := s.calls.erase .close }

/-- The section is the next one of a call under way, or the first one of a call. -/
def Enabled (s : Factory γ) : FactoryEvent γ → Prop
  | .acquire | .release _ | .close => True
  | .pop _ => .acquire ∈ s.calls
  | .push c => .release c ∈ s.calls
  | .clear => .close ∈ s.calls

instance (s : Factory γ) (e : FactoryEvent γ) : Decidable (s.Enabled e) := by
  cases e <;> unfold Enabled <;> infer_instance

/-- The states reached from a state by sections of calls. -/
def Reaches (maxsize : ℕ+) : Factory γ → Factory γ → Prop := Run (step maxsize) Enabled

variable {maxsize : ℕ+} {s s' : Factory γ}

/-- `acquire` waits for an idle connection only on an open pool. -/
theorem step_acquire : s.step maxsize .acquire =
    if s.closed then s else { s with calls := .acquire :: s.calls } := by
  cases hclosed : s.closed <;> simp [step, checkOpen, hclosed]

/-- A call that has set the flag leaves the pool closed. -/
theorem closed_of_close (h : Reaches maxsize new s) :
    FactoryCall.close ∈ s.calls → s.closed = true := by
  refine Run.invariant (I := fun s : Factory γ => FactoryCall.close ∈ s.calls → s.closed = true)
    (fun s e _ ih => ?_) h (fun h => absurd h List.not_mem_nil)
  have herase {c : FactoryCall γ} (hmem : FactoryCall.close ∈ s.calls.erase c) : s.closed = true :=
    ih (List.mem_of_mem_erase hmem)
  cases e with
  | acquire =>
    rw [step_acquire]
    split
    · exact ih
    · intro hmem
      exact ih (List.mem_of_ne_of_mem (by simp) hmem)
  | pop make => exact herase
  | release c =>
    dsimp only [step]
    split
    · exact ih
    · intro hmem
      exact ih (List.mem_of_ne_of_mem (by simp) hmem)
  | push c => exact herase
  | close => exact fun _ => rfl
  | clear => exact herase

/-- Nothing can enter the idle list any more. -/
structure Sealed (s : Factory γ) : Prop where
  /-- The pool is closed. -/
  closed : s.closed = true
  /-- No release has found the pool open and not returned. -/
  released : ∀ c, FactoryCall.release c ∉ s.calls
  /-- No connection is idle any more. -/
  idle : s.idle = []

/-- Every section keeps the idle list empty for good. -/
theorem Sealed.step (h : Sealed s) {e : FactoryEvent γ} (he : s.Enabled e) :
    Sealed (s.step maxsize e) := by
  have herase (c : FactoryCall γ) : ∀ d, FactoryCall.release d ∉ s.calls.erase c :=
    fun d hmem => h.released d (List.mem_of_mem_erase hmem)
  cases e with
  | acquire =>
    rw [step_acquire, if_pos h.closed]
    exact h
  | pop make => exact ⟨h.closed, herase _, by simp [Factory.step, take, h.idle]⟩
  | release c =>
    have hsame : s.step maxsize (.release c) = s := by simp [Factory.step, h.closed]
    rwa [hsame]
  | push c => exact absurd he (h.released c)
  | close =>
    refine ⟨rfl, fun c hmem => ?_, h.idle⟩
    exact h.released c (List.mem_of_ne_of_mem (by simp) hmem)
  | clear => exact ⟨h.closed, herase _, rfl⟩

/-- **A closed pool stays empty.** After a `close` call has dropped the idle connections,
the idle list is empty in every later state exactly when no `release` call had found the
pool open and had not yet kept its connection. -/
theorem idle_empty_after_close_iff (h : Reaches maxsize new s)
    (hclose : FactoryCall.close ∈ s.calls) :
    (∀ s', Reaches maxsize (s.step maxsize .clear) s' → s'.idle = []) ↔
      ∀ c, FactoryCall.release c ∉ s.calls := by
  constructor
  · intro hempty c hmem
    have hpending : (s.step maxsize .clear).Enabled (.push c) :=
      (List.mem_erase_of_ne (by simp)).mpr hmem
    have hidle := hempty _ (Run.tail Run.refl hpending)
    have hroom : 0 < (maxsize : ℕ) := maxsize.pos
    simp [step, hroom] at hidle
  · intro hreleased s' hrun
    have hclosed : s.closed = true := closed_of_close h hclose
    have hsealed : Sealed (s.step maxsize .clear) :=
      ⟨hclosed, fun c hmem => hreleased c (List.mem_of_mem_erase hmem), rfl⟩
    exact (Run.invariant (fun s e he hs => hs.step he) hrun hsealed).idle

/-- A connection that is kept before the pool is closed, and one released afterwards. -/
theorem idle_empty_after_close_iff_released :
    (step 1 (step 1 (step 1 (step 1 (step 1 (new : Factory ℕ) (.release 7)) (.push 7)) .close)
      .clear) (.release 8)).idle = [] := by
  have hcalls : (step 1 (step 1 (step 1 (new : Factory ℕ) (.release 7)) (.push 7))
      .close).calls = [.close] := by decide
  have hreleased (c : ℕ) : FactoryCall.release c ∉ (step 1 (step 1 (step 1 (new : Factory ℕ)
      (.release 7)) (.push 7)) .close).calls := by
    intro hmem
    rw [hcalls] at hmem
    cases List.mem_singleton.mp hmem
  exact (idle_empty_after_close_iff
    (Run.tail (Run.tail (Run.tail Run.refl (by decide)) (by decide)) (by decide))
    (by decide)).mpr hreleased _ (Run.tail Run.refl (by decide))

/-- A connection that is kept after the pool was closed: its release had found it open. -/
theorem idle_after_close :
    ∃ s s' : Factory ℕ, Reaches 1 new s ∧ FactoryCall.close ∈ s.calls ∧
      Reaches 1 (s.step 1 .clear) s' ∧ s'.idle = [7] :=
  ⟨step 1 (step 1 new (.release 7)) .close, step 1 (step 1 (step 1 (step 1 new (.release 7)) .close)
    .clear) (.push 7), Run.tail (Run.tail Run.refl (by decide)) (by decide), by decide,
    Run.tail Run.refl (by decide), by decide⟩

end Factory

end Skaidb
