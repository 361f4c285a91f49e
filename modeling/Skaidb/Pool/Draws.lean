import Skaidb.Pool.DialOrder
import Skaidb.Pool.RoundRobin

/-!
# The balancing generator

The generator of a pool is never stuck: it is a bijection that leads from no other state to
zero and from none but zero to itself, and its seed is odd. Picking a member and shuffling are
given once more with the panics of the arithmetic and of the indexing they do and with the draws
they ask for: they meet no panic, and every draw is from a range that is not empty.
-/

namespace Skaidb

open Program

namespace Balancer

/-! ## Draws and panics -/

/-- A draw: the end of its range and the number drawn. -/
structure Draw where
  /-- The end of the range. -/
  n : ℕ
  /-- The number that was drawn. -/
  value : ℕ
  deriving DecidableEq

/-- The range is not empty and the number lies in it. -/
def Draw.InRange (d : Draw) : Prop := 1 ≤ d.n ∧ d.value < d.n

/-- `x % n` on machine numbers, nothing where a zero divisor makes it panic. -/
def remainder (x n : ℕ) : Option ℕ := if n = 0 then none else some (x % n)

/-- `x - y` on machine numbers, nothing where an overflow makes it panic. -/
def minus (x y : ℕ) : Option ℕ := if y ≤ x then some (x - y) else none

/-- `Rng::below` with its panic and with the draw it makes written down. -/
def below? (rng : UInt64) (n : ℕ) : Recording Draw (ℕ × UInt64) := do
  let x := nextU64 rng
  let value ← expect (remainder x.toNat n)
  record ⟨n, value⟩
  return (value, x)

/-- `swap`, which panics when there is no such position. -/
def swap? {α : Type} (v : List α) (i j : ℕ) : Recording Draw (List α) := do
  let a ← expect v[i]?
  let c ← expect v[j]?
  return (v.set i c).set j a

/-- `shuffle`, which writes its draws down and panics where the source indexes out of bounds. -/
def shuffle? {α : Type} (rng : UInt64) (v : List α) : Recording Draw (List α × UInt64) :=
  (List.range' 1 (v.length - 1)).reverse.foldlM (fun acc i => do
    let (j, rng) ← below? acc.2 (i + 1)
    let v ← swap? acc.1 i j
    return (v, rng)) (v, rng)

/-- `balance`, which writes its draws down and panics where the source divides by zero or indexes
out of bounds. -/
def balance? (b : Balancer) (now : ℕ) (st : BalancerState) :
    Recording Draw (Option String × BalancerState) :=
  let usable := usableEndpoints st.members
  match b.opts.loadBalancing with
  | .random => return (none, st)
  | .roundRobin =>
    if usable.isEmpty then return (none, st)
    else do
      let rr ← expect (remainder ((st.rr + 1) % 2 ^ 64) usable.length)
      let ep ← expect usable[rr]?
      return (some ep, { st with rr := rr })
  | .leastLatency =>
    if usable.isEmpty then return (none, st)
    else if usable.length = 1 then do
      let ep ← expect usable[0]?
      return (some ep, st)
    else do
      let (i, rng) ← below? st.rng usable.length
      let others ← expect (minus usable.length 1)
      let (j, rng) ← below? rng others
      let j := if j ≥ i then j + 1 else j
      let a ← expect usable[i]?
      let c ← expect usable[j]?
      let x ← expect (st.members.get? a)
      let y ← expect (st.members.get? c)
      return (if x.score now ≤ y.score now then some a else some c, { st with rng := rng })

/-- The member a checkout should go to, or none for any. -/
def pick? (b : Balancer) (now later : ℕ) (affinity : Option String) (st : BalancerState) :
    Recording Draw (Option String × BalancerState) :=
  match b.followWrite now affinity st with
  | (some ep, st) => return (some ep, st)
  | (none, st) => b.balance? later st

/-! ## Every draw is in range -/

/-- By a positive number, a remainder is taken without a panic. -/
theorem remainder_of_pos (x : ℕ) {n : ℕ} (hn : 0 < n) : remainder x n = some (x % n) :=
  if_neg (Nat.pos_iff_ne_zero.mp hn)

/-- A draw below a positive number returns the number that the unchecked generator draws, and all
its draws are in range. -/
theorem below?_yields (rng : UInt64) {n : ℕ} (hn : 0 < n) :
    Yields Draw.InRange (below? rng n) (below rng n) := by
  have hrange : Draw.InRange ⟨n, (nextU64 rng).toNat % n⟩ := ⟨hn, Nat.mod_lt _ hn⟩
  apply (Yields.expect (remainder_of_pos _ hn)).bind
  apply (Yields.record hrange).bind
  apply Yields.pure

/-- Positions within the list are exchanged without a panic, as the plain definition exchanges
them. -/
theorem swap?_yields {α : Type} {v : List α} {i j : ℕ} (hi : i < v.length) (hj : j < v.length) :
    Yields Draw.InRange (swap? v i j) (swap v i j) := by
  unfold swap
  rw [List.getElem?_eq_getElem hi, List.getElem?_eq_getElem hj]
  apply (Yields.expect (List.getElem?_eq_getElem hi)).bind
  apply (Yields.expect (List.getElem?_eq_getElem hj)).bind
  apply Yields.pure

/-- A shuffle exchanges positions in the list, and every range ends after its position. -/
theorem shuffle?_yields {α : Type} (rng : UInt64) (v : List α) :
    Yields Draw.InRange (shuffle? rng v) (shuffle rng v) := by
  -- a step keeps the length, which bounds every position
  apply Yields.foldlM (I := fun acc => acc.1.length = v.length) _ rfl
  intro acc hlength i hi
  have hpos : i < v.length := by
    have hmem := List.mem_range'_1.mp (List.mem_reverse.mp hi)
    omega
  have hj : (below acc.2 (i + 1)).1 < acc.1.length := by
    have hlt : (below acc.2 (i + 1)).1 < i + 1 := below_lt acc.2 (Nat.succ_pos i)
    omega
  constructor
  · apply (below?_yields acc.2 (Nat.succ_pos i)).bind
    apply (swap?_yields (by omega) hj).bind
    apply Yields.pure
  · exact (swap_perm acc.1 i _).length_eq.trans hlength

example : (shuffle? 1 ["a", "b", "c"] []).map (fun r => (r.1.1, r.2)) =
    some (["c", "b", "a"], [⟨3, 0⟩, ⟨2, 1⟩]) := by decide

section Policy

variable {b : Balancer} {st : BalancerState}

/-- The round robin goes to a position in the list. -/
theorem balance?_roundRobin (hpolicy : b.opts.loadBalancing = .roundRobin) (now : ℕ)
    (hany : ¬ (usableEndpoints st.members).isEmpty = true)
    (hpos : 0 < (usableEndpoints st.members).length) :
    Yields Draw.InRange (b.balance? now st) (b.balance now st) := by
  have hrr := List.getElem?_eq_getElem (Nat.mod_lt ((st.rr + 1) % 2 ^ 64) hpos)
  unfold balance? balance
  rw [hpolicy]
  dsimp only
  rw [if_neg hany, if_neg hany, hrr]
  apply (Yields.expect (remainder_of_pos _ hpos)).bind
  apply (Yields.expect hrr).bind
  apply Yields.pure

/-- Two positions are sampled: the second draw is among the others, of which there is one. -/
theorem balance?_sampled (hpolicy : b.opts.loadBalancing = .leastLatency) (now : ℕ)
    (hany : ¬ (usableEndpoints st.members).isEmpty = true)
    (hmany : 2 ≤ (usableEndpoints st.members).length) :
    Yields Draw.InRange (b.balance? now st) (b.balance now st) := by
  have hothers : 0 < (usableEndpoints st.members).length - 1 := by omega
  have hminus : minus (usableEndpoints st.members).length 1 =
    some ((usableEndpoints st.members).length - 1) := if_pos (by omega)
  obtain ⟨a, c, m, m', ha, hc, hm, hm'⟩ := exists_sampled hmany
  rw [balance_sampled hpolicy now hmany ha hc hm hm']
  unfold balance?
  rw [hpolicy]
  dsimp only
  rw [if_neg hany, if_neg (by omega)]
  apply (below?_yields st.rng (by omega)).bind
  apply (Yields.expect hminus).bind
  apply (below?_yields _ hothers).bind
  apply (Yields.expect ha).bind
  apply (Yields.expect hc).bind
  apply (Yields.expect hm).bind
  apply (Yields.expect hm').bind
  apply Yields.pure

/-- With one usable member the pick needs no draw, so the checked pick is the unchecked one. -/
theorem balance?_single (hpolicy : b.opts.loadBalancing = .leastLatency) (now : ℕ)
    (hany : ¬ (usableEndpoints st.members).isEmpty = true)
    (hone : (usableEndpoints st.members).length = 1) :
    Yields Draw.InRange (b.balance? now st) (b.balance now st) := by
  have hpos : 0 < (usableEndpoints st.members).length := by omega
  unfold balance? balance
  rw [hpolicy]
  dsimp only
  rw [if_neg hany, if_pos hone, if_pos hone.le, List.getElem?_eq_getElem hpos]
  apply (Yields.expect rfl).bind
  apply Yields.pure

/-- Without a usable member the policy draws no number and picks nobody. -/
theorem balance?_none (now : ℕ) (hnone : usableEndpoints st.members = []) :
    Yields Draw.InRange (b.balance? now st) (b.balance now st) := by
  unfold balance? balance
  rw [hnone]
  cases b.opts.loadBalancing with
  | random | roundRobin | leastLatency => exact Yields.pure _

/-- The policy picks without a panic, as the plain definition does, and draws within range. -/
theorem balance?_yields (b : Balancer) (now : ℕ) (st : BalancerState) :
    Yields Draw.InRange (b.balance? now st) (b.balance now st) := by
  by_cases hany : (usableEndpoints st.members).isEmpty = true
  · exact balance?_none now (List.isEmpty_iff.mp hany)
  · have hpos : 0 < (usableEndpoints st.members).length := by
      apply List.length_pos_iff.mpr
      rwa [List.isEmpty_iff] at hany
    cases hpolicy : b.opts.loadBalancing with
    | random =>
      unfold balance? balance
      rw [hpolicy]
      exact Yields.pure _
    | roundRobin => exact balance?_roundRobin hpolicy now hany hpos
    | leastLatency =>
      by_cases hone : (usableEndpoints st.members).length = 1
      · exact balance?_single hpolicy now hany hone
      · exact balance?_sampled hpolicy now hany (by omega)

end Policy

/-- `pick` returns without a panic, as the plain definition does, and draws within range. -/
theorem pick?_yields (b : Balancer) (now later : ℕ) (affinity : Option String)
    (st : BalancerState) :
    Yields Draw.InRange (b.pick? now later affinity st) (b.pick now later affinity st) := by
  unfold pick? pick
  generalize b.followWrite now affinity st = followed
  obtain ⟨_ | ep, st⟩ := followed
  · exact balance?_yields b later st
  · exact Yields.pure _

/-! ## The generator of a pool -/

section Runs

variable {b : Balancer}

/-- The policy changes the generator by drawing from it, and in no other way. -/
theorem balance_rng (now : ℕ) (st : BalancerState) :
    ∃ n, (b.balance now st).2.rng = nextU64^[n] st.rng := by
  unfold balance
  dsimp only
  split
  · exact ⟨0, rfl⟩
  · split <;> exact ⟨0, rfl⟩
  · split
    · exact ⟨0, rfl⟩
    · exact ⟨2, rfl⟩

/-- A pick changes the generator by drawing from it, and in no other way. -/
theorem pick_rng (now later : ℕ) (affinity : Option String) (st : BalancerState) :
    ∃ n, (b.pick now later affinity st).2.rng = nextU64^[n] st.rng := by
  obtain ⟨keys, hfollow⟩ := b.followWrite_eq now affinity st
  have hrng : (b.followWrite now affinity st).2.rng = st.rng := by rw [hfollow]
  unfold pick
  generalize b.followWrite now affinity st = followed at hrng
  obtain ⟨_ | ep, st'⟩ := followed
  · rw [← hrng]
    exact balance_rng later st'
  · exact ⟨0, hrng⟩

/-- **One event** draws, and changes the generator in no other way. -/
theorem step_rng (s : System) (e : Event) :
    ∃ n, (b.step s e).pool.rng = nextU64^[n] s.pool.rng := by
  obtain ⟨after, hafter⟩ := (b.step_keepsTurn s e).rng
  rw [hafter]
  unfold picked
  cases hpicking : b.picking s e.occurs with
  | none => exact ⟨after, rfl⟩
  | some at_ =>
    obtain ⟨st, key⟩ := at_
    obtain ⟨before, hbefore⟩ := (picking_keepsTurn hpicking).rng
    obtain ⟨n, hn⟩ := b.pick_rng e.now e.later key st
    refine ⟨after + n + before, ?_⟩
    dsimp only
    rw [hn, hbefore, ← Function.iterate_add_apply, ← Function.iterate_add_apply]

/-- **A run** draws: from a seed that is not zero the generator of the pool never gets to zero. -/
theorem run_rng (s : System) (events : List Event) :
    (∃ n, (events.foldl b.step s).pool.rng = nextU64^[n] s.pool.rng) ∧
      (s.pool.rng ≠ 0 → (events.foldl b.step s).pool.rng ≠ 0) := by
  have hdraws : ∃ n, (events.foldl b.step s).pool.rng = nextU64^[n] s.pool.rng := by
    induction events generalizing s with
    | nil => exact ⟨0, rfl⟩
    | cons e events ih =>
      obtain ⟨n, hn⟩ := b.step_rng s e
      obtain ⟨n', hn'⟩ := ih (b.step s e)
      refine ⟨n' + n, ?_⟩
      rw [List.foldl_cons, hn', hn, Function.iterate_add_apply]
  refine ⟨hdraws, fun hseed => ?_⟩
  obtain ⟨n, hn⟩ := hdraws
  rw [hn]
  exact iterate_nextU64_ne_zero hseed n

/-- The generator of a pool is never at zero, whatever happens to the pool. -/
theorem fresh_run_rng (b : Balancer) (endpoints : List String) (start : ℕ) (hash : UInt64)
    (events : List Event) :
    (events.foldl b.step (fresh endpoints start (newRng hash))).pool.rng ≠ 0 := by
  apply (run_rng _ events).2
  exact ne_zero_of_odd (odd_newRng hash)

end Runs

/-- **The generator never gets stuck.** From an odd seed no number of draws leads to zero or to
two equal states in a row, and the step is a bijection. Picking a member and shuffling meet no
panic, and each draw they ask for is from a range that is not empty and lies in it. -/
theorem generator_never_stuck :
    (∀ seed : UInt64, Odd seed.toNat → ∀ n,
      nextU64^[n] seed ≠ 0 ∧ nextU64^[n + 1] seed ≠ nextU64^[n] seed) ∧
    Function.Bijective nextU64 ∧
    (∀ (b : Balancer) (now later : ℕ) (affinity : Option String) (st : BalancerState),
      Yields Draw.InRange (b.pick? now later affinity st) (b.pick now later affinity st)) ∧
    ∀ {α : Type} (rng : UInt64) (v : List α),
      Yields Draw.InRange (shuffle? rng v) (shuffle rng v) := by
  refine ⟨fun seed hodd n => ?_, nextU64_bijective, pick?_yields, shuffle?_yields⟩
  have hstate := iterate_nextU64_ne_zero (ne_zero_of_odd hodd) n
  rw [Function.iterate_succ_apply']
  exact ⟨hstate, nextU64_ne_self hstate⟩

end Balancer

end Skaidb
