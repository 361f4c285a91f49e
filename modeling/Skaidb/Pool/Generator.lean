import Skaidb.Data.XorLinear
import Skaidb.Pool.Balancer

/-!
# The balancing generator

The generator of a pool is an xorshift step on words of 64 bits: a bijection, so a state that
is not zero never leads to zero, and without a fixed point besides zero, so no two draws in a
row are equal. The seed is odd. Every number below a length is drawn from some state, and two
draws one after the other sample two different positions. For small pools every pair of positions
is sampled from a state found by trying the first few thousand of them.
-/

namespace Skaidb

namespace Balancer

/-! ## The generator -/

/-- `Rng::new`: a generator seeded by a hash, whose lowest bit is set so that it is not zero. -/
def newRng (hash : UInt64) : UInt64 := hash ||| 1

/-- The state of a new generator is odd, whatever is hashed for it. -/
theorem odd_newRng (hash : UInt64) : Odd (newRng hash).toNat := by
  have hbit : (newRng hash).toNat.testBit 0 = true := by simp [newRng]
  rw [Nat.testBit_zero, decide_eq_true_eq] at hbit
  exact Nat.odd_iff.mpr hbit

/-- A word with its lowest bit set is not zero, so that the generator cannot start stuck. -/
theorem ne_zero_of_odd {rng : UInt64} (h : Odd rng.toNat) : rng ≠ 0 := by
  rintro rfl
  exact absurd h (by decide)

/-- The generator is an xorshift step on the bits of its state. -/
theorem nextU64_toBitVec (rng : UInt64) :
    (nextU64 rng).toBitVec = XorLinear.xorshift 13 7 17 rng.toBitVec := by
  simp [nextU64, XorLinear.xorshift, XorLinear.addLeft, XorLinear.addRight]

/-- A draw takes different states of the generator to different ones, and reaches all of them. -/
theorem nextU64_bijective : Function.Bijective nextU64 := by
  apply Finite.injective_iff_bijective.mp
  intro x y hxy
  have hbits : Function.Bijective (XorLinear.xorshift 13 7 17 : BitVec 64 → BitVec 64) :=
    XorLinear.bijective_xorshift (by omega) (by omega) (by omega)
  apply UInt64.toBitVec_inj.mp
  apply hbits.injective
  rw [← nextU64_toBitVec, ← nextU64_toBitVec, hxy]

/-- A state that is not zero leads to one that is not zero. -/
theorem nextU64_ne_zero {rng : UInt64} (h : rng ≠ 0) : nextU64 rng ≠ 0 := by
  intro hzero
  apply h
  apply nextU64_bijective.injective
  rw [hzero]
  rfl

/-- However many numbers are drawn, the state is not zero. -/
theorem iterate_nextU64_ne_zero {rng : UInt64} (h : rng ≠ 0) (n : ℕ) : nextU64^[n] rng ≠ 0 := by
  induction n with
  | zero => exact h
  | succ n ih =>
    rw [Function.iterate_succ_apply']
    exact nextU64_ne_zero ih

/-- The characteristic polynomial of the generator, from the constant term up. -/
def charPoly : List Bool := (List.range 65).map fun i => (0x1013ed4a358913201).testBit i

/-- The generator is a zero of its characteristic polynomial, bit by bit. -/
theorem charPoly_root (i : ℕ) (hi : i < 64) :
    XorLinear.eval (XorLinear.xorshift 13 7 17) charPoly (BitVec.twoPow 64 i) = 0#64 := by
  revert i
  decide +kernel

/-- Only at zero does a draw leave the generator where it is. -/
theorem nextU64_ne_self {rng : UInt64} (h : rng ≠ 0) : nextU64 rng ≠ rng := by
  intro hself
  apply h
  apply UInt64.toBitVec_inj.mp
  have hodd : Odd (charPoly.count true) := by decide
  apply (XorLinear.linear_xorshift 13 7 17).eq_zero_of_fixed hodd charPoly_root
  rw [← nextU64_toBitVec, hself]

/-! ## Sampling two positions -/

/-- The position of a draw that counts the positions besides one. -/
def besides (i j : ℕ) : ℕ := if j ≥ i then j + 1 else j

/-- The two positions that are sampled among `n`. -/
def sampled (rng : UInt64) (n : ℕ) : ℕ × ℕ :=
  ((below rng n).1, besides (below rng n).1 (below (below rng n).2 (n - 1)).1)

/-- A second draw, shifted past the first position, gives a position that is in range and another
one. -/
theorem besides_lt {i j n : ℕ} (hj : j < n - 1) : besides i j < n ∧ besides i j ≠ i := by
  unfold besides
  split <;> omega

/-- `Rng::below` draws a number that is below its bound, whenever that is positive. -/
theorem below_lt (rng : UInt64) {n : ℕ} (hn : 0 < n) : (below rng n).1 < n := Nat.mod_lt _ hn

/-- The two positions that `sampled` draws lie in the list and are different. -/
theorem sampled_spec (rng : UInt64) {n : ℕ} (hn : 2 ≤ n) :
    (sampled rng n).1 < n ∧ (sampled rng n).2 < n ∧ (sampled rng n).1 ≠ (sampled rng n).2 := by
  have hsecond := below_lt (below rng n).2 (show 0 < n - 1 by omega)
  obtain ⟨hlt, hne⟩ := @besides_lt (below rng n).1 _ n hsecond
  exact ⟨below_lt rng (by omega), hlt, hne.symm⟩

/-- Two different positions belong to one pair of draws. -/
theorem exists_draws {i j n : ℕ} (hi : i < n) (hj : j < n) (hne : i ≠ j) :
    ∃ s, s < n - 1 ∧ besides i s = j ∧ ∀ s', besides i s' = j → s' = s := by
  refine ⟨if j > i then j - 1 else j, ?_, ?_, ?_⟩
  · split <;> omega
  · unfold besides
    split <;> split <;> omega
  · intro s' hs'
    unfold besides at hs'
    split at hs' <;> split <;> omega

/-! ## What is drawn from some state -/

/-- Every number below a length is drawn from some state that is not zero. -/
theorem exists_below {r n : ℕ} (hr : r < n) (hn : n < 2 ^ 64) :
    ∃ rng, rng ≠ 0 ∧ (below rng n).1 = r := by
  -- The number drawn is the next state, so a state before the number is enough; before zero there
  -- is only zero, and the length itself leaves the same remainder.
  obtain ⟨x, hx, hzero, hmod⟩ : ∃ x, x < 2 ^ 64 ∧ x ≠ 0 ∧ x % n = r := by
    by_cases h : r = 0
    · exact ⟨n, hn, by omega, by rw [Nat.mod_self, h]⟩
    · exact ⟨r, by omega, h, Nat.mod_eq_of_lt hr⟩
  obtain ⟨rng, hrng⟩ := nextU64_bijective.surjective (UInt64.ofNat x)
  have hvalue : (nextU64 rng).toNat = x := by
    rw [hrng, UInt64.toNat_ofNat', Nat.mod_eq_of_lt hx]
  refine ⟨rng, ?_, ?_⟩
  · rintro rfl
    exact hzero (hvalue.symm.trans rfl)
  · unfold below
    rw [hvalue, hmod]

/-- The step of the generator on natural numbers. -/
def nextNat (x : ℕ) : ℕ :=
  let x := x ^^^ (x <<< 13 % 2 ^ 64)
  let x := x ^^^ (x >>> 7)
  x ^^^ (x <<< 17 % 2 ^ 64)

/-- The step on words is the step on numbers. -/
theorem toNat_nextU64 (rng : UInt64) : (nextU64 rng).toNat = nextNat rng.toNat := by
  simp [nextU64, nextNat, UInt64.toNat_xor, UInt64.toNat_shiftLeft, UInt64.toNat_shiftRight]

/-- Two draws from a seed as one number. -/
def drawnPair (n seed : ℕ) : ℕ :=
  nextNat seed % n * (n - 1) + nextNat (nextNat seed) % (n - 1)

/-- The draws from `2 ^ k` seeds, as the bits of a number. -/
def drawnPairs (n : ℕ) : ℕ → ℕ → ℕ
  | 0, seed => 1 <<< drawnPair n seed
  | k + 1, seed => drawnPairs n k seed ||| drawnPairs n k (seed + 2 ^ k)

/-- A bit is set by one of the seeds. -/
theorem exists_seed {n k seed t : ℕ} (h : (drawnPairs n k seed).testBit t = true) :
    ∃ s, seed ≤ s ∧ s < seed + 2 ^ k ∧ drawnPair n s = t := by
  induction k generalizing seed with
  | zero =>
    rw [drawnPairs, Nat.one_shiftLeft, Nat.testBit_two_pow] at h
    exact ⟨seed, le_rfl, by omega, of_decide_eq_true h⟩
  | succ k ih =>
    rw [drawnPairs, Nat.testBit_or, Bool.or_eq_true] at h
    have hpow : 2 ^ (k + 1) = 2 ^ k + 2 ^ k := by rw [pow_succ]; omega
    rcases h with h | h
    · obtain ⟨s, hlow, hhigh, hs⟩ := ih h
      exact ⟨s, hlow, by omega, hs⟩
    · obtain ⟨s, hlow, hhigh, hs⟩ := ih h
      exact ⟨s, by omega, by omega, hs⟩

/-- The seeds below `2 ^ 11` draw every pair for up to sixteen positions. -/
theorem drawnPairs_small :
    ∀ n ∈ List.range' 2 15, drawnPairs n 11 1 = 2 ^ (n * (n - 1)) - 1 := by
  decide +kernel

/-- Every pair of draws for up to sixteen positions is made from some state that is not zero. -/
theorem exists_draws_small {r s n : ℕ} (hr : r < n) (hs : s < n - 1) (hn : n ≤ 16) :
    ∃ rng, rng ≠ 0 ∧ (below rng n).1 = r ∧ (below (below rng n).2 (n - 1)).1 = s := by
  have hall := drawnPairs_small n (List.mem_range'_1.mpr (by omega))
  have hlt : r * (n - 1) + s < n * (n - 1) := by
    have hle : (r + 1) * (n - 1) ≤ n * (n - 1) := Nat.mul_le_mul_right _ hr
    rw [Nat.succ_mul] at hle
    omega
  obtain ⟨seed, hlow, hhigh, hseed⟩ : ∃ seed, 1 ≤ seed ∧ seed < 1 + 2 ^ 11 ∧
      drawnPair n seed = r * (n - 1) + s := by
    apply exists_seed
    rw [hall, Nat.testBit_two_pow_sub_one, decide_eq_true hlt]
  have hvalue : (UInt64.ofNat seed).toNat = seed := by
    rw [UInt64.toNat_ofNat', Nat.mod_eq_of_lt (by omega)]
  have hfirst : (nextU64 (UInt64.ofNat seed)).toNat = nextNat seed := by
    rw [toNat_nextU64, hvalue]
  have hsecond : (nextU64 (nextU64 (UInt64.ofNat seed))).toNat = nextNat (nextNat seed) := by
    rw [toNat_nextU64, hfirst]
  have hmod : nextNat (nextNat seed) % (n - 1) < n - 1 := Nat.mod_lt _ (by omega)
  unfold drawnPair at hseed
  refine ⟨UInt64.ofNat seed, ?_, ?_, ?_⟩
  · intro hzero
    rw [hzero] at hvalue
    exact absurd hvalue (by simp; omega)
  · unfold below
    rw [hfirst]
    have hdiv := congrArg (· / (n - 1)) hseed
    simpa [Nat.mul_add_div (show 0 < n - 1 by omega), Nat.mul_comm _ (n - 1),
      Nat.div_eq_of_lt hmod, Nat.div_eq_of_lt hs] using hdiv
  · unfold below
    rw [hsecond]
    have hrem := congrArg (· % (n - 1)) hseed
    simpa [Nat.mul_add_mod, Nat.mul_comm _ (n - 1), Nat.mod_eq_of_lt hs] using hrem

end Balancer

end Skaidb
