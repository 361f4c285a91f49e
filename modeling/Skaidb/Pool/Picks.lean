import Skaidb.Pool.Effects
import Skaidb.Pool.Generator

/-!
# The member a checkout goes to

A checkout under a policy that picks goes to a usable member whenever there is one. Under
least_latency two different positions are sampled: the second draw counts the positions
besides the first. Every pair of usable members belongs to one pair of draws, each of which some
state of the generator makes.
-/

namespace Skaidb

namespace Balancer

/-! ## Usable endpoints -/

/-- The usable endpoints are those of the usable members. -/
theorem mem_usableEndpoints {members : Members} {ep : String} :
    ep ∈ usableEndpoints members ↔ members.Usable ep := by
  unfold usableEndpoints Members.Usable
  rw [List.mem_map]
  constructor
  · rintro ⟨e, he, rfl⟩
    obtain ⟨hmem, husable⟩ := List.mem_filter.mp he
    exact ⟨e.2, OrdMap.mem_entries.mp hmem, husable⟩
  · rintro ⟨m, hm, husable⟩
    exact ⟨(ep, m), List.mem_filter.mpr ⟨OrdMap.mem_entries.mpr hm, husable⟩, rfl⟩

/-- No endpoint occurs twice among the usable ones, so two positions are two members. -/
theorem nodup_usableEndpoints (members : Members) : (usableEndpoints members).Nodup :=
  List.Nodup.sublist (List.filter_sublist.map Prod.fst) members.nodup_keys

/-- There is a usable endpoint when some member is usable. -/
theorem usableEndpoints_eq_nil_iff {members : Members} :
    usableEndpoints members = [] ↔ ¬ members.AnyUsable := by
  rw [List.eq_nil_iff_forall_not_mem]
  simp only [mem_usableEndpoints, Members.AnyUsable, not_exists]

/-- The endpoint at a position is a usable member. -/
theorem usable_of_getElem? {members : Members} {i : ℕ} {ep : String}
    (h : (usableEndpoints members)[i]? = some ep) : members.Usable ep :=
  mem_usableEndpoints.mp (List.mem_of_getElem? h)

/-- An endpoint has one position among the usable ones, so that different positions are different
members. -/
theorem position_unique {members : Members} {i j : ℕ} {ep : String}
    (hi : (usableEndpoints members)[i]? = some ep) (hj : (usableEndpoints members)[j]? = some ep) :
    i = j := by
  have hlt := (List.getElem?_eq_some_iff.mp hi).1
  exact (List.getElem?_inj hlt (nodup_usableEndpoints members)).mp (hi.trans hj.symm)

/-! ## The pick -/

/-- The first score is no greater than the second: it is at most the second, or is not
reached by it. A score that is no number is not comparable. -/
def NoGreater (x y : Float) : Prop := x ≤ y ∨ ¬ y ≤ x

section Pick

variable {b : Balancer} {st : BalancerState}

/-- A write is followed to a usable member only, since an affinity that is not usable is passed
over. -/
theorem followWrite_usable {now : ℕ} {key : Option String} {ep : String}
    (h : (b.followWrite now key st).1 = some ep) : st.members.Usable ep := by
  unfold followWrite at h
  split at h
  · split at h
    · split at h
      · next m hm =>
        split at h
        · dsimp only at h
          split at h
          · next husable =>
            obtain rfl := Option.some.inj h
            exact ⟨m, hm, husable⟩
          · cases h
        · cases h
      · cases h
    · cases h
  · cases h

/-- What round robin picks, and the position that it leaves: the next one among the usable
members. -/
theorem balance_roundRobin (hpolicy : b.opts.loadBalancing = .roundRobin) (now : ℕ)
    (hany : usableEndpoints st.members ≠ []) :
    b.balance now st =
      ((usableEndpoints st.members)[(st.rr + 1) % 2 ^ 64 % (usableEndpoints st.members).length]?,
        { st with rr := (st.rr + 1) % 2 ^ 64 % (usableEndpoints st.members).length }) := by
  have hempty : (usableEndpoints st.members).isEmpty = false := by
    rw [List.isEmpty_eq_false_iff]
    exact hany
  unfold balance
  rw [hpolicy]
  dsimp only
  rw [hempty]
  rfl

/-- The member at one of two positions has a score no greater than that at the other. -/
structure Compared (members : Members) (now : ℕ) (ep other : String) : Prop where
  /-- The endpoints are different. -/
  ne : ep ≠ other
  /-- The scores are compared. -/
  score : ∃ m m', members.get? ep = some m ∧ members.get? other = some m' ∧
    NoGreater (m.score now) (m'.score now)

/-- Among two or more usable members, there are members at the two positions that are sampled. -/
theorem exists_sampled (hn : 2 ≤ (usableEndpoints st.members).length) :
    ∃ a c m m', (usableEndpoints st.members)[(sampled st.rng
        (usableEndpoints st.members).length).1]? = some a ∧
      (usableEndpoints st.members)[(sampled st.rng
        (usableEndpoints st.members).length).2]? = some c ∧
      st.members.get? a = some m ∧ st.members.get? c = some m' := by
  obtain ⟨hi, hj, -⟩ := sampled_spec st.rng hn
  have ha := List.getElem?_eq_getElem hi
  have hc := List.getElem?_eq_getElem hj
  obtain ⟨m, hm, -⟩ := usable_of_getElem? ha
  obtain ⟨m', hm', -⟩ := usable_of_getElem? hc
  exact ⟨_, _, m, m', ha, hc, hm, hm'⟩

/-- The scores of the members at the two positions decide, and both draws are spent. -/
theorem balance_sampled (hpolicy : b.opts.loadBalancing = .leastLatency) (now : ℕ)
    (hn : 2 ≤ (usableEndpoints st.members).length) {a c : String} {m m' : Member}
    (ha : (usableEndpoints st.members)[(sampled st.rng
      (usableEndpoints st.members).length).1]? = some a)
    (hc : (usableEndpoints st.members)[(sampled st.rng
      (usableEndpoints st.members).length).2]? = some c)
    (hm : st.members.get? a = some m) (hm' : st.members.get? c = some m') :
    b.balance now st = (if m.score now ≤ m'.score now then some a else some c,
      { st with rng := nextU64 (nextU64 st.rng) }) := by
  unfold balance
  rw [hpolicy]
  dsimp only [sampled, besides] at ha hc ⊢
  rw [if_neg (by omega)]
  simp only [ha, hc, Option.bind_some, hm, hm', Option.map_some, Option.getD_some]
  rfl

/-- Among two or more usable members, least_latency picks between the two that it sampled. -/
theorem balance_leastLatency (hpolicy : b.opts.loadBalancing = .leastLatency) (now : ℕ)
    (hn : 2 ≤ (usableEndpoints st.members).length) :
    ∃ a c, (usableEndpoints st.members)[(sampled st.rng
        (usableEndpoints st.members).length).1]? = some a ∧
      (usableEndpoints st.members)[(sampled st.rng
        (usableEndpoints st.members).length).2]? = some c ∧
      ((b.balance now st).1 = some a ∧ Compared st.members now a c ∨
        (b.balance now st).1 = some c ∧ Compared st.members now c a) := by
  obtain ⟨a, c, m, m', ha, hc, hm, hm'⟩ := exists_sampled hn
  have hac : a ≠ c := by
    rintro rfl
    exact (sampled_spec st.rng hn).2.2 (position_unique ha hc)
  refine ⟨a, c, ha, hc, ?_⟩
  rw [balance_sampled hpolicy now hn ha hc hm hm']
  by_cases hle : m.score now ≤ m'.score now
  · rw [if_pos hle]
    exact .inl ⟨rfl, hac, m, m', hm, hm', .inl hle⟩
  · rw [if_neg hle]
    exact .inr ⟨rfl, hac.symm, m', m, hm', hm, .inr hle⟩

/-- A policy that picks, picks a usable member or finds none. -/
theorem balance_spec (hpolicy : b.opts.loadBalancing ≠ .random) (now : ℕ) :
    ((b.balance now st).1 = none ↔ ¬ st.members.AnyUsable) ∧
      ∀ ep, (b.balance now st).1 = some ep → st.members.Usable ep := by
  by_cases hany : usableEndpoints st.members = []
  · have hnone : (b.balance now st).1 = none := by
      unfold balance
      rw [hany]
      dsimp only
      split <;> rfl
    rw [hnone]
    exact ⟨iff_of_true rfl (usableEndpoints_eq_nil_iff.mp hany), fun ep h => by cases h⟩
  · have hsome : ∃ ep, (b.balance now st).1 = some ep ∧ st.members.Usable ep := by
      cases hp : b.opts.loadBalancing with
      | random => exact absurd hp hpolicy
      | roundRobin =>
        have hlt : (st.rr + 1) % 2 ^ 64 % (usableEndpoints st.members).length <
            (usableEndpoints st.members).length :=
          Nat.mod_lt _ (List.length_pos_iff.mpr hany)
        rw [balance_roundRobin hp now hany]
        exact ⟨_, List.getElem?_eq_getElem hlt, usable_of_getElem? (List.getElem?_eq_getElem hlt)⟩
      | leastLatency =>
        by_cases hn : 2 ≤ (usableEndpoints st.members).length
        · obtain ⟨a, c, ha, hc, h⟩ := balance_leastLatency hp now hn
          rcases h with ⟨h, -⟩ | ⟨h, -⟩
          · exact ⟨a, h, usable_of_getElem? ha⟩
          · exact ⟨c, h, usable_of_getElem? hc⟩
        · have hpos := List.length_pos_iff.mpr hany
          have hzero := List.getElem?_eq_getElem hpos
          refine ⟨_, ?_, usable_of_getElem? hzero⟩
          unfold balance
          rw [hp]
          dsimp only
          rw [if_pos (by omega), hzero]
    obtain ⟨ep, hep, husable⟩ := hsome
    rw [hep]
    refine ⟨iff_of_false (by simp) (fun h => h ⟨ep, husable⟩), ?_⟩
    intro ep' h
    obtain rfl := Option.some.inj h
    exact husable

/-- Following a write leaves the members, the position and the generator as they were. -/
theorem followWrite_keeps (now : ℕ) (key : Option String) :
    (b.followWrite now key st).2.members = st.members ∧
      (b.followWrite now key st).2.rr = st.rr ∧ (b.followWrite now key st).2.rng = st.rng := by
  obtain ⟨affinity, h⟩ := b.followWrite_eq now key st
  rw [h]
  exact ⟨rfl, rfl, rfl⟩

/-- Without a write to follow, the pick is that of the load balancing policy. -/
theorem pick_of_none {now : ℕ} {key : Option String} (h : (b.followWrite now key st).1 = none)
    (later : ℕ) : b.pick now later key st = b.balance later (b.followWrite now key st).2 := by
  unfold pick
  generalize b.followWrite now key st = followed at h
  obtain ⟨target, st₁⟩ := followed
  obtain rfl : target = none := h
  rfl

/-- A write that is followed decides the pick, whatever the policy and the state of the
generator. -/
theorem pick_of_some {now : ℕ} {key : Option String} {ep : String}
    (h : (b.followWrite now key st).1 = some ep) (later : ℕ) :
    (b.pick now later key st).1 = some ep := by
  unfold pick
  generalize b.followWrite now key st = followed at h
  obtain ⟨target, st₁⟩ := followed
  obtain rfl : target = some ep := h
  rfl

end Pick

/-- How two usable members are sampled, the first with the draw `r` and the second with the draw
`s`: for these two draws and no others, both of which the generator makes, and up to sixteen
usable members it makes them one after the other. A vector has fewer than `2 ^ 64` elements. -/
structure SampledBy (members : Members) (a c : String) (r s : ℕ) : Prop where
  /-- The first draw is from its range. -/
  first_lt : r < (usableEndpoints members).length
  /-- So is the second, which leaves one position out. -/
  second_lt : s < (usableEndpoints members).length - 1
  /-- The first draw is the first member's position. -/
  first : (usableEndpoints members)[r]? = some a
  /-- The second draw is the second member's position besides it. -/
  second : (usableEndpoints members)[besides r s]? = some c
  /-- No other draws sample the two. -/
  unique : ∀ r' s', (usableEndpoints members)[r']? = some a →
    (usableEndpoints members)[besides r' s']? = some c → r' = r ∧ s' = s
  /-- The generator makes each draw. -/
  drawn : (usableEndpoints members).length < 2 ^ 64 →
    (∃ rng, rng ≠ 0 ∧ (below rng (usableEndpoints members).length).1 = r) ∧
      ∃ rng, rng ≠ 0 ∧ (below rng ((usableEndpoints members).length - 1)).1 = s
  /-- In a small pool it makes them one after the other. -/
  sampled : (usableEndpoints members).length ≤ 16 →
    ∃ rng, rng ≠ 0 ∧ sampled rng (usableEndpoints members).length = (r, besides r s)

/-- Two different usable members are sampled by two draws. -/
theorem exists_sampledBy {members : Members} {a c : String} (ha : members.Usable a)
    (hc : members.Usable c) (hne : a ≠ c) : ∃ r s, SampledBy members a c r s := by
  obtain ⟨i, hi, hia⟩ := List.getElem_of_mem (mem_usableEndpoints.mpr ha)
  obtain ⟨j, hj, hjc⟩ := List.getElem_of_mem (mem_usableEndpoints.mpr hc)
  have hij : i ≠ j := by
    rintro rfl
    exact hne (hia.symm.trans hjc)
  obtain ⟨s, hs, hsj, hunique⟩ := exists_draws hi hj hij
  have hat := List.getElem?_eq_some_iff.mpr ⟨hi, hia⟩
  have hct := List.getElem?_eq_some_iff.mpr ⟨hj, hjc⟩
  refine ⟨i, s, hi, hs, hat, by rw [hsj, hct], ?_, ?_, ?_⟩
  · intro r' s' hr' hs'
    obtain rfl := position_unique hat hr'
    exact ⟨rfl, hunique s' (position_unique hs' hct)⟩
  · intro hlen
    exact ⟨exists_below hi hlen, exists_below hs (by omega)⟩
  · intro hsmall
    obtain ⟨rng, hrng, hfirst, hsecond⟩ := exists_draws_small hi hs hsmall
    refine ⟨rng, hrng, ?_⟩
    unfold Balancer.sampled
    rw [hfirst, hsecond]

/-- **Picks.** In every state of the pool, its generator among it, a policy that picks returns
none exactly when no member is usable, and a usable member otherwise. Without a write to
follow, round robin returns the endpoint at its new position, and least_latency, of two or more
usable members, one of two different ones that it samples, with a score no greater than the
other's. Any two different usable members can be sampled. -/
theorem pick_spec (b : Balancer) (st : BalancerState) (now later : ℕ) (key : Option String)
    (hpolicy : b.opts.loadBalancing ≠ .random) :
    ((b.pick now later key st).1 = none ↔ ¬ st.members.AnyUsable) ∧
    (∀ ep, (b.pick now later key st).1 = some ep → st.members.Usable ep) ∧
    ((b.followWrite now key st).1 = none → b.opts.loadBalancing = .roundRobin →
      usableEndpoints st.members ≠ [] →
      (b.pick now later key st).2.rr < (usableEndpoints st.members).length ∧
        (b.pick now later key st).1 =
          (usableEndpoints st.members)[(b.pick now later key st).2.rr]?) ∧
    ((b.followWrite now key st).1 = none → b.opts.loadBalancing = .leastLatency →
      2 ≤ (usableEndpoints st.members).length →
      ∃ a c, (usableEndpoints st.members)[(sampled st.rng
          (usableEndpoints st.members).length).1]? = some a ∧
        (usableEndpoints st.members)[(sampled st.rng
          (usableEndpoints st.members).length).2]? = some c ∧
        ((b.pick now later key st).1 = some a ∧ Compared st.members later a c ∨
          (b.pick now later key st).1 = some c ∧ Compared st.members later c a)) ∧
    ∀ a c, st.members.Usable a → st.members.Usable c → a ≠ c →
      ∃ r s, SampledBy st.members a c r s := by
  obtain ⟨hmembers, hrr, hrng⟩ := @followWrite_keeps b st now key
  refine ⟨?_, ?_, ?_, ?_, ?_⟩
  · cases hfollow : (b.followWrite now key st).1 with
    | none =>
      rw [pick_of_none hfollow, ← hmembers]
      exact (balance_spec hpolicy later).1
    | some ep =>
      rw [pick_of_some hfollow]
      exact iff_of_false (by simp) fun h => h ⟨ep, followWrite_usable hfollow⟩
  · intro ep hep
    cases hfollow : (b.followWrite now key st).1 with
    | none =>
      rw [pick_of_none hfollow] at hep
      rw [← hmembers]
      exact (balance_spec hpolicy later).2 ep hep
    | some ep' =>
      rw [pick_of_some hfollow] at hep
      obtain rfl := Option.some.inj hep
      exact followWrite_usable hfollow
  · intro hfollow hp hany
    rw [pick_of_none hfollow]
    rw [← hmembers] at hany ⊢
    rw [balance_roundRobin hp later hany]
    exact ⟨Nat.mod_lt _ (List.length_pos_iff.mpr hany), rfl⟩
  · intro hfollow hp hn
    rw [pick_of_none hfollow, ← hmembers, ← hrng]
    rw [← hmembers] at hn
    exact balance_leastLatency hp later hn
  · exact fun a c => exists_sampledBy

/-- The pool of the examples, whose policy is round robin. -/
def rotating : Balancer := ⟨0, { loadBalancing := .roundRobin }, none, .quorum⟩

/-- A pool that prefers the member with the lower score. -/
def scoring : Balancer := ⟨0, { loadBalancing := .leastLatency }, none, .quorum⟩

/-- A new pool of two members picks one under round robin; the scores of both decide under
least_latency, and both are sampled. -/
theorem pick_spec_two :
    (∃ ep, (rotating.pick 0 0 none (start ["a", "b"] 0 1)).1 = some ep ∧
      (start ["a", "b"] 0 1).members.Usable ep) ∧
    (∃ a c, (scoring.pick 0 0 none (start ["a", "b"] 0 1)).1 = some a ∧
      Compared (start ["a", "b"] 0 1).members 0 a c) ∧
    ∃ r s, SampledBy (start ["a", "b"] 0 1).members "a" "b" r s := by
  obtain ⟨hnone, hsome, -⟩ := pick_spec rotating (start ["a", "b"] 0 1) 0 0 none (by decide)
  obtain ⟨-, -, -, hsampled, hpairs⟩ :=
    pick_spec scoring (start ["a", "b"] 0 1) 0 0 none (by decide)
  have husable : (start ["a", "b"] 0 1).members.AnyUsable := ⟨"a", Member.new true, rfl, rfl⟩
  refine ⟨?_, ?_, hpairs "a" "b" ⟨Member.new true, rfl, rfl⟩ ⟨Member.new true, rfl, rfl⟩
    (by decide)⟩
  · cases hpick : (rotating.pick 0 0 none (start ["a", "b"] 0 1)).1 with
    | none => exact absurd husable (hnone.mp hpick)
    | some ep => exact ⟨ep, rfl, hsome ep hpick⟩
  · obtain ⟨a, c, -, -, ⟨hpick, hscore⟩ | ⟨hpick, hscore⟩⟩ := hsampled rfl rfl (by decide)
    · exact ⟨a, c, hpick, hscore⟩
    · exact ⟨c, a, hpick, hscore⟩

end Balancer

end Skaidb
