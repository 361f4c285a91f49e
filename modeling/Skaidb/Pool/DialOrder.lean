import Skaidb.Pool.Balancer

/-!
# The order of a dial

The endpoints of a dial are all members, each of them once: the member that was picked, the
other usable ones in an order that the generator decides, and the rest by the end of their
ejection. Whatever the generator draws, a shuffle exchanges positions and loses nothing. A
dial that reaches nobody has tried every one of them.
-/

namespace Skaidb

namespace Balancer

/-! ## Shuffling -/

section Shuffle

variable {α : Type}

/-- Exchanging two positions of a list leaves the same elements. -/
theorem swap_perm (v : List α) (i j : ℕ) : (swap v i j).Perm v := by
  unfold swap
  split
  · next a c ha hc =>
    obtain ⟨hi, rfl⟩ := List.getElem?_eq_some_iff.mp ha
    obtain ⟨hj, rfl⟩ := List.getElem?_eq_some_iff.mp hc
    exact List.set_set_perm hi hj
  · exact List.Perm.refl v

/-- Shuffling gives the same endpoints in some order, whatever numbers the generator draws. -/
theorem shuffle_perm (rng : UInt64) (v : List α) : (shuffle rng v).1.Perm v := by
  unfold shuffle
  generalize (List.range' 1 (v.length - 1)).reverse = positions
  suffices h : ∀ start : List α × UInt64, (positions.foldl (fun acc i =>
      (swap acc.1 i (below acc.2 (i + 1)).1, (below acc.2 (i + 1)).2)) start).1.Perm start.1 by
    exact h (v, rng)
  induction positions with
  | nil => exact fun start => List.Perm.refl start.1
  | cons i positions ih =>
    intro start
    rw [List.foldl_cons]
    exact (ih _).trans (swap_perm start.1 i _)

end Shuffle

/-! ## The members in layers -/

/-- The end of the ejection of the member at an endpoint, if it has one that is ejected. -/
def untilOf (members : Members) (ep : String) : Option ℕ :=
  (members.get? ep).bind Member.ejectedUntil

/-- The first is not ejected, or both are and its ejection ends no later. -/
def NoLater : Option ℕ → Option ℕ → Prop
  | none, _ => True
  | some _, none => False
  | some x, some y => x ≤ y

/-- The order contains every member once: the one asked for, then those in rotation, then the
others. -/
structure BestFirst (members : Members) (first : Option String) (eps : List String) : Prop where
  /-- The order has every member of the pool once. -/
  perm : eps.Perm (members.entries.map Prod.fst)
  /-- First the one asked for, then the other usable ones, then the others by the end of their
  ejection. -/
  layers : ∃ usable rest, eps = first.toList ++ usable ++ rest ∧
    (∀ ep ∈ usable, members.Usable ep) ∧ (∀ ep ∈ rest, ¬ members.Usable ep) ∧
    rest.Pairwise fun ep ep' => NoLater (untilOf members ep) (untilOf members ep')

/-- The comparison of members out of rotation is by the end of their ejection. -/
theorem soonest_iff {a c : Option ℕ × String} : soonest a c = true ↔ NoLater a.1 c.1 := by
  unfold soonest NoLater
  rcases a with ⟨_ | x, _⟩ <;> rcases c with ⟨_ | y, _⟩ <;> simp

instance : Std.Total fun a c : Option ℕ × String => (soonest a c : Prop) := by
  refine ⟨fun a c => ?_⟩
  rcases a with ⟨_ | x, _⟩ <;> rcases c with ⟨_ | y, _⟩ <;> simp [soonest]
  omega

instance : IsTrans (Option ℕ × String) fun a c => (soonest a c : Prop) := by
  refine ⟨fun a c d => ?_⟩
  rcases a with ⟨_ | x, _⟩ <;> rcases c with ⟨_ | y, _⟩ <;> rcases d with ⟨_ | z, _⟩ <;>
    simp [soonest]
  omega

/-- The members besides one, with it in front, are all members. -/
theorem perm_cons_others (members : Members) {first : Option String}
    (hfirst : ∀ ep, first = some ep → members.get? ep ≠ none) :
    (first.toList ++ (members.entries.filter fun e => some e.1 != first).map Prod.fst).Perm
      (members.entries.map Prod.fst) := by
  cases first with
  | none =>
    have hall : (members.entries.filter fun e => some e.1 != none) = members.entries :=
      List.filter_eq_self.mpr fun _ _ => rfl
    rw [hall]
    exact List.Perm.refl _
  | some ep =>
    have hmem : ep ∈ members.entries.map Prod.fst := by
      obtain ⟨m, hm⟩ := Option.ne_none_iff_exists'.mp (hfirst ep rfl)
      exact List.mem_map_of_mem (OrdMap.mem_entries.mpr hm)
    have hothers : (members.entries.filter fun e => some e.1 != some ep).map Prod.fst =
        (members.entries.map Prod.fst).erase ep := by
      rw [members.nodup_keys.erase_eq_filter, List.filter_map]
      rfl
    rw [hothers]
    exact (List.perm_cons_erase hmem).symm

/-- The members out of rotation in order of the end of their ejection. -/
theorem pairwise_soonest (members : Members) {others : List (String × Member)}
    (h : ∀ e ∈ others, e ∈ members.entries) :
    (((others.map fun e => (e.2.ejectedUntil, e.1)).insertionSort (soonest · ·)).map
      Prod.snd).Pairwise fun ep ep' => NoLater (untilOf members ep) (untilOf members ep') := by
  have huntil : ∀ p ∈ (others.map fun e => (e.2.ejectedUntil, e.1)).insertionSort (soonest · ·),
      untilOf members p.2 = p.1 := by
    intro p hp
    obtain ⟨e, he, rfl⟩ := List.mem_map.mp ((List.mem_insertionSort _).mp hp)
    rw [untilOf, OrdMap.mem_entries.mp (h e he)]
    rfl
  rw [List.pairwise_map]
  refine (List.pairwise_insertionSort (soonest · ·) _).imp_of_mem ?_
  intro p p' hp hp' hle
  rw [huntil p hp, huntil p' hp']
  exact soonest_iff.mp hle

/-- The endpoints before one is moved to the end are all members, best first. -/
theorem bestFirst_order (st : BalancerState) {first : Option String}
    (hfirst : ∀ ep, first = some ep → st.members.get? ep ≠ none) :
    BestFirst st.members first (order first none st).1 := by
  unfold order
  dsimp only [Option.map_none, Option.getD_none]
  generalize hothers : (st.members.entries.filter fun e => some e.1 != first) = others
  have hsub : ∀ e ∈ others, e ∈ st.members.entries := by
    rw [← hothers]
    exact fun e he => (List.mem_filter.mp he).1
  have husable := shuffle_perm st.rng ((others.filter fun e => e.2.usable).map Prod.fst)
  generalize shuffle st.rng ((others.filter fun e => e.2.usable).map Prod.fst) = shuffled
    at husable ⊢
  have hrest : (((((others.filter fun e => !e.2.usable).map fun e =>
      (e.2.ejectedUntil, e.1)).insertionSort (soonest · ·)).map Prod.snd)).Perm
        ((others.filter fun e => !e.2.usable).map Prod.fst) := by
    have hperm := (List.perm_insertionSort (soonest · ·)
      ((others.filter fun e => !e.2.usable).map fun e => (e.2.ejectedUntil, e.1))).map Prod.snd
    rwa [List.map_map] at hperm
  have hunusable : ∀ e ∈ others.filter fun e => !e.2.usable, e ∈ st.members.entries :=
    fun e he => hsub e (List.mem_filter.mp he).1
  refine ⟨?_, _, _, rfl, ?_, ?_, pairwise_soonest st.members hunusable⟩
  · have hboth : (shuffled.1 ++ ((((others.filter fun e => !e.2.usable).map fun e =>
        (e.2.ejectedUntil, e.1)).insertionSort (soonest · ·)).map Prod.snd)).Perm
          (others.map Prod.fst) := by
      refine (husable.append hrest).trans ?_
      rw [← List.map_append]
      exact (List.filter_append_perm _ others).map Prod.fst
    rw [List.append_assoc]
    refine (hboth.append_left _).trans ?_
    rw [← hothers]
    exact perm_cons_others st.members hfirst
  · intro ep hep
    obtain ⟨e, he, rfl⟩ := List.mem_map.mp (husable.mem_iff.mp hep)
    obtain ⟨hmem, hu⟩ := List.mem_filter.mp he
    exact ⟨e.2, OrdMap.mem_entries.mp (hsub e hmem), hu⟩
  · intro ep hep
    obtain ⟨e, he, rfl⟩ := List.mem_map.mp (hrest.mem_iff.mp hep)
    obtain ⟨hmem, hu⟩ := List.mem_filter.mp he
    rintro ⟨m, hm, hmu⟩
    rw [OrdMap.mem_entries.mp (hsub e hmem)] at hm
    obtain rfl := Option.some.inj hm
    rw [hmu] at hu
    cases hu

/-- Moving an endpoint to the end, as is done with the lost one, loses no endpoint. -/
theorem moveLast_perm (x : String) (eps : List String) : (moveLast x eps).Perm eps := by
  unfold moveLast
  split
  · next h =>
    have hcons : (eps.erase x ++ [x]).Perm (x :: eps.erase x) := List.perm_append_singleton x _
    exact hcons.trans (List.perm_cons_erase h.2).symm
  · exact List.Perm.refl eps

/-! ## Dialling in order -/

/-- The endpoints are dialled one after another, and every one of them refuses. -/
inductive RefusedInTurn {σ : Type} (E : Env σ) : List String → σ → Prop
  | nil (env : σ) : RefusedInTurn E [] env
  | cons {ep text : String} {rest : List String} {env env' : σ}
      (hdial : E.dial ep env = (.error text, env'))
      (hrest : RefusedInTurn E rest (E.report (.dialFailed ep) env')) :
      RefusedInTurn E (ep :: rest) env

/-- A dial that fails was refused by every endpoint. -/
theorem refusedInTurn_of_openFirst {σ : Type} {E : Env σ} {ordered eps : List String}
    {last : String} {env : σ} {err : DriverError}
    (h : Client.openFirst E true ordered eps last env = .error err) : RefusedInTurn E eps env := by
  induction eps generalizing last env with
  | nil => exact .nil env
  | cons ep rest ih =>
    rw [Client.openFirst] at h
    split at h
    · cases h
    · next text env' hdial => exact .cons hdial (ih h)

/-- **The dial order.** For every state of the pool, its generator among it, the order has all
members once: the one asked for, the other usable ones, then the others by the end of their
ejection; and the one excluded is moved behind all the others. A dial over it that fails was
refused by every member. -/
theorem order_spec (st : BalancerState) (first exclude : Option String)
    (hfirst : ∀ ep, first = some ep → st.members.get? ep ≠ none) :
    (∃ eps, BestFirst st.members first eps ∧
      (order first exclude st).1 = match exclude with
        | some x => if x ∈ eps ∧ 1 < eps.length then eps.erase x ++ [x] else eps
        | none => eps) ∧
    (order first exclude st).1.Perm (st.members.entries.map Prod.fst) ∧
    (order first exclude st).1.Nodup ∧
    ∀ (σ : Type) (E : Env σ) (env : σ) (last : String) (err : DriverError),
      Client.openFirst E true (order first exclude st).1 (order first exclude st).1 last env =
        .error err → RefusedInTurn E (order first exclude st).1 env := by
  have hbest := bestFirst_order st hfirst
  have horder : (order first exclude st).1 = match exclude with
      | some x => moveLast x (order first none st).1
      | none => (order first none st).1 := by
    cases exclude <;> rfl
  have hperm : (order first exclude st).1.Perm (st.members.entries.map Prod.fst) := by
    rw [horder]
    cases exclude with
    | none => exact hbest.perm
    | some x => exact (moveLast_perm x _).trans hbest.perm
  refine ⟨⟨_, hbest, ?_⟩, hperm, ?_, ?_⟩
  · rw [horder]
    cases exclude with
    | none => rfl
    | some x =>
      dsimp only [moveLast]
      exact if_congr and_comm rfl rfl
  · exact hperm.nodup_iff.mpr st.members.nodup_keys
  · intro σ E env last err h
    exact refusedInTurn_of_openFirst h

/-- Three members, the second of them ejected: the one lost is dialled last. -/
def ejectedOne : BalancerState :=
  { start ["a", "b", "c"] 0 1 with
    members := (start ["a", "b", "c"] 0 1).members.modify "b" fun m =>
      { m with ejectedUntil := some 9 } }

/-- The member asked for comes first and the excluded one last, behind the ejected one. -/
theorem order_spec_excluded :
    (order (some "c") (some "a") ejectedOne).1.Perm (ejectedOne.members.entries.map Prod.fst) ∧
      (order (some "c") (some "a") ejectedOne).1 = ["c", "b", "a"] := by
  refine ⟨(order_spec ejectedOne (some "c") (some "a") ?_).2.1, by decide⟩
  rintro ep h
  cases h
  decide

end Balancer

end Skaidb
