import Skaidb.Pool.Balancer

/-!
# Taking an idle connection

The idle connections are walked from one end. The walk stops at the first connection to a
usable member that is the target, if there is one, and notes the positions of connections to
members out of rotation on its way; then the list is rebuilt without both. The connection
handed out, the stale ones and the ones kept are the idle ones before.
-/

namespace Skaidb

namespace Balancer

/-! ## Positions of a list -/

section Positions

variable {α : Type}

/-- Walking over the positions of a list from the first to the last gives its elements. -/
theorem filterMap_range_getElem? (l : List α) : (List.range l.length).filterMap (l[·]?) = l := by
  induction l with
  | nil => rfl
  | cons a l ih =>
    rw [List.length_cons, List.range_succ_eq_map, List.filterMap_cons, List.filterMap_map]
    exact congrArg (a :: ·) ih

/-- Of the numbered elements of a list, those with one number are the element at that position. -/
theorem filter_zipIdx_eq (l : List α) (i k : ℕ) :
    ((l.zipIdx k).filter fun e => e.2 == k + i).map Prod.fst = l[i]?.toList := by
  induction l generalizing i k with
  | nil => rfl
  | cons a l ih =>
    rw [List.zipIdx_cons]
    cases i with
    | zero =>
      -- The positions behind the first one are greater.
      have hbehind : (l.zipIdx (k + 1)).filter (fun e => e.2 == k + 0) = [] := by
        refine List.filter_eq_nil_iff.mpr fun e he => ?_
        have hle := (List.mem_zipIdx he).1
        simp only [beq_iff_eq]
        omega
      rw [List.filter_cons_of_pos (by simp), hbehind]
      rfl
    | succ i =>
      have hhere : ((a, k).2 == k + (i + 1)) = false := by
        simp
      have hrest := ih i (k + 1)
      rw [show k + 1 + i = k + (i + 1) by omega] at hrest
      rw [List.filter_cons_of_neg (by simp [hhere]), hrest]
      rfl

/-- A list is the element at one position, if there is one, and the list without that position. -/
theorem perm_filter_zipIdx (l : List α) {found : Option ℕ} :
    ((found.bind (l[·]?)).toList ++
      (l.zipIdx.filter fun e => some e.2 != found).map Prod.fst).Perm l := by
  have hfound : (found.bind (l[·]?)).toList =
      (l.zipIdx.filter fun e => some e.2 == found).map Prod.fst := by
    cases found with
    | none =>
      have hnone : (l.zipIdx.filter fun e => some e.2 == none) = [] :=
        List.filter_eq_nil_iff.mpr fun _ _ => by simp
      rw [hnone]
      rfl
    | some i =>
      have hat := filter_zipIdx_eq l i 0
      rw [Nat.zero_add] at hat
      exact hat.symm
  rw [hfound, ← List.map_append]
  have hparts := (List.filter_append_perm (fun e => some e.2 == found) l.zipIdx).map Prod.fst
  rwa [List.zipIdx_map_fst] at hparts

end Positions

/-! ## The walk -/

/-- The member is usable, and is the target if there is one. -/
def Eligible (members : Members) (target : Option String) (c : Connection) : Prop :=
  members.Usable (memberOf c) ∧ ∀ ep, target = some ep → memberOf c = ep

/-- The connection is one that the walk stops at. -/
def eligible (members : Members) (target : Option String) (c : Connection) : Bool :=
  usableAt members (memberOf c) && target.all (· == memberOf c)

/-- The test of an endpoint that the walk makes says whether it is a usable member. -/
theorem usableAt_iff {members : Members} {ep : String} :
    usableAt members ep = true ↔ members.Usable ep := by
  unfold usableAt Members.Usable
  cases members.get? ep with
  | none => simp
  | some m => simp

/-- The walk over the idle connections stops at those that are eligible, and at no others. -/
theorem eligible_iff {members : Members} {target : Option String} {c : Connection} :
    eligible members target c = true ↔ Eligible members target c := by
  unfold eligible Eligible
  rw [Bool.and_eq_true, usableAt_iff]
  cases target with
  | none => simp
  | some ep =>
    rw [Option.all_some, beq_iff_eq]
    constructor
    · rintro ⟨husable, rfl⟩
      exact ⟨husable, fun _ h => Option.some.inj h⟩
    · rintro ⟨husable, hep⟩
      exact ⟨husable, (hep ep rfl).symm⟩

/-- The connections in the order of the walk. -/
def inOrder (b : Balancer) (st : BalancerState) : List Connection :=
  match b.opts.idleOrder with
  | .fifo => st.idle
  | .lifo => st.idle.reverse

section Walk

variable {st : BalancerState} {target : Option String}

/-- The walk finds the first eligible connection, and what it notes before is not usable. -/
theorem searchIdle_spec {positions : List ℕ} (h : ∀ i ∈ positions, i < st.idle.length) :
    (searchIdle st target positions).1.bind (st.idle[·]?) =
        (positions.filterMap (st.idle[·]?)).find? (eligible st.members target) ∧
      ∀ i ∈ (searchIdle st target positions).2, ∀ c, st.idle[i]? = some c →
        usableAt st.members (memberOf c) = false := by
  induction positions with
  | nil => exact ⟨rfl, fun i hi => absurd hi List.not_mem_nil⟩
  | cons i positions ih =>
    obtain ⟨hfound, hstale⟩ := ih fun j hj => h j (List.mem_cons_of_mem _ hj)
    obtain ⟨c, hc⟩ : ∃ c, st.idle[i]? = some c :=
      ⟨_, List.getElem?_eq_getElem (h i List.mem_cons_self)⟩
    have hep : (st.idle[i]?.map memberOf).getD "" = memberOf c := by
      rw [hc]
      rfl
    rw [searchIdle, List.filterMap_cons, hc]
    dsimp only
    rw [← hc, hep, List.find?_cons]
    by_cases husable : usableAt st.members (memberOf c) = true
    · rw [if_pos husable]
      by_cases htarget : target.all (· == memberOf c) = true
      · have heligible : eligible st.members target c = true := by
          simp [eligible, husable, htarget]
        rw [if_pos htarget, heligible]
        exact ⟨hc, fun j hj => absurd hj List.not_mem_nil⟩
      · have heligible : eligible st.members target c = false := by
          simp [eligible, htarget]
        rw [if_neg htarget, heligible]
        exact ⟨hfound, hstale⟩
    · have heligible : eligible st.members target c = false := by
        simp [eligible, husable]
      rw [if_neg husable, heligible]
      refine ⟨hfound, fun j hj d hd => ?_⟩
      rcases List.mem_cons.mp hj with rfl | hj
      · rw [hc] at hd
        obtain rfl := Option.some.inj hd
        simpa using husable
      · exact hstale j hj d hd

/-- Both ways of rebuilding the list lose and double nothing. -/
theorem takeFound_perm (found : Option ℕ) (stale : List ℕ) (st : BalancerState) :
    ((takeFound found stale st).1.1.toList ++ (takeFound found stale st).1.2 ++
      (takeFound found stale st).2.idle).Perm st.idle := by
  unfold takeFound
  split
  · -- Without stale connections the one found is removed at its position.
    dsimp only
    rw [List.append_nil]
    cases found with
    | none => exact List.Perm.refl _
    | some i =>
      by_cases hi : i < st.idle.length
      · dsimp only [Option.bind_some, Option.map_some, Option.getD_some]
        rw [List.getElem?_eq_getElem hi]
        exact List.getElem_cons_eraseIdx_perm hi
      · dsimp only [Option.bind_some, Option.map_some, Option.getD_some]
        rw [List.getElem?_eq_none (not_lt.mp hi), List.eraseIdx_of_length_le (not_lt.mp hi)]
        exact List.Perm.refl _
  · dsimp only
    rw [List.append_assoc, ← List.map_append]
    have hrest := (List.filter_append_perm (fun e => stale.contains e.2)
      (st.idle.zipIdx.filter fun e => some e.2 != found)).map Prod.fst
    exact (hrest.append_left _).trans (perm_filter_zipIdx st.idle)

/-- The connections that are dropped stand at the positions noted. -/
theorem takeFound_stale {found : Option ℕ} {stale : List ℕ} {st : BalancerState} {c : Connection}
    (h : c ∈ (takeFound found stale st).1.2) : ∃ i ∈ stale, st.idle[i]? = some c := by
  unfold takeFound at h
  split at h
  · exact absurd h List.not_mem_nil
  · obtain ⟨⟨d, i⟩, he, rfl⟩ := List.mem_map.mp h
    obtain ⟨hrest, hstale⟩ := List.mem_filter.mp he
    have hmem := (List.mem_filter.mp hrest).1
    exact ⟨i, List.contains_iff_mem.mp hstale, List.mem_zipIdx_iff_getElem?.mp hmem⟩

/-- The rest of the state is as it was. -/
theorem takeFound_eq (found : Option ℕ) (stale : List ℕ) (st : BalancerState) :
    (takeFound found stale st).2 = { st with idle := (takeFound found stale st).2.idle } ∧
      (takeFound found stale st).1.1 = found.bind (st.idle[·]?) := by
  unfold takeFound
  split <;> exact ⟨rfl, rfl⟩

/-- The positions that are walked are those of the idle connections, from the end that the order
says. -/
theorem positions_spec (b : Balancer) (st : BalancerState) :
    (∀ i ∈ if b.opts.idleOrder = .fifo then List.range st.idle.length
        else (List.range st.idle.length).reverse, i < st.idle.length) ∧
      (if b.opts.idleOrder = .fifo then List.range st.idle.length
        else (List.range st.idle.length).reverse).filterMap (st.idle[·]?) = b.inOrder st := by
  unfold inOrder
  cases b.opts.idleOrder with
  | fifo =>
    rw [if_pos rfl]
    exact ⟨fun i hi => List.mem_range.mp hi, filterMap_range_getElem? st.idle⟩
  | lifo =>
    rw [if_neg (by decide), List.filterMap_reverse, filterMap_range_getElem?]
    exact ⟨fun i hi => List.mem_range.mp (List.mem_reverse.mp hi), rfl⟩

/-- A connection is in the order of the walk when it is idle. -/
theorem mem_inOrder {b : Balancer} {c : Connection} : c ∈ b.inOrder st ↔ c ∈ st.idle := by
  unfold inOrder
  cases b.opts.idleOrder with
  | fifo => rfl
  | lifo => exact List.mem_reverse

end Walk

/-- **Taking an idle connection.** The connection handed out, the stale ones and those left
idle are the idle ones before, the last of these in their old order. The one handed out is the
first in the order of the walk whose member is usable and is the target, if there is one;
there is none only if no idle connection is such; and the members of the stale ones are missing
or not usable. -/
theorem takeIdle_spec (b : Balancer) (target : Option String) (st : BalancerState) :
    ∃ picked stale kept, b.takeIdle target st = ((picked, stale), { st with idle := kept }) ∧
      (picked.toList ++ stale ++ kept).Perm st.idle ∧ List.Sublist kept st.idle ∧
      (∀ c, picked = some c → Eligible st.members target c ∧
        ∃ before after, b.inOrder st = before ++ c :: after ∧
          ∀ d ∈ before, ¬ Eligible st.members target d) ∧
      (picked = none ↔ ∀ c ∈ st.idle, ¬ Eligible st.members target c) ∧
      ∀ c ∈ stale, ¬ st.members.Usable (memberOf c) := by
  unfold takeIdle
  dsimp only
  obtain ⟨hrange, horder⟩ := positions_spec b st
  generalize (if b.opts.idleOrder = .fifo then List.range st.idle.length
    else (List.range st.idle.length).reverse) = positions at hrange horder ⊢
  obtain ⟨hfound, hstale⟩ := @searchIdle_spec st target positions hrange
  rw [horder] at hfound
  generalize searchIdle st target positions = searched at hfound hstale ⊢
  obtain ⟨hstate, hpicked⟩ := takeFound_eq searched.1 searched.2 st
  rw [hfound] at hpicked
  refine ⟨_, _, _, Prod.ext rfl hstate, takeFound_perm searched.1 searched.2 st,
    (takeFound_mem searched.1 searched.2 st).2.2, ?_, ?_, ?_⟩
  · intro c hc
    rw [hpicked] at hc
    obtain ⟨heligible, before, after, hsplit, hbefore⟩ := List.find?_eq_some_iff_append.mp hc
    refine ⟨eligible_iff.mp heligible, before, after, hsplit, fun d hd hd' => ?_⟩
    have hnot := hbefore d hd
    rw [eligible_iff.mpr hd'] at hnot
    cases hnot
  · rw [hpicked, List.find?_eq_none]
    simp only [mem_inOrder, eligible_iff]
  · intro c hc husable
    obtain ⟨i, hi, hat⟩ := takeFound_stale hc
    have hnot := hstale i hi c hat
    rw [usableAt_iff.mpr husable] at hnot
    cases hnot

end Balancer

end Skaidb
