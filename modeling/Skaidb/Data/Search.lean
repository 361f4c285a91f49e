import Skaidb.Data.OrdSet
import Mathlib.Logic.Relation

/-!
# Depth-first search

A search through a graph whose nodes may be missing. It marks every node it enters and
shares the marks among the successors of a node, so each node is entered once. What it marks
without finding a goal is closed under the edges, and a node that exists is marked before the
search goes deeper, so the depth is bounded by the number of nodes.
-/

namespace Search

variable {κ σ : Type}

/-- Try one node after another until one answers yes. -/
def firstOf (visit : κ → σ → Option (Bool × σ)) : List κ → σ → Option (Bool × σ)
  | [], seen => some (false, seen)
  | k :: ks, seen =>
    match visit k seen with
    | some (false, seen') => firstOf visit ks seen'
    | out => out

/-- A list of nodes is tried to the end when every node is. -/
theorem firstOf_isSome {visit : κ → σ → Option (Bool × σ)} {P : σ → Prop}
    (hvisit : ∀ k seen, P seen → (visit k seen).isSome)
    (hkeep : ∀ k seen seen', P seen → visit k seen = some (false, seen') → P seen')
    (ks : List κ) {seen : σ} (h : P seen) : (firstOf visit ks seen).isSome := by
  induction ks generalizing seen with
  | nil => rfl
  | cons k ks ih =>
    obtain ⟨⟨found, seen'⟩, hout⟩ := Option.isSome_iff_exists.mp (hvisit k seen h)
    unfold firstOf
    rw [hout]
    cases found with
    | false => exact ih (hkeep k seen seen' h hout)
    | true => rfl

/-- When a search over several nodes ends with yes, one of them answered so. -/
theorem exists_of_firstOf {visit : κ → σ → Option (Bool × σ)} {ks : List κ} {seen seen' : σ}
    (h : firstOf visit ks seen = some (true, seen')) :
    ∃ k ∈ ks, ∃ before, visit k before = some (true, seen') := by
  induction ks generalizing seen with
  | nil => simp [firstOf] at h
  | cons k ks ih =>
    unfold firstOf at h
    split at h
    · obtain ⟨k', hk', hfound⟩ := ih h
      exact ⟨k', List.mem_cons_of_mem k hk', hfound⟩
    · exact ⟨k, List.mem_cons_self, seen, h⟩

section Search

variable {ρ : Type} [Ord ρ] {rank : κ → ρ} [BEq κ] [Std.TransOrd ρ] [Std.LawfulEqOrd ρ]
variable (next : κ → Option (List κ)) (goal : κ → Bool)

/-- Search for a node that exists and is a goal, at most `depth` nodes deep. A node that is
marked or missing is none. -/
def search : ℕ → κ → OrdSet rank → Option (Bool × OrdSet rank)
  | 0, _, _ => none
  | depth + 1, k, seen =>
    if seen.contains k then some (false, seen)
    else match next k with
      | none => some (false, OrdSet.insert seen k)
      | some ks =>
        if goal k then some (true, OrdSet.insert seen k)
        else firstOf (search depth) ks (OrdSet.insert seen k)

/-- There is an edge from one node to another, as the first one lists it. -/
def Edge (a b : κ) : Prop := ∃ ks, next a = some ks ∧ b ∈ ks

/-- The node exists, is a goal and can be reached. -/
def Finds (k : κ) : Prop :=
  ∃ r, Relation.ReflTransGen (Edge next) k r ∧ next r ≠ none ∧ goal r = true

/-- The nodes marked between two sets are no goals and have marked successors. -/
structure Explored (seen seen' : OrdSet rank) : Prop where
  /-- Every node that was marked before is still marked. -/
  mono : ∀ k, seen.contains k = true → seen'.contains k = true
  /-- New marks are explored. -/
  closed : ∀ k, seen'.contains k = true → seen.contains k = false → ∀ ks, next k = some ks →
    goal k = false ∧ ∀ b ∈ ks, seen'.contains b = true

variable {next goal}

omit [Std.TransOrd ρ] [Std.LawfulEqOrd ρ] in
/-- A search that has not begun has explored nothing, and owes nothing. -/
theorem Explored.refl (seen : OrdSet rank) : Explored next goal seen seen :=
  ⟨fun _ h => h, fun _ h h' => absurd (h.symm.trans h') (by simp)⟩

omit [Std.TransOrd ρ] [Std.LawfulEqOrd ρ] in
/-- An exploration that goes on from the marks of another makes one exploration with it. -/
theorem Explored.trans {seen seen' seen'' : OrdSet rank} (h : Explored next goal seen seen')
    (h' : Explored next goal seen' seen'') : Explored next goal seen seen'' := by
  refine ⟨fun k hk => h'.mono k (h.mono k hk), fun k hk hnew ks hks => ?_⟩
  cases hmid : seen'.contains k with
  | false => exact h'.closed k hk hmid ks hks
  | true =>
    obtain ⟨hgoal, hsucc⟩ := h.closed k hmid hnew ks hks
    exact ⟨hgoal, fun b hb => h'.mono b (hsucc b hb)⟩

omit [Std.TransOrd ρ] [Std.LawfulEqOrd ρ] in
/-- All nodes of a list are explored when none is a goal. -/
theorem firstOf_explored {visit : κ → OrdSet rank → Option (Bool × OrdSet rank)}
    (hvisit : ∀ k seen seen', visit k seen = some (false, seen') →
      Explored next goal seen seen' ∧ seen'.contains k = true)
    {ks : List κ} {seen seen' : OrdSet rank} (h : firstOf visit ks seen = some (false, seen')) :
    Explored next goal seen seen' ∧ ∀ k ∈ ks, seen'.contains k = true := by
  induction ks generalizing seen with
  | nil =>
    obtain rfl : seen = seen' := congrArg Prod.snd (Option.some.inj h)
    exact ⟨Explored.refl seen, by simp⟩
  | cons k ks ih =>
    unfold firstOf at h
    split at h
    · next mid hmid =>
      obtain ⟨hfirst, hk⟩ := hvisit k seen mid hmid
      obtain ⟨hrest, hks⟩ := ih h
      refine ⟨hfirst.trans hrest, fun b hb => ?_⟩
      rcases List.mem_cons.mp hb with rfl | hb
      · exact hrest.mono b hk
      · exact hks b hb
    · next hout => exact absurd h (hout seen')

/-- What a search finds can be reached along edges from where it began. -/
theorem search_finds {depth : ℕ} {k : κ} {seen seen' : OrdSet rank}
    (h : search next goal depth k seen = some (true, seen')) : Finds next goal k := by
  induction depth generalizing k seen seen' with
  | zero => simp [search] at h
  | succ depth ih =>
    unfold search at h
    split at h
    · exact absurd (congrArg Prod.fst (Option.some.inj h)) (by simp)
    · cases hnext : next k with
      | none =>
        rw [hnext] at h
        exact absurd (congrArg Prod.fst (Option.some.inj h)) (by simp)
      | some ks =>
        simp only [hnext] at h
        split at h
        · next hgoal => exact ⟨k, .refl, by simp [hnext], hgoal⟩
        · obtain ⟨b, hb, before, hfound⟩ := exists_of_firstOf h
          obtain ⟨r, hreach, hr⟩ := ih hfound
          exact ⟨r, .head ⟨ks, hnext, hb⟩ hreach, hr⟩

/-- What can be reached from a marked node is marked, when all marks are explored. -/
theorem Explored.reaches {seen : OrdSet rank} (h : Explored next goal (OrdSet.empty rank) seen)
    {k r : κ} (hk : seen.contains k = true) (hreach : Relation.ReflTransGen (Edge next) k r) :
    seen.contains r = true := by
  induction hreach with
  | refl => exact hk
  | tail _ hedge ih =>
    obtain ⟨ks, hks, hb⟩ := hedge
    exact (h.closed _ ih rfl ks hks).2 _ hb

variable [LawfulBEq κ] [Ranked rank]

/-- A search that finds nothing explores what it marks. -/
theorem search_explored {depth : ℕ} {k : κ} {seen seen' : OrdSet rank}
    (h : search next goal depth k seen = some (false, seen')) :
    Explored next goal seen seen' ∧ seen'.contains k = true := by
  induction depth generalizing k seen seen' with
  | zero => simp [search] at h
  | succ depth ih =>
    unfold search at h
    split at h
    · next hseen =>
      obtain rfl : seen = seen' := congrArg Prod.snd (Option.some.inj h)
      exact ⟨Explored.refl seen, hseen⟩
    · next hfresh =>
      cases hnext : next k with
      | none =>
        rw [hnext] at h
        obtain rfl : OrdSet.insert seen k = seen' := congrArg Prod.snd (Option.some.inj h)
        refine ⟨⟨fun b hb => by simp [hb], fun b hb hnew ks hks => ?_⟩, by simp⟩
        have hb' : b = k := by simpa [hnew] using hb
        rw [hb', hnext] at hks
        cases hks
      | some ks =>
        simp only [hnext] at h
        split at h
        · exact absurd (congrArg Prod.fst (Option.some.inj h)) (by simp)
        · next hgoal =>
          obtain ⟨hexplored, hsucc⟩ := firstOf_explored (fun _ _ _ => ih) h
          have hk : seen'.contains k = true := hexplored.mono k (by simp)
          refine ⟨⟨fun b hb => hexplored.mono b (by simp [hb]), fun b hb hnew bs hbs => ?_⟩, hk⟩
          by_cases hbk : b = k
          · subst hbk
            obtain rfl := Option.some.inj (hnext.symm.trans hbs)
            exact ⟨by simpa using hgoal, hsucc⟩
          · exact hexplored.closed b hb (by simp [hbk, hnew]) bs hbs

/-- The nodes among some keys that the search has not marked yet. -/
def unmarked (keys : List κ) (seen : OrdSet rank) : List κ :=
  keys.filter fun k => !seen.contains k

omit [Std.TransOrd ρ] [Std.LawfulEqOrd ρ] [LawfulBEq κ] [Ranked rank] in
/-- The more nodes are marked, the fewer are left, which is why the search ends. -/
theorem unmarked_le {keys : List κ} {seen seen' : OrdSet rank}
    (h : ∀ k, seen.contains k = true → seen'.contains k = true) :
    (unmarked keys seen').length ≤ (unmarked keys seen).length := by
  refine (List.monotone_filter_right keys fun k hk => ?_).length_le
  cases hseen : seen.contains k with
  | false => rfl
  | true => simp [h k hseen] at hk

/-- Marking a node that was not marked leaves one node less to visit. -/
theorem unmarked_lt {keys : List κ} {seen : OrdSet rank} {k : κ} (hk : k ∈ keys)
    (hnew : seen.contains k = false) :
    (unmarked keys (OrdSet.insert seen k)).length < (unmarked keys seen).length := by
  have hle : (unmarked keys (OrdSet.insert seen k)).length ≤ (unmarked keys seen).length :=
    unmarked_le fun b hb => by simp [hb]
  refine lt_of_le_of_ne hle fun heq => ?_
  have hsub : List.Sublist (unmarked keys (OrdSet.insert seen k)) (unmarked keys seen) :=
    List.monotone_filter_right keys fun b hb => by
      simp only [OrdSet.contains_insert, Bool.not_or, Bool.and_eq_true] at hb
      exact hb.2
  have hmem : k ∈ unmarked keys seen := List.mem_filter.mpr ⟨hk, by simp [hnew]⟩
  rw [← hsub.eq_of_length heq] at hmem
  exact absurd (List.mem_filter.mp hmem).2 (by simp)

/-- A search deeper than the nodes that are not marked comes to an end. -/
theorem search_isSome {keys : List κ} (hkeys : ∀ k, next k ≠ none → k ∈ keys) {depth : ℕ} {k : κ}
    {seen : OrdSet rank} (h : (unmarked keys seen).length < depth) :
    (search next goal depth k seen).isSome := by
  induction depth generalizing k seen with
  | zero => exact absurd h (Nat.not_lt_zero _)
  | succ depth ih =>
    unfold search
    split
    · rfl
    · next hseen =>
      cases hnext : next k with
      | none => rfl
      | some ks =>
        dsimp only
        split
        · rfl
        · have hmem : k ∈ keys := hkeys k (by simp [hnext])
          have hless := unmarked_lt hmem (by simpa using hseen)
          refine firstOf_isSome (P := fun s => (unmarked keys s).length < depth)
            (fun b s hs => ih hs) (fun b s s' hs hout => ?_) ks (by omega)
          exact lt_of_le_of_lt (unmarked_le (search_explored hout).1.mono) hs

/-- **A search answers.** Deeper than the number of nodes it comes to an end, and its answer
is yes exactly when a goal can be reached. -/
theorem search_iff {keys : List κ} (hkeys : ∀ k, next k ≠ none → k ∈ keys) {depth : ℕ}
    (h : keys.length < depth) (k : κ) :
    ∃ found seen', search next goal depth k (OrdSet.empty rank) = some (found, seen') ∧
      (found = true ↔ Finds next goal k) := by
  have hdepth : (unmarked keys (OrdSet.empty rank)).length < depth :=
    lt_of_le_of_lt (List.length_filter_le _ _) h
  obtain ⟨⟨found, seen'⟩, hout⟩ :=
    Option.isSome_iff_exists.mp (search_isSome hkeys hdepth)
  refine ⟨found, seen', hout, ?_⟩
  cases found with
  | true => exact ⟨fun _ => search_finds hout, fun _ => rfl⟩
  | false =>
    obtain ⟨hexplored, hk⟩ := search_explored hout
    refine ⟨fun h => absurd h (by simp), ?_⟩
    rintro ⟨r, hreach, hexists, hgoal⟩
    have hmarked : seen'.contains r = true := hexplored.reaches hk hreach
    obtain ⟨ks, hks⟩ := Option.ne_none_iff_exists'.mp hexists
    exact absurd ((hexplored.closed r hmarked rfl ks hks).1.symm.trans hgoal) (by simp)

end Search

end Search
