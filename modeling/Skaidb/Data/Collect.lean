import Skaidb.Data.Search

/-!
# Depth-first collection

A walk through a graph whose nodes may be missing, which gathers something at every node it
enters. It marks nodes the way a search without a goal does, so it enters the nodes that exist
and can be reached, and what it has gathered is what one pass over these nodes gathers.
-/

namespace Search

variable {κ ρ α : Type} [Ord ρ] {rank : κ → ρ} [BEq κ] [Std.TransOrd ρ] [Std.LawfulEqOrd ρ]
variable (next : κ → Option (List κ)) (gather : κ → α → α)

/-- Walk from a node at most `depth` nodes deep, with the marks and what is gathered so far. A
node that is missing is marked only. -/
def collect : ℕ → κ → OrdSet rank × α → Option (OrdSet rank × α)
  | 0, _, _ => none
  | depth + 1, k, (seen, out) =>
    if seen.contains k then some (seen, out)
    else match next k with
      | none => some (OrdSet.insert seen k, out)
      | some ks =>
        ks.foldlM (fun state b => collect depth b state) (OrdSet.insert seen k, gather k out)

/-- One pass over a list of nodes that gathers at each of them in turn. -/
def gatherAll (order : List κ) (out : α) : α := order.foldl (fun out k => gather k out) out

/-- What a walk from the nodes `ks` does: marks stay, new marks can be reached, and the nodes
gathered from are those marked now that exist. -/
structure Walked (ks : List κ) (seen seen' : OrdSet rank) (out out' : α) : Prop where
  /-- Every node that was marked before is still marked. -/
  mono : ∀ b, seen.contains b = true → seen'.contains b = true
  /-- New marks can be reached. -/
  reached : ∀ b, seen'.contains b = true → seen.contains b = false →
    ∃ k ∈ ks, Relation.ReflTransGen (Edge next) k b
  /-- What is gathered comes from the nodes with a new mark. -/
  gathered : ∃ order, out' = gatherAll gather order out ∧ ∀ b, b ∈ order ↔
    next b ≠ none ∧ seen'.contains b = true ∧ seen.contains b = false

variable {next gather}

omit [Std.TransOrd ρ] [Std.LawfulEqOrd ρ] in
/-- A walk from no nodes marks nothing and gathers nothing. -/
theorem Walked.nil (seen : OrdSet rank) (out : α) : Walked next gather [] seen seen out out := by
  refine ⟨fun _ h => h, fun b h h' => absurd (h.symm.trans h') (by simp), [], rfl, fun b => ?_⟩
  constructor
  · intro h
    cases h
  · rintro ⟨-, h, h'⟩
    exact absurd (h.symm.trans h') (by simp)

omit [Std.TransOrd ρ] [Std.LawfulEqOrd ρ] in
/-- A walk from some nodes and then one from others make up a walk from all of them. -/
theorem Walked.append {ks ks' : List κ} {seen mid seen' : OrdSet rank} {out between out' : α}
    (h : Walked next gather ks seen mid out between)
    (h' : Walked next gather ks' mid seen' between out') :
    Walked next gather (ks ++ ks') seen seen' out out' := by
  obtain ⟨order, hout, horder⟩ := h.gathered
  obtain ⟨order', hout', horder'⟩ := h'.gathered
  refine ⟨fun b hb => h'.mono b (h.mono b hb), fun b hb hnew => ?_, order ++ order', ?_,
    fun b => ?_⟩
  · cases hmid : mid.contains b with
    | true =>
      obtain ⟨k, hk, hreach⟩ := h.reached b hmid hnew
      exact ⟨k, List.mem_append_left ks' hk, hreach⟩
    | false =>
      obtain ⟨k, hk, hreach⟩ := h'.reached b hb hmid
      exact ⟨k, List.mem_append_right ks hk, hreach⟩
  · rw [hout', hout]
    exact (List.foldl_append ..).symm
  · rw [List.mem_append, horder, horder']
    constructor
    · rintro (⟨hexists, hb, hnew⟩ | ⟨hexists, hb, hnew⟩)
      · exact ⟨hexists, h'.mono b hb, hnew⟩
      · refine ⟨hexists, hb, ?_⟩
        by_contra hseen
        exact absurd (h.mono b (by simpa using hseen)) (by simp [hnew])
    · rintro ⟨hexists, hb, hnew⟩
      cases hmid : mid.contains b with
      | true => exact Or.inl ⟨hexists, rfl, hnew⟩
      | false => exact Or.inr ⟨hexists, hb, rfl⟩

omit [Std.TransOrd ρ] [Std.LawfulEqOrd ρ] in
/-- Walks from the nodes of a list in turn. -/
theorem foldlM_walked {visit : κ → OrdSet rank × α → Option (OrdSet rank × α)}
    (hvisit : ∀ k seen seen' out out', visit k (seen, out) = some (seen', out') →
      Walked next gather [k] seen seen' out out')
    {ks : List κ} {seen seen' : OrdSet rank} {out out' : α}
    (h : ks.foldlM (fun state b => visit b state) (seen, out) = some (seen', out')) :
    Walked next gather ks seen seen' out out' := by
  induction ks generalizing seen out with
  | nil =>
    obtain ⟨rfl, rfl⟩ := Prod.mk.inj (Option.some.inj h)
    exact Walked.nil seen out
  | cons k ks ih =>
    rw [List.foldlM_cons] at h
    obtain ⟨⟨mid, between⟩, hfirst, hrest⟩ := Option.bind_eq_some_iff.mp h
    exact (hvisit k seen mid out between hfirst).append (ih hrest)

/-- A walk marks what a search without a goal marks. -/
theorem collect_marks (depth : ℕ) (k : κ) (seen : OrdSet rank) (out : α) :
    (collect next gather depth k (seen, out)).map Prod.fst =
      (search next (fun _ => false) depth k seen).map Prod.snd := by
  induction depth generalizing k seen out with
  | zero => rfl
  | succ depth ih =>
    unfold collect search
    split
    · rfl
    · cases next k with
      | none => rfl
      | some ks =>
        simp only [Bool.false_eq_true, if_false]
        generalize OrdSet.insert seen k = seen, gather k out = out
        -- The search goes on at every node, since none is a goal.
        induction ks generalizing seen out with
        | nil => rfl
        | cons b ks ihks =>
          have hb := ih b seen out
          rw [List.foldlM_cons, firstOf]
          cases hfound : search next (fun _ => false) depth b seen with
          | none =>
            rw [hfound] at hb
            rw [Option.map_eq_none_iff.mp hb]
            rfl
          | some found =>
            obtain ⟨answer, mid⟩ := found
            cases answer with
            | true =>
              obtain ⟨r, -, -, hgoal⟩ := search_finds hfound
              cases hgoal
            | false =>
              rw [hfound] at hb
              obtain ⟨⟨mid', between⟩, hcollect, rfl⟩ := Option.map_eq_some_iff.mp hb
              rw [hcollect]
              exact ihks mid' between

variable [LawfulBEq κ] [Ranked rank]

/-- A node that is entered is walked from and then its successors are. -/
theorem Walked.enter {k : κ} {ks : List κ} {seen seen' : OrdSet rank} {out out' : α}
    (hnew : seen.contains k = false) (hnext : next k = some ks)
    (h : Walked next gather ks (OrdSet.insert seen k) seen' (gather k out) out') :
    Walked next gather [k] seen seen' out out' := by
  obtain ⟨order, hout, horder⟩ := h.gathered
  have hk : seen'.contains k = true := h.mono k (by simp)
  refine ⟨fun b hb => h.mono b (by simp [hb]), fun b hb hfresh => ?_, k :: order, hout, fun b => ?_⟩
  · by_cases hbk : b = k
    · exact ⟨k, List.mem_singleton_self k, hbk ▸ .refl⟩
    · obtain ⟨c, hc, hreach⟩ := h.reached b hb (by simp [hbk, hfresh])
      exact ⟨k, List.mem_singleton_self k, .head ⟨ks, hnext, hc⟩ hreach⟩
  · rw [List.mem_cons, horder]
    by_cases hbk : b = k
    · subst hbk
      simp [hnext, hk, hnew]
    · simp [hbk]

/-- A walk from one node visits nodes it can reach, each once, and gathers at these. -/
theorem collect_walked {depth : ℕ} {k : κ} {seen seen' : OrdSet rank} {out out' : α}
    (h : collect next gather depth k (seen, out) = some (seen', out')) :
    Walked next gather [k] seen seen' out out' := by
  induction depth generalizing k seen seen' out out' with
  | zero => simp [collect] at h
  | succ depth ih =>
    unfold collect at h
    split at h
    · obtain ⟨rfl, rfl⟩ := Prod.mk.inj (Option.some.inj h)
      have hnil : Walked next gather [] seen seen out out := Walked.nil seen out
      exact ⟨hnil.mono, fun b hb hnew => absurd (hb.symm.trans hnew) (by simp), hnil.gathered⟩
    · next hseen =>
      have hnew : seen.contains k = false := by simpa using hseen
      cases hnext : next k with
      | none =>
        rw [hnext] at h
        obtain ⟨rfl, rfl⟩ := Prod.mk.inj (Option.some.inj h)
        refine ⟨fun b hb => by simp [hb], fun b hb hfresh => ?_, [], rfl, fun b => ?_⟩
        · have hbk : b = k := by simpa [hfresh] using hb
          exact ⟨k, List.mem_singleton_self k, hbk ▸ .refl⟩
        · by_cases hbk : b = k
          · simp [hbk, hnext]
          · simp [hbk]
      | some ks =>
        simp only [hnext] at h
        exact Walked.enter hnew hnext (foldlM_walked (fun _ _ _ _ _ => ih) h)

/-- **A walk collects.** Deeper than the number of nodes it comes to an end, and what it has
gathered is what one pass gathers over the nodes that exist and can be reached. -/
theorem collect_eq {keys : List κ} (hkeys : ∀ k, next k ≠ none → k ∈ keys) {depth : ℕ}
    (h : keys.length < depth) (k : κ) (out : α) :
    ∃ (seen : OrdSet rank) (order : List κ),
      collect next gather depth k (OrdSet.empty rank, out) =
        some (seen, gatherAll gather order out) ∧
      ∀ b, b ∈ order ↔ next b ≠ none ∧ Relation.ReflTransGen (Edge next) k b := by
  obtain ⟨found, seen, hsearch, hfinds⟩ : ∃ found seen,
      search next (fun _ => false) depth k (OrdSet.empty rank) = some (found, seen) ∧
        (found = true ↔ Finds next (fun _ => false) k) := search_iff hkeys h k
  have hmarks :
      (collect next gather depth k (OrdSet.empty rank, out)).map Prod.fst = some seen := by
    rw [collect_marks, hsearch]
    rfl
  obtain ⟨⟨seen', out'⟩, hcollect, rfl⟩ := Option.map_eq_some_iff.mp hmarks
  obtain rfl : found = false := by
    cases found with
    | false => rfl
    | true =>
      obtain ⟨r, -, -, hgoal⟩ := hfinds.mp rfl
      cases hgoal
  obtain ⟨hexplored, hk⟩ := search_explored hsearch
  obtain ⟨-, hreached, order, rfl, horder⟩ := collect_walked hcollect
  refine ⟨seen', order, hcollect, fun b => (horder b).trans (and_congr_right fun _ => ?_)⟩
  constructor
  · rintro ⟨hb, hnew⟩
    obtain ⟨k', hk', hreach⟩ := hreached b hb hnew
    rwa [List.mem_singleton.mp hk'] at hreach
  · intro hreach
    exact ⟨hexplored.reaches hk hreach, rfl⟩

end Search
