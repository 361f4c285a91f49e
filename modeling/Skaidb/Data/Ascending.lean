import Mathlib.Algebra.BigOperators.Group.List.Basic
import Mathlib.Algebra.GroupWithZero.Nat
import Mathlib.Data.List.Basic
import Mathlib.Data.List.Induction
import Mathlib.Data.List.Sort
import Mathlib.Tactic.Common

/-!
# Association lists in ascending key order

The list of entries of an ordered map: keys ascend strictly in the order of
their rank. Insertion puts an entry at its place and replaces the value of a key
that is present. The rank is a parameter, so that keys may be ordered by
something other than their own order.
-/

namespace Ascending

variable {κ ρ α : Type} [Ord ρ] (rank : κ → ρ)

/-- The keys of the entries ascend strictly in rank, so that no key occurs twice. -/
def Sorted (entries : List (κ × α)) : Prop :=
  entries.Pairwise fun a b => compare (rank a.1) (rank b.1) = .lt

instance (entries : List (κ × α)) : Decidable (Sorted rank entries) :=
  inferInstanceAs (Decidable (entries.Pairwise _))

/-- Insert an entry at its place; an equal key has its value replaced. -/
def insert (key : κ) (value : α) : List (κ × α) → List (κ × α)
  | [] => [(key, value)]
  | (k, v) :: entries =>
    match compare (rank key) (rank k) with
    | .lt => (key, value) :: (k, v) :: entries
    | .eq => (key, value) :: entries
    | .gt => (k, v) :: insert key value entries

/-- Insert a sequence of entries into an empty map. -/
def ofList (entries : List (κ × α)) : List (κ × α) :=
  entries.foldl (fun acc entry => insert rank entry.1 entry.2 acc) []

/-- An entry after an insertion is the new one or was there before. -/
theorem mem_insert {key : κ} {value : α} {entries : List (κ × α)} {e : κ × α}
    (he : e ∈ insert rank key value entries) : e = (key, value) ∨ e ∈ entries := by
  induction entries with
  | nil => exact Or.inl (List.mem_singleton.mp he)
  | cons entry entries ih =>
    obtain ⟨k, v⟩ := entry
    unfold insert at he
    split at he
    · exact List.mem_cons.mp he
    · rcases List.mem_cons.mp he with h | h
      · exact Or.inl h
      · exact Or.inr (List.mem_cons_of_mem _ h)
    · rcases List.mem_cons.mp he with rfl | h
      · exact Or.inr List.mem_cons_self
      · exact (ih h).imp_right (List.mem_cons_of_mem _)

/-- Insertion keeps the keys ascending, whether it replaces a value or adds a key. -/
theorem Sorted.insert [Std.TransOrd ρ] [Std.LawfulEqOrd ρ] {key : κ} {value : α}
    {entries : List (κ × α)} (h : Sorted rank entries) :
    Sorted rank (insert rank key value entries) := by
  induction entries with
  | nil => exact List.pairwise_singleton _ _
  | cons entry entries ih =>
    obtain ⟨k, v⟩ := entry
    obtain ⟨hhead, htail⟩ := List.pairwise_cons.mp h
    unfold Ascending.insert
    split
    · next hlt =>
      refine List.pairwise_cons.mpr ⟨fun e he => ?_, h⟩
      rcases List.mem_cons.mp he with rfl | he
      · exact hlt
      · exact Std.TransCmp.lt_trans hlt (hhead e he)
    · next heq =>
      refine List.pairwise_cons.mpr ⟨fun e he => ?_, htail⟩
      have hrank : rank key = rank k := Std.LawfulEqOrd.eq_of_compare heq
      simpa only [hrank] using hhead e he
    · next hgt =>
      refine List.pairwise_cons.mpr ⟨fun e he => ?_, ih htail⟩
      rcases mem_insert rank he with rfl | he
      · exact Std.OrientedCmp.lt_of_gt hgt
      · exact hhead e he

/-- Insertion adds at most the size of the new entry. -/
theorem sum_insert_le (size : κ × α → ℕ) (key : κ) (value : α) (entries : List (κ × α)) :
    ((insert rank key value entries).map size).sum ≤
      size (key, value) + (entries.map size).sum := by
  induction entries with
  | nil => simp [insert]
  | cons entry entries ih =>
    obtain ⟨k, v⟩ := entry
    unfold insert
    split <;> simp only [List.map_cons, List.sum_cons] <;> omega

/-- A key above all others is inserted at the end. -/
theorem insert_eq_append [Std.TransOrd ρ] {key : κ} {value : α} {entries : List (κ × α)}
    (h : ∀ e ∈ entries, compare (rank e.1) (rank key) = .lt) :
    insert rank key value entries = entries ++ [(key, value)] := by
  induction entries with
  | nil => rfl
  | cons entry entries ih =>
    obtain ⟨k, v⟩ := entry
    have hgt : compare (rank key) (rank k) = .gt :=
      Std.OrientedCmp.gt_of_lt (h (k, v) List.mem_cons_self)
    rw [insert, hgt, ih fun e he => h e (List.mem_cons_of_mem _ he)]
    rfl

/-- Every entry of an accumulated map was accumulated or there before. -/
theorem mem_foldl_insert {entries start : List (κ × α)} {e : κ × α}
    (he : e ∈ entries.foldl (fun acc entry => insert rank entry.1 entry.2 acc) start) :
    e ∈ entries ∨ e ∈ start := by
  induction entries generalizing start with
  | nil => exact Or.inr he
  | cons entry entries ih =>
    rcases ih he with h | h
    · exact Or.inl (List.mem_cons_of_mem _ h)
    · rcases mem_insert rank h with rfl | h
      · exact Or.inl List.mem_cons_self
      · exact Or.inr h

/-- Every entry of the map is one of the inserted entries. -/
theorem mem_ofList {entries : List (κ × α)} {e : κ × α} (he : e ∈ ofList rank entries) :
    e ∈ entries := by
  rcases mem_foldl_insert rank he with h | h
  · exact h
  · cases h

/-- The map of any sequence of entries has ascending keys. -/
theorem sorted_ofList [Std.TransOrd ρ] [Std.LawfulEqOrd ρ] (entries : List (κ × α)) :
    Sorted rank (ofList rank entries) := by
  have hfold : ∀ start : List (κ × α), Sorted rank start →
      Sorted rank (entries.foldl (fun acc entry => insert rank entry.1 entry.2 acc) start) := by
    induction entries with
    | nil => exact fun _ h => h
    | cons entry entries ih => exact fun start h => ih _ (Sorted.insert rank h)
  exact hfold [] List.Pairwise.nil

/-- The map of a sequence is no larger than the sequence. -/
theorem sum_ofList_le (size : κ × α → ℕ) (entries : List (κ × α)) :
    ((ofList rank entries).map size).sum ≤ (entries.map size).sum := by
  have hfold : ∀ start : List (κ × α),
      ((entries.foldl (fun acc entry => insert rank entry.1 entry.2 acc) start).map size).sum ≤
        (entries.map size).sum + (start.map size).sum := by
    induction entries with
    | nil => simp
    | cons entry entries ih =>
      intro start
      have hstep := ih (insert rank entry.1 entry.2 start)
      have hinsert : ((insert rank entry.1 entry.2 start).map size).sum ≤
          size entry + (start.map size).sum := sum_insert_le rank size entry.1 entry.2 start
      simp only [List.foldl_cons, List.map_cons, List.sum_cons]
      omega
  simpa [ofList] using hfold []

/-- The map of a sequence has no more entries than the sequence. -/
theorem length_ofList_le (entries : List (κ × α)) :
    (ofList rank entries).length ≤ entries.length := by
  simpa using sum_ofList_le rank (fun _ => 1) entries

/-- Inserting the entries of a map in order rebuilds it. -/
theorem ofList_eq_self [Std.TransOrd ρ] {entries : List (κ × α)} (h : Sorted rank entries) :
    ofList rank entries = entries := by
  have hfold : ∀ start : List (κ × α), Sorted rank (start ++ entries) →
      entries.foldl (fun acc entry => insert rank entry.1 entry.2 acc) start =
        start ++ entries := by
    induction entries with
    | nil => simp
    | cons entry entries ih =>
      intro start hstart
      have habove : ∀ e ∈ start, compare (rank e.1) (rank entry.1) = .lt := fun e he =>
        (List.pairwise_append.mp hstart).2.2 e he entry List.mem_cons_self
      rw [List.foldl_cons, insert_eq_append rank habove]
      have hshift : start ++ entry :: entries = start ++ [entry] ++ entries := by simp
      rw [hshift] at hstart ⊢
      exact ih (List.pairwise_cons.mp h).2 _ hstart
  exact hfold [] h

/-! ## Looking keys up -/

/-- A map made of entries with one more at the end is the map made of them, and that one
inserted. -/
theorem ofList_append_singleton (entries : List (κ × α)) (e : κ × α) :
    ofList rank (entries ++ [e]) = insert rank e.1 e.2 (ofList rank entries) := by
  simp [ofList]

section Lookup

variable [BEq κ] [LawfulBEq κ]

/-- A key that is looked up is the key of an entry. -/
theorem mem_of_lookup {key : κ} {value : α} {entries : List (κ × α)}
    (h : entries.lookup key = some value) : (key, value) ∈ entries := by
  induction entries with
  | nil => cases h
  | cons entry entries ih =>
    obtain ⟨k, v⟩ := entry
    rw [List.lookup_cons] at h
    split at h
    · next hkey =>
      obtain rfl := eq_of_beq hkey
      obtain rfl := Option.some.inj h
      exact List.mem_cons_self
    · exact List.mem_cons_of_mem _ (ih h)

/-- The key of an entry of a map is looked up. -/
theorem Sorted.lookup_of_mem [Std.ReflOrd ρ] {key : κ} {value : α} {entries : List (κ × α)}
    (h : Sorted rank entries) (hmem : (key, value) ∈ entries) :
    entries.lookup key = some value := by
  induction entries with
  | nil => cases hmem
  | cons entry entries ih =>
    obtain ⟨k, v⟩ := entry
    obtain ⟨hhead, htail⟩ := List.pairwise_cons.mp h
    rw [List.lookup_cons]
    rcases List.mem_cons.mp hmem with heq | hin
    · obtain ⟨rfl, rfl⟩ := Prod.mk.inj heq
      simp
    · have hne : (key == k) = false := by
        refine beq_eq_false_iff_ne.mpr ?_
        rintro rfl
        have hlt := hhead _ hin
        simp only [Std.ReflCmp.compare_self] at hlt
        cases hlt
      rw [hne]
      exact ih htail hin

/-- Maps that agree on every key are equal. -/
theorem Sorted.ext_lookup [Std.TransOrd ρ] {entries entries' : List (κ × α)}
    (h : Sorted rank entries) (h' : Sorted rank entries')
    (hlookup : ∀ key, entries.lookup key = entries'.lookup key) : entries = entries' := by
  have hmem : ∀ e, e ∈ entries ↔ e ∈ entries' := by
    rintro ⟨key, value⟩
    constructor
    · intro he
      refine mem_of_lookup ?_
      rw [← hlookup]
      exact h.lookup_of_mem rank he
    · intro he
      refine mem_of_lookup ?_
      rw [hlookup]
      exact h'.lookup_of_mem rank he
  have hirrefl (a : κ × α) : ¬ compare (rank a.1) (rank a.1) = .lt := by
    simp [Std.ReflCmp.compare_self]
  have : Std.Irrefl fun a b : κ × α => compare (rank a.1) (rank b.1) = .lt := ⟨hirrefl⟩
  have : Std.Antisymm fun a b : κ × α => compare (rank a.1) (rank b.1) = .lt :=
    ⟨fun a b hab hba => absurd (Std.TransCmp.lt_trans hab hba) (hirrefl a)⟩
  exact h.eq_of_mem_iff h' hmem

/-- After an insertion, its key has the new value and every other key what it had. -/
theorem lookup_insert [Std.LawfulEqOrd ρ] (hrank : Function.Injective rank) (k key : κ)
    (value : α) (entries : List (κ × α)) :
    (insert rank key value entries).lookup k =
      if k == key then some value else entries.lookup k := by
  induction entries with
  | nil => simp only [insert, List.lookup_cons, List.lookup_nil]; split <;> simp_all
  | cons entry entries ih =>
    obtain ⟨k', v⟩ := entry
    unfold insert
    split
    · rw [List.lookup_cons]
      split <;> simp_all
    · next heq =>
      obtain rfl := hrank (Std.LawfulEqOrd.eq_of_compare heq)
      rw [List.lookup_cons, List.lookup_cons]
      split <;> simp_all
    · next hgt =>
      rw [List.lookup_cons, List.lookup_cons, ih]
      by_cases hk : k == k'
      · obtain rfl := eq_of_beq hk
        have hne : (k == key) = false := by
          refine beq_eq_false_iff_ne.mpr ?_
          rintro rfl
          rw [Std.LawfulEqOrd.compare_eq_iff_eq.mpr rfl] at hgt
          cases hgt
        simp [hne]
      · simp [hk]

/-- The keys of an accumulated map are the keys that were inserted. -/
theorem mem_keys_ofList [Std.LawfulEqOrd ρ] (hrank : Function.Injective rank) {key : κ}
    {entries : List (κ × α)} :
    key ∈ (ofList rank entries).map Prod.fst ↔ key ∈ entries.map Prod.fst := by
  constructor
  · intro h
    obtain ⟨e, he, rfl⟩ := List.mem_map.mp h
    exact List.mem_map_of_mem (mem_ofList rank he)
  · intro h
    have hlookup : ∃ value, (ofList rank entries).lookup key = some value := by
      induction entries using List.reverseRecOn with
      | nil => cases h
      | append_singleton entries e ih =>
        rw [ofList_append_singleton, lookup_insert rank hrank]
        by_cases hkey : key = e.1
        · exact ⟨e.2, by simp [hkey]⟩
        · rw [beq_eq_false_iff_ne.mpr hkey]
          refine ih ?_
          rw [List.map_append, List.mem_append] at h
          exact h.resolve_right (by simpa using hkey)
    obtain ⟨value, hvalue⟩ := hlookup
    exact List.mem_map_of_mem (mem_of_lookup hvalue)

end Lookup

end Ascending
