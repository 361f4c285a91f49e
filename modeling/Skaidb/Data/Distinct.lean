import Skaidb.Data.OrdMap
import Mathlib.Data.List.Destutter

/-!
# Sorted lists without repetitions

A list that is sorted by the rank of its elements and then freed of equal neighbours holds
each of its elements once, in ascending order. There is only one such list.
-/

namespace Distinct

variable {κ ρ : Type} [Ord ρ] (rank : κ → ρ)

/-- The first does not come after the second. -/
def NotAfter (a b : κ) : Prop := (compare (rank a) (rank b)).isLE = true

instance decidableNotAfter : DecidableRel (NotAfter rank) :=
  fun a b => inferInstanceAs (Decidable ((compare (rank a) (rank b)).isLE = true))

/-- Sort a list by the rank of its elements; elements of one rank keep their order. -/
def sort (l : List κ) : List κ := l.insertionSort (NotAfter rank)

variable [DecidableEq κ]

/-- Drop every element that equals the one before it, as `Vec::dedup` does. -/
def dedup (l : List κ) : List κ := l.destutter (· ≠ ·)

variable [Std.TransOrd ρ]

instance transNotAfter : IsTrans κ (NotAfter rank) := ⟨fun _ _ _ => Std.TransCmp.isLE_trans⟩

instance totalNotAfter : Std.Total (NotAfter rank) where
  total a b := by
    unfold NotAfter
    rw [Std.OrientedOrd.eq_swap]
    cases compare (rank b) (rank a) <;> simp

variable [Std.LawfulEqOrd ρ] [Ranked rank]

instance antisymmNotAfter : Std.Antisymm (NotAfter rank) where
  antisymm a b hab hba := by
    unfold NotAfter at hab hba
    rw [Std.OrientedOrd.eq_swap] at hba
    have heq : compare (rank a) (rank b) = .eq := by
      cases hcmp : compare (rank a) (rank b) <;> simp_all
    exact Ranked.injective (Std.LawfulEqCmp.eq_of_compare heq)

/-- In a sorted list all repetitions are neighbours, so removing neighbours that repeat removes
every repetition. -/
theorem dedup_sort (l : List κ) : dedup (sort rank l) = (sort rank l).dedup :=
  (List.pairwise_insertionSort (NotAfter rank) l).destutter_eq_dedup

/-- Sorting a list and dropping repetitions leaves the same elements. -/
theorem mem_dedup_sort {l : List κ} {a : κ} : a ∈ dedup (sort rank l) ↔ a ∈ l := by
  rw [dedup_sort, List.mem_dedup]
  exact List.mem_insertionSort _

/-- What is sorted and freed of repetitions ascends strictly. -/
theorem pairwise_dedup_sort (l : List κ) :
    (dedup (sort rank l)).Pairwise fun a b => compare (rank a) (rank b) = .lt := by
  have hsorted : (dedup (sort rank l)).Pairwise (NotAfter rank) :=
    (List.pairwise_insertionSort (NotAfter rank) l).sublist (List.destutter_sublist _ _)
  have hnodup : (dedup (sort rank l)).Nodup := by
    rw [dedup_sort]
    exact List.nodup_dedup _
  refine (hsorted.and hnodup).imp fun {a b} hab => ?_
  obtain ⟨hle, hne⟩ := hab
  unfold NotAfter at hle
  cases hcmp : compare (rank a) (rank b) with
  | lt => rfl
  | eq => exact absurd (Ranked.injective (Std.LawfulEqCmp.eq_of_compare hcmp)) hne
  | gt =>
    rw [hcmp] at hle
    cases hle

omit [DecidableEq κ] [Std.LawfulEqOrd ρ] [Ranked rank] in
/-- Ascending lists of the same elements are equal. -/
theorem eq_of_mem_iff {l l' : List κ}
    (h : l.Pairwise fun a b => compare (rank a) (rank b) = .lt)
    (h' : l'.Pairwise fun a b => compare (rank a) (rank b) = .lt) (hmem : ∀ a, a ∈ l ↔ a ∈ l') :
    l = l' := by
  have hirrefl (a : κ) : ¬ compare (rank a) (rank a) = .lt := by simp [Std.ReflCmp.compare_self]
  have : Std.Irrefl fun a b : κ => compare (rank a) (rank b) = .lt := ⟨hirrefl⟩
  have : Std.Antisymm fun a b : κ => compare (rank a) (rank b) = .lt :=
    ⟨fun a b hab hba => absurd (Std.TransCmp.lt_trans hab hba) (hirrefl a)⟩
  exact h.eq_of_mem_iff h' hmem

end Distinct
