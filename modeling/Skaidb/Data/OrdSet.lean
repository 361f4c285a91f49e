import Skaidb.Data.OrdMap

/-!
# Ordered sets

A set whose elements stand in ascending order of their rank: an ordered map to nothing.
-/

/-- A set of keys in the order of their rank. -/
abbrev OrdSet {κ ρ : Type} [Ord ρ] (rank : κ → ρ) := OrdMap rank Unit

namespace OrdSet

variable {κ ρ : Type} [Ord ρ] {rank : κ → ρ}

/-- The elements of the set, in the order of their ranks. -/
def toList (s : OrdSet rank) : List κ := s.entries.map Prod.fst

variable [BEq κ]

/-- The element is in the set, which is a map that has a value at it. -/
def contains (s : OrdSet rank) (key : κ) : Bool := (s.get? key).isSome

section Lawful

variable [Std.LawfulEqOrd ρ] [LawfulBEq κ]

/-- The elements are those that the set contains. -/
theorem mem_toList {s : OrdSet rank} {key : κ} : key ∈ s.toList ↔ s.contains key = true := by
  unfold toList contains
  rw [Option.isSome_iff_exists]
  constructor
  · intro h
    obtain ⟨e, he, rfl⟩ := List.mem_map.mp h
    exact ⟨e.2, OrdMap.mem_entries.mp he⟩
  · rintro ⟨u, hu⟩
    exact List.mem_map_of_mem (OrdMap.mem_entries.mpr hu)

omit [Std.LawfulEqOrd ρ] in
/-- Two sets that have the same elements are equal. -/
theorem ext_contains [Std.TransOrd ρ] {s s' : OrdSet rank}
    (h : ∀ key, s.contains key = s'.contains key) : s = s' := by
  refine OrdMap.ext_entries (s.sorted.ext_lookup rank s'.sorted fun key => ?_)
  have hkey := h key
  unfold contains OrdMap.get? at hkey
  cases hs : s.entries.lookup key with
  | none =>
    rw [hs] at hkey
    exact (Option.isSome_eq_false_iff.mp hkey.symm |> Option.isNone_iff_eq_none.mp).symm
  | some u =>
    rw [hs] at hkey
    obtain ⟨u', hu'⟩ := Option.isSome_iff_exists.mp hkey.symm
    exact hu'.symm

/-- A key is in the set after a removal exactly when it was there and is not the removed one. -/
@[simp] theorem contains_erase (s : OrdSet rank) (key k : κ) :
    contains (OrdMap.erase s key) k = (contains s k && !(k == key)) := by
  unfold contains
  rw [OrdMap.get?_erase]
  split <;> simp_all

end Lawful

section Insert

variable [Std.TransOrd ρ] [Std.LawfulEqOrd ρ]

/-- The set that has no elements, from which others are built. -/
def empty (rank : κ → ρ) : OrdSet rank := OrdMap.ofList rank []

/-- The set with one more element, which is the same set when it was there. -/
def insert (s : OrdSet rank) (key : κ) : OrdSet rank := OrdMap.insert s key ()

variable [LawfulBEq κ]

/-- A key is in the set after an insertion exactly when it was there or is the inserted one. -/
@[simp] theorem contains_insert [Ranked rank] (s : OrdSet rank) (key k : κ) :
    contains (insert s key) k = (k == key || contains s k) := by
  unfold contains insert
  rw [OrdMap.get?_insert]
  split <;> simp_all

end Insert

end OrdSet
