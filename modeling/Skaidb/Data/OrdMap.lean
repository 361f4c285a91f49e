import Skaidb.Data.Ascending

/-!
# Ordered maps

A map whose entries stand in ascending order of their keys' rank. Every
operation is described by what is looked up afterwards, and the entries are the pairs
that are looked up.
-/

/-- Keys of equal rank are equal, so that a map by rank is a map by key. -/
class Ranked {κ ρ : Type} (rank : κ → ρ) : Prop where
  /-- The rank determines the key. -/
  injective : Function.Injective rank

/-- A map from keys in the order of their rank. -/
structure OrdMap {κ ρ : Type} [Ord ρ] (rank : κ → ρ) (α : Type) where
  /-- The entries in ascending order. -/
  entries : List (κ × α)
  /-- The keys ascend strictly. -/
  sorted : Ascending.Sorted rank entries

namespace OrdMap

variable {κ ρ α : Type} [Ord ρ] {rank : κ → ρ} [BEq κ]

/-- The value that the map has under a key, if it has one. -/
def get? (m : OrdMap rank α) (key : κ) : Option α := m.entries.lookup key

/-- The map that `f` leaves: each entry gets a new value or goes. -/
def alter (m : OrdMap rank α) (f : κ → α → Option α) : OrdMap rank α where
  entries := m.entries.filterMap fun e => (f e.1 e.2).map (e.1, ·)
  sorted := by
    refine List.Pairwise.filterMap _ ?_ m.sorted
    intro a b hab a' ha b' hb
    obtain ⟨_, -, rfl⟩ := Option.map_eq_some_iff.mp ha
    obtain ⟨_, -, rfl⟩ := Option.map_eq_some_iff.mp hb
    exact hab

/-- Change the value of one key, if it is there. -/
def modify (m : OrdMap rank α) (key : κ) (f : α → α) : OrdMap rank α :=
  m.alter fun k v => some (if k == key then f v else v)

/-- Remove a key with its value; without the key the map stays as it is. -/
def erase (m : OrdMap rank α) (key : κ) : OrdMap rank α :=
  m.alter fun k v => if k == key then none else some v

omit [BEq κ] in
/-- No key stands in the map twice, since the keys ascend. -/
theorem nodup_keys [Std.ReflOrd ρ] (m : OrdMap rank α) : (m.entries.map Prod.fst).Nodup := by
  refine List.pairwise_map.mpr (m.sorted.imp fun {a b} hlt heq => ?_)
  rw [heq, Std.ReflOrd.compare_self] at hlt
  cases hlt

omit [BEq κ] in
/-- Maps with the same entries are the same. -/
theorem ext_entries {m m' : OrdMap rank α} (h : m.entries = m'.entries) : m = m' := by
  cases m
  cases m'
  congr

section Lookup

variable [Std.LawfulEqOrd ρ] [LawfulBEq κ]

/-- The entries of a map are exactly the pairs that looking up finds. -/
theorem mem_entries {m : OrdMap rank α} {key : κ} {value : α} :
    (key, value) ∈ m.entries ↔ m.get? key = some value :=
  ⟨m.sorted.lookup_of_mem rank, Ascending.mem_of_lookup⟩

/-- What is looked up after a change of all entries. -/
@[simp] theorem get?_alter (m : OrdMap rank α) (f : κ → α → Option α) (key : κ) :
    (m.alter f).get? key = (m.get? key).bind (f key) := by
  refine Option.ext fun value => ?_
  rw [← mem_entries, Option.bind_eq_some_iff]
  simp only [alter, List.mem_filterMap, Option.map_eq_some_iff, Prod.mk.injEq, Prod.exists,
    mem_entries]
  constructor
  · rintro ⟨k, v, hv, w, hw, rfl, rfl⟩
    exact ⟨v, hv, hw⟩
  · rintro ⟨v, hv, hw⟩
    exact ⟨key, v, hv, value, hw, rfl, rfl⟩

/-- A key that is not there is not changed. -/
theorem modify_of_none {m : OrdMap rank α} {key : κ} (h : m.get? key = none) (f : α → α) :
    m.modify key f = m := by
  apply ext_entries
  refine (List.filterMap_congr fun e he => ?_).trans List.filterMap_some
  have hne : e.1 ≠ key := by
    rintro rfl
    rw [mem_entries.mp (show (e.1, e.2) ∈ m.entries from he)] at h
    cases h
  simp [hne]

/-- Changes that agree on the value of the key are the same. -/
theorem modify_congr {m : OrdMap rank α} {key : κ} {a : α} (h : m.get? key = some a)
    {f g : α → α} (hfg : f a = g a) : m.modify key f = m.modify key g := by
  apply ext_entries
  refine List.filterMap_congr fun e he => ?_
  by_cases hkey : e.1 = key
  · have hvalue : m.get? e.1 = some e.2 := mem_entries.mp (show (e.1, e.2) ∈ m.entries from he)
    rw [hkey, h] at hvalue
    obtain rfl := Option.some.inj hvalue
    simp [hkey, hfg]
  · simp [hkey]

/-- What is looked up after a change of one key. -/
@[simp] theorem get?_modify (m : OrdMap rank α) (key : κ) (f : α → α) (k : κ) :
    (m.modify key f).get? k = if k == key then (m.get? k).map f else m.get? k := by
  rw [modify, get?_alter]
  split <;> cases m.get? k <;> simp

/-- After a removal, its key has no value and every other key what it had. -/
@[simp] theorem get?_erase (m : OrdMap rank α) (key k : κ) :
    (m.erase key).get? k = if k == key then none else m.get? k := by
  rw [erase, get?_alter]
  split <;> cases m.get? k <;> simp

end Lookup

/-! ## Maps related key by key -/

/-- The maps have the same keys, and the values of each key are related. -/
def Relates (R : α → α → Prop) (m m' : OrdMap rank α) : Prop :=
  ∀ k, Option.Rel R (m.get? k) (m'.get? k)

section Relates

variable {R S : α → α → Prop} {m m' m'' : OrdMap rank α}

/-- A map whose values stay as they are relates to itself under a reflexive relation. -/
theorem Relates.refl (hrefl : ∀ a, R a a) (m : OrdMap rank α) : Relates R m m := by
  intro k
  cases m.get? k with
  | none => exact Option.Rel.none
  | some a => exact Option.Rel.some (hrefl a)

/-- Maps that relate under a transitive relation do so after two changes. -/
theorem Relates.trans (htrans : ∀ a b c, R a b → R b c → R a c) (h : Relates R m m')
    (h' : Relates R m' m'') : Relates R m m'' := by
  intro k
  have hk := h k
  have hk' := h' k
  generalize m.get? k = x, m'.get? k = y, m''.get? k = z at hk hk'
  cases hk with
  | none => exact hk'
  | some ha =>
    cases hk' with
    | some hb => exact Option.Rel.some (htrans _ _ _ ha hb)

/-- Maps that relate do so under every relation that is weaker. -/
theorem Relates.mono (hRS : ∀ a b, R a b → S a b) (h : Relates R m m') : Relates S m m' := by
  intro k
  have hk := h k
  generalize m.get? k = x, m'.get? k = y at hk
  cases hk with
  | none => exact Option.Rel.none
  | some ha => exact Option.Rel.some (hRS _ _ ha)

/-- The value that a key has after a change is related to the one before, and the key is still
there. -/
theorem Relates.value {k : κ} {a : α} (h : Relates R m m') (hk : m.get? k = some a) :
    ∃ a', m'.get? k = some a' ∧ R a a' := by
  have hrel := h k
  rw [hk] at hrel
  generalize m'.get? k = y at hrel ⊢
  cases hrel with
  | some ha => exact ⟨_, rfl, ha⟩

/-- The value that a key had before a change is related to the one after, and the key was already
there. -/
theorem Relates.origin {k : κ} {a' : α} (h : Relates R m m') (hk : m'.get? k = some a') :
    ∃ a, m.get? k = some a ∧ R a a' := by
  have hrel := h k
  rw [hk] at hrel
  generalize m.get? k = x at hrel ⊢
  cases hrel with
  | some ha => exact ⟨_, rfl, ha⟩

variable [Std.LawfulEqOrd ρ] [LawfulBEq κ]

/-- Changing every value by a function relates the map to itself when the function relates each
value to its image. -/
theorem relates_alter {f : α → α} (hf : ∀ a, R a (f a)) (m : OrdMap rank α) :
    Relates R m (m.alter fun _ a => some (f a)) := by
  intro k
  rw [get?_alter]
  cases m.get? k with
  | none => exact Option.Rel.none
  | some a => exact Option.Rel.some (hf a)

/-- A change of the value that one key has. -/
theorem relates_modify_of {key : κ} {f : α → α} (hrefl : ∀ a, R a a)
    (hf : ∀ a, m.get? key = some a → R a (f a)) : Relates R m (m.modify key f) := by
  intro k
  rw [get?_modify]
  split
  · next hk =>
    obtain rfl := eq_of_beq hk
    cases hvalue : m.get? k with
    | none => exact Option.Rel.none
    | some a => exact Option.Rel.some (hf a hvalue)
  · exact Relates.refl hrefl m k

/-- Changing one value by a function relates the map to itself when the function relates each value
to its image. -/
theorem relates_modify {key : κ} {f : α → α} (hrefl : ∀ a, R a a) (hf : ∀ a, R a (f a))
    (m : OrdMap rank α) : Relates R m (m.modify key f) :=
  relates_modify_of hrefl fun a _ => hf a

end Relates

section Insert

variable [Std.TransOrd ρ] [Std.LawfulEqOrd ρ]

/-- Set the value of a key, in place of the one it may have had. -/
def insert (m : OrdMap rank α) (key : κ) (value : α) : OrdMap rank α where
  entries := Ascending.insert rank key value m.entries
  sorted := m.sorted.insert rank

/-- The map of a sequence of entries; a later entry replaces an earlier one. -/
def ofList (rank : κ → ρ) (entries : List (κ × α)) : OrdMap rank α where
  entries := Ascending.ofList rank entries
  sorted := Ascending.sorted_ofList rank entries

variable [LawfulBEq κ]

/-- After an insertion, its key has the new value and every other key what it had. -/
@[simp] theorem get?_insert [Ranked rank] (m : OrdMap rank α) (key : κ) (value : α) (k : κ) :
    (m.insert key value).get? k = if k == key then some value else m.get? k :=
  Ascending.lookup_insert rank Ranked.injective k key value m.entries

/-- A map made of entries has a value at exactly the keys of these. -/
theorem get?_ofList_ne_none [Ranked rank] {entries : List (κ × α)} {key : κ} :
    (ofList rank entries).get? key ≠ none ↔ key ∈ entries.map Prod.fst := by
  rw [← Ascending.mem_keys_ofList rank Ranked.injective, ← Option.isSome_iff_ne_none,
    Option.isSome_iff_exists]
  constructor
  · rintro ⟨value, hvalue⟩
    exact List.mem_map_of_mem (mem_entries.mpr hvalue)
  · intro hkey
    obtain ⟨e, he, rfl⟩ := List.mem_map.mp hkey
    exact ⟨e.2, mem_entries.mp he⟩

/-- A value of a map of a sequence is one of the sequence. -/
theorem mem_of_get?_ofList {entries : List (κ × α)} {key : κ} {value : α}
    (h : (ofList rank entries).get? key = some value) : (key, value) ∈ entries :=
  Ascending.mem_ofList rank (Ascending.mem_of_lookup h)

end Insert

end OrdMap
