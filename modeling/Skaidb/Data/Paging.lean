import Mathlib.Data.List.Basic
import Mathlib.Tactic.Common

/-!
# Reading a log by pages

The keys of a log ascend, and entries are added at its end. A reader keeps the key of the last
entry it was given and asks for a number of entries above it. As long as it has been given a
prefix of the log, the next page continues that prefix, and is empty exactly when the prefix
is the whole log.
-/

namespace Paging

variable {α κ : Type} (key : α → κ) (lt : κ → κ → Prop)

/-- The keys of the entries ascend strictly, as a log that is appended to has them. -/
def Ascends (log : List α) : Prop := log.Pairwise fun a b => lt (key a) (key b)

/-- The position behind the entries a reader was given. -/
def position (given : List α) : Option κ := given.getLast?.map key

/-- The entry is above a position; every entry is above the start. -/
def Above : Option κ → α → Prop
  | none, _ => True
  | some c, a => lt c (key a)

instance [DecidableRel lt] (p : Option κ) (a : α) : Decidable (Above key lt p a) :=
  match p with
  | none => .isTrue trivial
  | some c => inferInstanceAs (Decidable (lt c (key a)))

/-- The first entries of a log above a position. -/
def page [DecidableRel lt] (p : Option κ) (limit : ℕ) (log : List α) : List α :=
  (log.filter fun a => Above key lt p a).take limit

/-- More entries move the position to the last of them. -/
theorem position_append (given batch : List α) :
    position key (given ++ batch) = (position key batch).or (position key given) := by
  unfold position
  rw [List.getLast?_append]
  cases batch.getLast? <;> rfl

section Page

variable {key lt} [DecidableRel lt] (hirrefl : ∀ c, ¬ lt c c)
  (htrans : ∀ {a b c}, lt a b → lt b c → lt a c)
include hirrefl htrans

/-- Above the last of the entries given are exactly the entries behind them. -/
theorem filter_above_position {given rest : List α} (h : Ascends key lt (given ++ rest)) :
    ((given ++ rest).filter fun a => Above key lt (position key given) a) = rest := by
  rcases List.eq_nil_or_concat' given with rfl | ⟨front, last, rfl⟩
  · exact List.filter_eq_self.mpr fun a _ => decide_eq_true trivial
  · have hposition : position key (front ++ [last]) = some (key last) := by
      simp [position]
    obtain ⟨hgiven, -, hacross⟩ := List.pairwise_append.mp h
    obtain ⟨-, -, hfront⟩ := List.pairwise_append.mp hgiven
    have hbelow : ∀ a ∈ front ++ [last], ¬ lt (key last) (key a) := by
      intro a ha hlt
      rcases List.mem_append.mp ha with ha | ha
      · exact hirrefl _ (htrans hlt (hfront a ha last (List.mem_singleton_self last)))
      · rw [List.mem_singleton.mp ha] at hlt
        exact hirrefl _ hlt
    have habove : ∀ a ∈ rest, lt (key last) (key a) := fun a ha =>
      hacross last (List.mem_append_right front (List.mem_singleton_self last)) a ha
    rw [List.filter_append, hposition]
    have hnone : (front ++ [last]).filter (fun a => Above key lt (some (key last)) a) = [] :=
      List.filter_eq_nil_iff.mpr fun a ha habs => hbelow a ha (of_decide_eq_true habs)
    have hall : rest.filter (fun a => Above key lt (some (key last)) a) = rest :=
      List.filter_eq_self.mpr fun a ha => decide_eq_true (habove a ha)
    rw [hnone, hall, List.nil_append]

variable {given log : List α} (h : given <+: log) (hlog : Ascends key lt log)
include h hlog

/-- The next page continues the entries given so far to a longer prefix of the log. -/
theorem append_page_prefix (limit : ℕ) :
    given ++ page key lt (position key given) limit log <+: log := by
  obtain ⟨rest, rfl⟩ := h
  rw [page, filter_above_position hirrefl htrans hlog, List.prefix_append_right_inj]
  exact List.take_prefix limit rest

/-- The next page is empty exactly when the whole log was given. -/
theorem page_eq_nil_iff {limit : ℕ} (hlimit : 1 ≤ limit) :
    page key lt (position key given) limit log = [] ↔ given = log := by
  obtain ⟨rest, rfl⟩ := h
  have hpos : limit ≠ 0 := by omega
  rw [page, filter_above_position hirrefl htrans hlog, List.take_eq_nil_iff,
    List.self_eq_append_right]
  exact or_iff_right hpos

end Page

end Paging
