import Mathlib.Data.List.Basic
import Mathlib.Tactic.Common

/-!
# Writers that take parts

A writer takes some first part of what it is offered or fails, and its answers to the calls
to come are arbitrary. What it has received is kept as one list. Writing all of a buffer
calls it again until nothing is left; a failure that asks for another call is passed over.
-/

namespace Output

variable {ε α : Type}

/-- The answer of a writer to one call: how many elements it takes at most, or an error. -/
inductive Answer (ε : Type) where
  | accept (n : ℕ)
  | fail (e : ε)

/-- A writer: its answers to the calls to come and what it has received. -/
structure Sink (ε α : Type) where
  /-- The answers to writes, the next one first. -/
  answers : ℕ → Answer ε
  /-- The answers to flushes, the next one first. -/
  flushes : ℕ → Except ε Unit
  /-- What has been received. -/
  wire : List α

namespace Sink

/-- Offer a buffer once; the writer says how much it took. -/
def write (s : Sink ε α) (offered : List α) : Except ε ℕ × Sink ε α :=
  let next := { s with answers := fun i => s.answers (i + 1) }
  match s.answers 0 with
  | .accept n => (.ok (min n offered.length), { next with wire := s.wire ++ offered.take n })
  | .fail e => (.error e, next)

/-- Offer several buffers once, as their concatenation is offered. -/
def writeVectored (s : Sink ε α) (buffers : List (List α)) : Except ε ℕ × Sink ε α :=
  s.write buffers.flatten

/-- Flush the writer once, with the answer it has for the next flush. -/
def flush (s : Sink ε α) : Except ε Unit × Sink ε α :=
  (s.flushes 0, { s with flushes := fun i => s.flushes (i + 1) })

/-- Write all of a buffer in at most `fuel` calls: errors that `retry` accepts are passed
over, and a call that takes nothing fails with `zero`. -/
def writeAll (retry : ε → Bool) (zero : ε) :
    ℕ → Sink ε α → List α → Option (Except ε Unit × Sink ε α)
  | _, s, [] => some (.ok (), s)
  | 0, _, _ :: _ => none
  | fuel + 1, s, a :: rest =>
    match s.write (a :: rest) with
    | (.ok 0, s') => some (.error zero, s')
    | (.ok (n + 1), s') => writeAll retry zero fuel s' (rest.drop n)
    | (.error e, s') =>
      if retry e then writeAll retry zero fuel s' (a :: rest) else some (.error e, s')

/-! ## Writers that come to an end -/

/-- Each call takes a part that is not empty or fails in a way that asks for another call,
which happens in the next `interrupts` calls only; flushes succeed. -/
structure Patient (retry : ε → Bool) (interrupts : ℕ) (s : Sink ε α) : Prop where
  /-- The answers to writes. -/
  writes : ∀ i, (∃ n, s.answers i = .accept (n + 1)) ∨
    ∃ e, s.answers i = .fail e ∧ retry e = true ∧ i < interrupts
  /-- The answers to flushes. -/
  flushes : ∀ i, s.flushes i = .ok ()

/-- Each call takes a part that is not empty, and flushes succeed. -/
structure Accepts (s : Sink ε α) : Prop where
  /-- The answers to writes. -/
  writes : ∀ i, ∃ n, s.answers i = .accept (n + 1)
  /-- The answers to flushes. -/
  flushes : ∀ i, s.flushes i = .ok ()

/-- The elements that the next `calls` calls take, as far as they are offered. -/
def accepted (answers : ℕ → Answer ε) : ℕ → ℕ
  | 0 => 0
  | calls + 1 =>
    (match answers 0 with
      | .accept n => n
      | .fail _ => 0) + accepted (fun i => answers (i + 1)) calls

/-- A call fails before `total` elements are taken. -/
def FailsWithin (s : Sink ε α) (total : ℕ) : Prop :=
  ∃ calls e, s.answers calls = .fail e ∧ accepted s.answers calls < total

variable {retry : ε → Bool} {zero : ε} {s : Sink ε α}

/-- A writer that takes a part of everything is patient with any number of interruptions. -/
theorem Accepts.patient (h : s.Accepts) (retry : ε → Bool) : s.Patient retry 0 :=
  ⟨fun i => .inl (h.writes i), h.flushes⟩

/-- A patient writer that is not interrupted takes parts. -/
theorem Patient.accepts (h : s.Patient retry 0) : s.Accepts := by
  refine ⟨fun i => ?_, h.flushes⟩
  rcases h.writes i with htake | ⟨e, -, -, hlt⟩
  · exact htake
  · exact absurd hlt (Nat.not_lt_zero i)

/-- A writer that is patient is so after one write, with one interruption less ahead at most. -/
theorem Patient.tail {interrupts : ℕ} (h : s.Patient retry interrupts) (wire : List α) :
    Patient retry (interrupts - 1) ⟨fun i => s.answers (i + 1), s.flushes, wire⟩ := by
  refine ⟨fun i => ?_, h.flushes⟩
  rcases h.writes (i + 1) with htake | ⟨e, he, hretry, hlt⟩
  · exact .inl htake
  · exact .inr ⟨e, he, hretry, by omega⟩

/-- A patient writer answers a flush with success, and writes nothing for it. -/
theorem Patient.flush {interrupts : ℕ} (h : s.Patient retry interrupts) :
    s.flush.1 = .ok () ∧ s.flush.2.wire = s.wire ∧ s.flush.2.Patient retry interrupts :=
  ⟨h.flushes 0, rfl, h.writes, fun i => h.flushes (i + 1)⟩

/-- A writer fails within no part of an empty text, as no call is made for it. -/
theorem not_failsWithin_zero : ¬ s.FailsWithin 0 := by
  rintro ⟨calls, e, -, hlt⟩
  exact Nat.not_lt_zero _ hlt

/-- A writer that takes a part of everything fails within no part of any text. -/
theorem Accepts.not_failsWithin (h : s.Accepts) (total : ℕ) : ¬ s.FailsWithin total := by
  rintro ⟨calls, e, he, -⟩
  obtain ⟨n, hn⟩ := h.writes calls
  rw [hn] at he
  cases he

/-- A writer whose next answer is a failure fails before it has taken any bytes, and so within every
total. -/
theorem failsWithin_of_fail {e : ε} {total : ℕ} (h : s.answers 0 = .fail e) (htotal : 0 < total) :
    s.FailsWithin total := ⟨0, e, h, htotal⟩

/-- When the next call takes a part, a failure within the text is one within what is left. -/
theorem failsWithin_of_accept {n total : ℕ} (h : s.answers 0 = .accept n) (wire : List α) :
    s.FailsWithin total ↔
      FailsWithin ⟨fun i => s.answers (i + 1), s.flushes, wire⟩ (total - n) := by
  constructor
  · rintro ⟨calls, e, he, hlt⟩
    cases calls with
    | zero =>
      rw [h] at he
      cases he
    | succ calls =>
      refine ⟨calls, e, he, ?_⟩
      simp only [accepted, h] at hlt
      dsimp only
      omega
  · rintro ⟨calls, e, he, hlt⟩
    refine ⟨calls + 1, e, he, ?_⟩
    simp only [accepted, h]
    dsimp only at hlt
    omega

/-- **All of a buffer.** A patient writer receives all of it, in at most as many calls as there
are interruptions and elements. -/
theorem writeAll_ok {interrupts fuel : ℕ} (h : s.Patient retry interrupts) (buffer : List α)
    (hfuel : interrupts + buffer.length ≤ fuel) :
    ∃ s' interrupts', writeAll retry zero fuel s buffer = some (.ok (), s') ∧
      s'.wire = s.wire ++ buffer ∧ interrupts' ≤ interrupts ∧ s'.Patient retry interrupts' := by
  induction fuel generalizing s buffer interrupts with
  | zero =>
    obtain rfl : buffer = [] := List.eq_nil_of_length_eq_zero (by omega)
    exact ⟨s, interrupts, rfl, by simp, Nat.le_refl _, h⟩
  | succ fuel ih =>
    cases buffer with
    | nil => exact ⟨s, interrupts, rfl, by simp, Nat.le_refl _, h⟩
    | cons a rest =>
      rw [List.length_cons] at hfuel
      rcases h.writes 0 with ⟨n, hn⟩ | ⟨e, he, hretry, hlt⟩
      · -- A part is taken: the rest is shorter.
        have hmin : min (n + 1) (rest.length + 1) = min n rest.length + 1 := by omega
        have hlen : interrupts - 1 + (rest.drop (min n rest.length)).length ≤ fuel := by
          rw [List.length_drop]
          omega
        obtain ⟨s', k, hout, hwire, hk, hs'⟩ :=
          ih (h.tail (s.wire ++ (a :: rest).take (n + 1))) _ hlen
        refine ⟨s', k, ?_, ?_, by omega, hs'⟩
        · simp only [writeAll, write, hn, List.length_cons, hmin]
          exact hout
        · rw [hwire]
          rcases Nat.le_total n rest.length with hle | hle
          · simp [Nat.min_eq_left hle]
          · simp [Nat.min_eq_right hle, List.take_of_length_le hle]
      · -- An interruption: one less to come.
        have hlen : interrupts - 1 + (a :: rest).length ≤ fuel := by
          rw [List.length_cons]
          omega
        obtain ⟨s', k, hout, hwire, hk, hs'⟩ := ih (h.tail s.wire) (a :: rest) hlen
        refine ⟨s', k, ?_, hwire, by omega, hs'⟩
        simp only [writeAll, write, he, hretry, if_true]
        exact hout

end Sink

end Output
