import Skaidb.Codec.Reader

/-!
# Readers that run out of stack

A recursive reader takes a level of the stack for each of its calls. A `Walk` follows a reader
through the input and counts the levels that it takes at the deepest place, whether the reader
succeeds or fails. `Limits` compares three things on the inputs below a length: the walk, the
reader with a stack of so many levels, and the reader with a stack without bound. The limited
reader does what the free one does where the levels suffice for the walk, and fails with an error
of its own where they do not. The notion has one rule for each combinator.
-/

namespace Codec

/-! ## Walks -/

/-- A walk through an input: the levels of the stack that it takes, and the input that it leaves
if it comes to its end. -/
abbrev Walk (β : Type) := List β → ℕ × Option (List β)

namespace Walk

variable {β ε α : Type}

/-- The walk of a reader that makes no recursive call. -/
def of (r : Reader β ε α) : Walk β := fun input => (0, (r input).toOption.map Prod.snd)

/-- The walk that goes on by what a reader returns, which makes no recursive call. -/
def after (r : Reader β ε α) (w : α → Walk β) : Walk β := fun input =>
  match r input with
  | .ok (a, rest) => w a rest
  | .error _ => (0, none)

/-- The walk that goes on only if `p` holds of the number of symbols left. -/
def ensure (p : ℕ → Prop) [DecidablePred p] (w : Walk β) : Walk β := fun input =>
  if p input.length then w input else (0, none)

/-- One walk and then another, through what the first one leaves. -/
def andThen (w w' : Walk β) : Walk β := fun input =>
  match (w input).2 with
  | some rest => (max (w input).1 (w' rest).1, (w' rest).2)
  | none => ((w input).1, none)

/-- A walk that is taken so many times, each from where the one before has ended. -/
def times : ℕ → Walk β → Walk β
  | 0, _ => fun input => (0, some input)
  | n + 1, w => w.andThen (times n w)

/-- The walk of a call, which takes a level more than its body. -/
def call (w : Walk β) : Walk β := fun input => ((w input).1 + 1, (w input).2)

end Walk

namespace Reader

variable {β ε α γ : Type}

/-! ## Errors that a reader does not return -/

/-- The reader never fails with this error, so that it can stand for something else. -/
def Spares (e : ε) (r : Reader β ε α) : Prop := ∀ input, r input ≠ .error e

variable {e : ε}

/-- Returning a value fails with no error, and so not with this one. -/
theorem Spares.pure (a : α) : Spares e (pure a : Reader β ε α) := by
  intro input h
  cases h

/-- A reader that fails with another error does not fail with this one. -/
theorem Spares.fail {e' : ε} (h : e' ≠ e) : Spares e (fail e' : Reader β ε α) := by
  intro input hfail
  exact h (Except.error.inj hfail)

/-- A sequence does not fail with an error that its first part spares on the input at hand and
that its second part spares everywhere. -/
theorem bind_ne_error {r : Reader β ε α} {f : α → Reader β ε γ} {input : List β}
    (hr : r input ≠ .error e) (hf : ∀ a, Spares e (f a)) : (r >>= f) input ≠ .error e := by
  rw [bind_apply]
  cases hread : r input with
  | error e' =>
    rw [hread] at hr
    exact fun h => hr (congrArg _ (Except.error.inj h))
  | ok result =>
    obtain ⟨a, rest⟩ := result
    exact hf a rest

/-- A sequence fails with the errors of its parts only. -/
theorem Spares.bind {r : Reader β ε α} {f : α → Reader β ε γ} (hr : Spares e r)
    (hf : ∀ a, Spares e (f a)) : Spares e (r >>= f) :=
  fun input => bind_ne_error (hr input) hf

/-- A symbol is missing with the error it names. -/
theorem Spares.symbol {short : ε} (h : short ≠ e) : Spares e (symbol short : Reader β ε β) := by
  intro input hread
  cases input with
  | nil => exact h (Except.error.inj hread)
  | cons b input => cases hread

/-- Symbols are missing with the error that their reader names. -/
theorem Spares.take {short : ε} (h : short ≠ e) (n : ℕ) :
    Spares e (take short n : Reader β ε (List β)) := by
  intro input hread
  unfold Reader.take at hread
  split at hread
  · cases hread
  · exact h (Except.error.inj hread)

/-- An absent value is a failure with the error that is named. -/
theorem Spares.ofOption {e' : ε} (h : e' ≠ e) (value : Option α) :
    Spares e (ofOption e' value : Reader β ε α) := by
  cases value with
  | none => exact Spares.fail h
  | some a => exact Spares.pure a

/-! ## Limited and free readers -/

/-- What a walk tells of the outcomes of the limited and the free reader on one input. -/
structure LimitsAt (overflow : ε) (levels : ℕ) (walked : ℕ × Option (List β))
    (limited free : Except ε (α × List β)) : Prop where
  /-- The walk leaves what the free reader leaves. -/
  rest : walked.2 = free.toOption.map Prod.snd
  /-- The free reader does not run out of stack. -/
  spared : free ≠ .error overflow
  /-- The levels suffice, and the limited reader does what the free one does. -/
  within : walked.1 ≤ levels → limited = free
  /-- The levels do not suffice, and it runs out of stack. -/
  beyond : levels < walked.1 → limited = .error overflow

/-- The walk tells how the limited reader compares with the free one on all inputs of fewer than
`n` symbols. -/
def Limits (n : ℕ) (overflow : ε) (levels : ℕ) (w : Walk β) (limited free : Reader β ε α) : Prop :=
  ∀ input, input.length < n → LimitsAt overflow levels (w input) (limited input) (free input)

variable {n levels : ℕ} {overflow : ε}

/-- A reader that takes no level is its own limited version. -/
theorem LimitsAt.leaf {outcome : Except ε (α × List β)} (h : outcome ≠ .error overflow) :
    LimitsAt overflow levels (0, outcome.toOption.map Prod.snd) outcome outcome :=
  ⟨rfl, h, fun _ => rfl, fun hdeep => absurd hdeep (Nat.not_lt_zero _)⟩

/-- A success of both readers takes no level of calls, however few there are. -/
theorem LimitsAt.read (a : α) (rest : List β) :
    LimitsAt overflow levels (0, some rest) (.ok (a, rest)) (.ok (a, rest)) :=
  LimitsAt.leaf (Spares.pure a rest)

/-- A reader that fails before it calls itself fails in the same way however little stack there
is. -/
theorem LimitsAt.failed {e' : ε} (h : e' ≠ overflow) :
    LimitsAt overflow levels (0, none) (.error e' : Except ε (α × List β)) (.error e') :=
  LimitsAt.leaf fun hfail => h (Except.error.inj hfail)

/-- A reader that does not call itself needs no stack for calls, so the limit does not matter to
it. -/
theorem Limits.of {r : Reader β ε α} (h : Spares overflow r) :
    Limits n overflow levels (Walk.of r) r r := fun input _ => LimitsAt.leaf (h input)

/-- Converting what was read leaves the calls that the reader needs as they are. -/
theorem Limits.map {w : Walk β} {limited free : Reader β ε α}
    (h : Limits n overflow levels w limited free) (f : α → γ) :
    Limits n overflow levels w (limited >>= fun a => pure (f a))
      (free >>= fun a => pure (f a)) := by
  intro input hlen
  obtain ⟨hrest, hspared, hwithin, hbeyond⟩ := h input hlen
  refine ⟨?_, bind_ne_error hspared fun a => Spares.pure (f a), fun hlevels => ?_,
    fun hlevels => ?_⟩
  · rw [hrest, bind_apply]
    cases free input <;> rfl
  · rw [bind_apply, bind_apply, hwithin hlevels]
  · rw [bind_apply, hbeyond hlevels]

/-- Readers that go on by what a first reader without recursive calls returns. -/
theorem Limits.after {r : Reader β ε α} {w : α → Walk β} {f g : α → Reader β ε γ}
    (hr : Spares overflow r) (hshrinks : Shrinks r)
    (h : ∀ a, Limits n overflow levels (w a) (f a) (g a)) :
    Limits n overflow levels (Walk.after r w) (r >>= f) (r >>= g) := by
  intro input hlen
  unfold Walk.after
  rw [bind_apply, bind_apply]
  cases hread : r input with
  | error e' =>
    have hspared := hr input
    rw [hread] at hspared
    exact LimitsAt.failed fun hfail => hspared (congrArg _ hfail)
  | ok result =>
    obtain ⟨a, rest⟩ := result
    exact h a rest (lt_of_le_of_lt (hshrinks _ _ _ hread) hlen)

/-- After one symbol the inputs are shorter by one. -/
theorem Limits.symbol {short : ε} {w : β → Walk β} {f g : β → Reader β ε γ}
    (hshort : short ≠ overflow) (h : ∀ b, Limits n overflow levels (w b) (f b) (g b)) :
    Limits (n + 1) overflow levels (Walk.after (Reader.symbol short) w)
      (Reader.symbol short >>= f) (Reader.symbol short >>= g) := by
  intro input hlen
  cases input with
  | nil => exact LimitsAt.failed hshort
  | cons b input => exact h b input (by simpa using hlen)

/-- Checking the number of symbols left, in both readers and in the walk, takes no level of
calls. -/
theorem Limits.ensure {p q : ℕ → Prop} [DecidablePred p] [DecidablePred q] {w : Walk β}
    {limited free : Reader β ε α} (hpq : ∀ k, p k ↔ q k) (he : e ≠ overflow)
    (h : Limits n overflow levels w limited free) :
    Limits n overflow levels (Walk.ensure p w) (Reader.ensure q e >>= fun _ => limited)
      (Reader.ensure q e >>= fun _ => free) := by
  intro input hlen
  unfold Walk.ensure
  rw [bind_apply, bind_apply]
  unfold Reader.ensure
  by_cases hq : q input.length
  · rw [if_pos hq, if_pos ((hpq _).mpr hq)]
    exact h input hlen
  · rw [if_neg hq, if_neg fun hp => hq ((hpq _).mp hp)]
    exact LimitsAt.failed he

/-- A check that always holds is no check, so the reader that makes it has the levels of the
rest. -/
theorem Limits.unchecked {p : ℕ → Prop} [DecidablePred p] {w : Walk β}
    {limited free : Reader β ε α} (hp : ∀ k, p k)
    (h : Limits n overflow levels w limited free) :
    Limits n overflow levels (Walk.ensure p w) limited free := by
  intro input hlen
  unfold Walk.ensure
  rw [if_pos (hp _)]
  exact h input hlen

/-- What two readers in sequence need is what the first needs and then, from where it ends, what the
second needs. -/
theorem Limits.bind {w w' : Walk β} {limited free : Reader β ε α} {f g : α → Reader β ε γ}
    (h : Limits n overflow levels w limited free) (hshrinks : Shrinks free)
    (h' : ∀ a, Limits n overflow levels w' (f a) (g a)) :
    Limits n overflow levels (w.andThen w') (limited >>= f) (free >>= g) := by
  intro input hlen
  obtain ⟨hrest, hspared, hwithin, hbeyond⟩ := h input hlen
  unfold Walk.andThen
  rw [hrest, bind_apply, bind_apply]
  cases hread : free input with
  | error e' =>
    rw [hread] at hspared hwithin
    refine ⟨rfl, fun hfail => hspared (congrArg _ (Except.error.inj hfail)), fun hlevels => ?_,
      fun hlevels => ?_⟩
    · rw [hwithin hlevels]
    · rw [hbeyond hlevels]
  | ok result =>
    obtain ⟨a, rest⟩ := result
    obtain ⟨hrest', hspared', hwithin', hbeyond'⟩ :=
      h' a rest (lt_of_le_of_lt (hshrinks _ _ _ hread) hlen)
    rw [hread] at hwithin
    refine ⟨hrest', hspared', fun hlevels => ?_, fun hlevels => ?_⟩
    · obtain ⟨hfirst, hsecond⟩ := Nat.max_le.mp hlevels
      rw [hwithin hfirst]
      exact hwithin' hsecond
    · -- The first of the two to take too much is the one that runs out of stack.
      by_cases hfirst : (w input).1 ≤ levels
      · rw [hwithin hfirst]
        refine hbeyond' (Nat.lt_of_not_le fun hsecond => ?_)
        exact absurd (Nat.max_le.mpr ⟨hfirst, hsecond⟩) (Nat.not_le.mpr hlevels)
      · rw [hbeyond (Nat.not_le.mp hfirst)]

/-- What a counted run of a reader needs is what the runs of it need one after another. -/
theorem Limits.times {w : Walk β} {limited free : Reader β ε α}
    (h : Limits n overflow levels w limited free) (hshrinks : Shrinks free) (k : ℕ) :
    Limits n overflow levels (Walk.times k w) (times k limited) (times k free) := by
  induction k with
  | zero => exact Limits.of (r := pure []) (Spares.pure [])
  | succ k ih => exact h.bind hshrinks fun a => ih.map fun items => a :: items

/-- A call with a level left, which its body does not have. -/
theorem Limits.call {w : Walk β} {limited free : Reader β ε α}
    (h : Limits n overflow levels w limited free) :
    Limits n overflow (levels + 1) (Walk.call w) limited free := by
  intro input hlen
  obtain ⟨hrest, hspared, hwithin, hbeyond⟩ := h input hlen
  exact ⟨hrest, hspared, fun hlevels => hwithin (Nat.le_of_succ_le_succ hlevels),
    fun hlevels => hbeyond (Nat.lt_of_succ_lt_succ hlevels)⟩

/-- A call with no level left overflows, whatever it would have read. -/
theorem Limits.exhausted {w : Walk β} {limited free : Reader β ε α}
    (h : Limits n overflow levels w limited free) :
    Limits n overflow 0 (Walk.call w) (fail overflow) free := by
  intro input hlen
  obtain ⟨hrest, hspared, -, -⟩ := h input hlen
  exact ⟨hrest, hspared, fun hlevels => absurd hlevels (Nat.not_succ_le_zero _), fun _ => rfl⟩

end Reader

end Codec
