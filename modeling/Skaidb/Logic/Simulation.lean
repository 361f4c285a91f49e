import Skaidb.Logic.Program

/-!
# Programs that stand for one another

A program over a large state stands for a program over what is seen of it when, from states
that satisfy an invariant, both have the same outcome, what is seen of the state reached is
the state the other one reaches, and the invariant holds again. One rule for each combinator
carries this through a program, and sequences of calls inherit it from the single calls.
-/

namespace Program

variable {ω ω' ε α β : Type} {I : ω' → Prop} {π : ω' → ω}

/-- From states that satisfy `I` the program `m'` does what `m` does with what `π` sees, and
reaches states that satisfy `I` again. -/
def Simulates (I : ω' → Prop) (π : ω' → ω) (m' : Prog ω' ε α) (m : Prog ω ε α) : Prop :=
  ∀ w, I w → (m' w).1 = (m (π w)).1 ∧ π (m' w).2 = (m (π w)).2 ∧ I (m' w).2

namespace Simulates

/-- A program that agrees with its projection and keeps the invariant. -/
theorem of_projects {m' : Prog ω' ε α} {m : Prog ω ε α} (h : Projects π m' m)
    (hkeeps : Keeps I m') : Simulates I π m' m :=
  fun w hw => ⟨(h w).1, (h w).2, hkeeps w hw⟩

/-- A program that returns a value simulates the one that returns it. -/
theorem pure (a : α) : Simulates I π (pure a : Prog ω' ε α) (pure a : Prog ω ε α) :=
  of_projects (Projects.pure a) (Keeps.pure I a)

/-- A program with a given outcome simulates the one with this outcome. -/
theorem settle (r : Except ε α) : Simulates I π (settle r) (settle r) :=
  of_projects (Projects.settle r) (Keeps.settle I r)

/-- A program that fails simulates the one that fails with the same error. -/
theorem fails (e : ε) : Simulates I π (fails e : Prog ω' ε α) (fails e : Prog ω ε α) :=
  of_projects (Projects.fails e) (Keeps.fails I e)

/-- A change of the state simulates the change that it has in the view, when it keeps the
invariant. -/
theorem change {f' : ω' → ω'} {f : ω → ω} (h : ∀ w, π (f' w) = f (π w))
    (hI : ∀ w, I w → I (f' w)) :
    Simulates I π (change f' : Prog ω' ε Unit) (change f) :=
  of_projects (Projects.change h) (Keeps.change hI)

/-- A part of the state that is seen. -/
theorem reads {g' : ω' → α} {g : ω → α} (h : ∀ w, g' w = g (π w)) :
    Simulates I π (reads g' : Prog ω' ε α) (reads g) :=
  fun w hw => ⟨congrArg Except.ok (h w), rfl, hw⟩

/-- Programs in sequence simulate those in sequence that their parts simulate. -/
theorem bind {m' : Prog ω' ε α} {m : Prog ω ε α} {f' : α → Prog ω' ε β} {f : α → Prog ω ε β}
    (hm : Simulates I π m' m) (hf : ∀ a, Simulates I π (f' a) (f a)) :
    Simulates I π (m' >>= f') (m >>= f) := by
  intro w hw
  have hfirst := hm w hw
  rw [bind_apply, bind_apply]
  rcases h' : m' w with ⟨r', w'⟩
  rcases h : m (π w) with ⟨r, v⟩
  rw [h', h] at hfirst
  obtain ⟨rfl, rfl, hw'⟩ : r' = r ∧ π w' = v ∧ I w' := hfirst
  cases r' with
  | ok a => exact hf a w' hw'
  | error e => exact ⟨rfl, rfl, hw'⟩

/-- Parts of the states are read that are not the same, and the programs agree on what follows
from them. -/
theorem reads_bind {γ δ : Type} {g' : ω' → γ} {g : ω → δ} {f' : γ → Prog ω' ε β}
    {f : δ → Prog ω ε β} (h : ∀ w, I w → Simulates I π (f' (g' w)) (f (g (π w)))) :
    Simulates I π (Program.reads g' >>= f') (Program.reads g >>= f) :=
  fun w hw => h w hw w hw

/-- A program whose outcome is taken as a value simulates the one that its outcome is compared
with. -/
theorem attempt {m' : Prog ω' ε α} {m : Prog ω ε α} (hm : Simulates I π m' m) :
    Simulates I π (attempt m' : Prog ω' ε (Except ε α)) (attempt m) := by
  intro w hw
  obtain ⟨hresult, hseen, hw'⟩ := hm w hw
  exact ⟨congrArg Except.ok hresult, hseen, hw'⟩

/-- A program that is followed by something the view does not show still simulates what it did
before. -/
theorem followed {m' : Prog ω' ε α} {m : Prog ω ε α} {f' : α → Prog ω' ε α}
    (hm : Simulates I π m' m)
    (hf : ∀ a w, I w → ∃ w', f' a w = (.ok a, w') ∧ π w' = π w ∧ I w') :
    Simulates I π (m' >>= f') m := by
  intro w hw
  have hfirst := hm w hw
  rw [bind_apply]
  rcases h' : m' w with ⟨_ | a, w'⟩
  · rw [h'] at hfirst
    exact hfirst
  · rw [h'] at hfirst
    obtain ⟨hresult, hseen, hw'⟩ := hfirst
    obtain ⟨w'', hrun, hsame, hkept⟩ := hf a w' hw'
    dsimp only at hresult hseen ⊢
    rw [hrun]
    exact ⟨hresult, hsame.trans hseen, hkept⟩

end Simulates

/-! ## Sequences of calls -/

section Calls

variable {κ ρ : Type}

/-- The results of calls one after another and the state they reach. -/
def results (step : ω → κ → ρ × ω) : List κ → ω → List ρ × ω
  | [], w => ([], w)
  | c :: cs, w =>
    let (r, w) := step w c
    let (rs, w) := results step cs w
    (r :: rs, w)

/-- Calls that agree one by one agree one after another. -/
theorem results_eq (step' : ω' → κ → ρ × ω') (step : ω → κ → ρ × ω) (cs : List κ)
    (h : ∀ w, I w → ∀ c ∈ cs, (step' w c).1 = (step (π w) c).1 ∧
      π (step' w c).2 = (step (π w) c).2 ∧ I (step' w c).2) {w : ω'} (hw : I w) :
    (results step' cs w).1 = (results step cs (π w)).1 ∧
      π (results step' cs w).2 = (results step cs (π w)).2 ∧ I (results step' cs w).2 := by
  induction cs generalizing w with
  | nil => exact ⟨rfl, rfl, hw⟩
  | cons c cs ih =>
    obtain ⟨hresult, hseen, hw'⟩ := h w hw c List.mem_cons_self
    obtain ⟨hresults, hrest, hkept⟩ :=
      ih (fun w hw c hc => h w hw c (List.mem_cons_of_mem _ hc)) hw'
    unfold results
    dsimp only
    rw [hresult, hresults, hrest, hseen]
    exact ⟨rfl, rfl, hkept⟩

end Calls

end Program
