import Mathlib.Tactic.Common

/-!
# Programs with a state that survives failure

A program transforms a state and returns a result or fails; the state it has
reached is kept in both cases. Programs are specified by triples whose
postcondition sees the outcome, with one rule for each combinator, and by the
properties they keep. A program that writes more down in its state than another one is related
to it by a projection. Guarded runs put programs one after another, each step
under a condition on the state it starts from. A step that may panic is checked
by a condition when it panics exactly where the condition fails. A program that may
panic and writes its calls down yields a value when it does not panic and its calls
are as they should be.
-/

namespace Program

variable {ω ε α β : Type}

/-- A program over states `ω` with failures `ε`. -/
abbrev Prog (ω ε α : Type) := ExceptT ε (StateM ω) α

/-- Run a program and return its outcome as a value. -/
def attempt (m : Prog ω ε α) : Prog ω ε (Except ε α) := fun w => (.ok (m w).1, (m w).2)

/-- The program that has a given outcome and leaves the state. -/
def settle (r : Except ε α) : Prog ω ε α := fun w => (r, w)

/-- Read a part of the state, which changes nothing and does not fail. -/
def reads (f : ω → α) : Prog ω ε α := fun w => (.ok (f w), w)

/-- The program that changes the state and returns nothing. -/
def change (f : ω → ω) : Prog ω ε Unit := fun w => (.ok (), f w)

/-- The program that fails with an error and leaves the state. -/
def fails (e : ε) : Prog ω ε α := fun w => (.error e, w)

/-- A sequence runs its continuation in the state the first program reached. -/
theorem bind_apply (m : Prog ω ε α) (f : α → Prog ω ε β) (w : ω) :
    (m >>= f) w = match m w with
      | (.ok a, w') => f a w'
      | (.error e, w') => (.error e, w') := by
  rcases h : m w with ⟨r, w'⟩
  simp only [bind, ExceptT.bind, ExceptT.mk, ExceptT.bindCont, StateT.bind, h]
  cases r <;> rfl

/-! ## Triples -/

/-- From states that satisfy `P` the outcome and the state reached satisfy `Q`. -/
def Triple (P : ω → Prop) (m : Prog ω ε α) (Q : Except ε α → ω → Prop) : Prop :=
  ∀ w, P w → Q (m w).1 (m w).2

/-- A triple stays true with a stronger precondition and a weaker postcondition. -/
theorem Triple.conseq {P P' : ω → Prop} {m : Prog ω ε α} {Q Q' : Except ε α → ω → Prop}
    (h : Triple P m Q) (hP : ∀ w, P' w → P w) (hQ : ∀ r w, Q r w → Q' r w) : Triple P' m Q' :=
  fun w hw => hQ _ _ (h w (hP w hw))

/-- A fact in the precondition that is not about the state. -/
theorem Triple.assume {p : Prop} {P : ω → Prop} {m : Prog ω ε α} {Q : Except ε α → ω → Prop}
    (h : p → Triple P m Q) : Triple (fun w => P w ∧ p) m Q :=
  fun w hw => h hw.2 w hw.1

/-- A triple whose precondition says that there is some value follows from one for each value. -/
theorem Triple.ofExists {ι : Type} {P : ι → ω → Prop} {m : Prog ω ε α}
    {Q : Except ε α → ω → Prop} (h : ∀ i, Triple (P i) m Q) : Triple (fun w => ∃ i, P i w) m Q :=
  fun w ⟨i, hw⟩ => h i w hw

/-- A program that returns a value meets what holds of the value in the states it starts from. -/
theorem Triple.pure {P : ω → Prop} {a : α} {Q : Except ε α → ω → Prop}
    (h : ∀ w, P w → Q (.ok a) w) : Triple P (pure a) Q := h

/-- A program with a given outcome meets what holds of the outcome in the states it starts from. -/
theorem Triple.settle {P : ω → Prop} {r : Except ε α} {Q : Except ε α → ω → Prop}
    (h : ∀ w, P w → Q r w) : Triple P (settle r) Q := h

/-- A program that fails meets what holds of its error in the states it starts from. -/
theorem Triple.fails {P : ω → Prop} {e : ε} {Q : Except ε α → ω → Prop}
    (h : ∀ w, P w → Q (.error e) w) : Triple P (fails e) Q := h

/-- A program that changes the state meets what holds of the states it leads to. -/
theorem Triple.change {P : ω → Prop} {f : ω → ω} {Q : Except ε Unit → ω → Prop}
    (h : ∀ w, P w → Q (.ok ()) (f w)) : Triple P (change f) Q := h

/-- Programs in sequence: a failure of the first one is the outcome. -/
theorem Triple.bind {P : ω → Prop} {m : Prog ω ε α} {f : α → Prog ω ε β}
    {R : Except ε α → ω → Prop} {Q : Except ε β → ω → Prop} (hm : Triple P m R)
    (hf : ∀ a, Triple (R (.ok a)) (f a) Q) (herror : ∀ e w, R (.error e) w → Q (.error e) w) :
    Triple P (m >>= f) Q := by
  intro w hw
  have hR := hm w hw
  rw [bind_apply]
  rcases h : m w with ⟨r, w'⟩
  rw [h] at hR
  cases r with
  | ok a => exact hf a w' hR
  | error e => exact herror e w' hR

/-- The program does not fail, and its value and the state reached satisfy `R`. -/
def Returns (P : ω → Prop) (m : Prog ω ε α) (R : α → ω → Prop) : Prop :=
  Triple P m fun r w => ∃ a, r = .ok a ∧ R a w

/-- Programs in sequence, the first of which does not fail. -/
theorem Returns.bind {P : ω → Prop} {m : Prog ω ε α} {f : α → Prog ω ε β} {R : α → ω → Prop}
    {Q : Except ε β → ω → Prop} (hm : Returns P m R) (hf : ∀ a, Triple (R a) (f a) Q) :
    Triple P (m >>= f) Q := by
  intro w hw
  obtain ⟨a, ha, hR⟩ := hm w hw
  rw [bind_apply]
  rcases h : m w with ⟨r, w'⟩
  rw [h] at ha hR
  obtain rfl : r = .ok a := ha
  exact hf a w' hR

/-- A part of the state is read in a state that satisfies the precondition. -/
theorem Triple.reads {P : ω → Prop} {g : ω → α} {f : α → Prog ω ε β} {Q : Except ε β → ω → Prop}
    (hf : ∀ a, Triple (fun w => P w ∧ g w = a) (f a) Q) : Triple P (reads g >>= f) Q := by
  intro w hw
  exact hf (g w) w ⟨hw, rfl⟩

/-- When the outcome of a program is looked at as a value, what holds of each outcome may be
used. -/
theorem Triple.attempt {P : ω → Prop} {m : Prog ω ε α} {f : Except ε α → Prog ω ε β}
    {R : Except ε α → ω → Prop} {Q : Except ε β → ω → Prop} (hm : Triple P m R)
    (hf : ∀ r, Triple (R r) (f r) Q) : Triple P (attempt m >>= f) Q := by
  intro w hw
  exact hf (m w).1 (m w).2 (hm w hw)

/-! ## Kept properties -/

/-- The program keeps `I`, whether it fails or not. -/
def Keeps (I : ω → Prop) (m : Prog ω ε α) : Prop := Triple I m fun _ => I

/-- A program that does not fail, and after which the property is known again, keeps it. -/
theorem Returns.keeps_of {I : ω → Prop} {m : Prog ω ε α} {R : α → ω → Prop} (h : Returns I m R)
    (hR : ∀ a w, R a w → I w) : Keeps I m := by
  refine h.conseq (fun _ hw => hw) fun r w hr => ?_
  obtain ⟨a, -, hw⟩ := hr
  exact hR a w hw

/-- A program that does not fail and reaches states with the property again keeps it. -/
theorem Returns.keeps {I : ω → Prop} {m : Prog ω ε α} (h : Returns I m fun _ => I) : Keeps I m :=
  h.keeps_of fun _ _ hw => hw

/-- A program that returns a value keeps every property of the state. -/
theorem Keeps.pure (I : ω → Prop) (a : α) : Keeps I (pure a : Prog ω ε α) := fun _ h => h

/-- A program that fails keeps every property of the state. -/
theorem Keeps.fails (I : ω → Prop) (e : ε) : Keeps I (fails e : Prog ω ε α) := fun _ h => h

/-- A program with a given outcome keeps every property of the state. -/
theorem Keeps.settle (I : ω → Prop) (r : Except ε α) : Keeps I (settle r : Prog ω ε α) :=
  fun _ h => h

/-- A program that changes the state keeps what the change keeps. -/
theorem Keeps.change {I : ω → Prop} {f : ω → ω} (h : ∀ w, I w → I (f w)) :
    Keeps I (change f : Prog ω ε Unit) := h

/-- Programs in sequence keep what each of them keeps. -/
theorem Keeps.bind {I : ω → Prop} {m : Prog ω ε α} {f : α → Prog ω ε β} (hm : Keeps I m)
    (hf : ∀ a, Keeps I (f a)) : Keeps I (m >>= f) :=
  Triple.bind hm hf fun _ _ h => h

/-- A program that reads the state keeps what its continuation keeps. -/
theorem Keeps.reads {I : ω → Prop} {g : ω → α} {f : α → Prog ω ε β} (hf : ∀ a, Keeps I (f a)) :
    Keeps I (reads g >>= f) :=
  Triple.reads fun a => (hf a).conseq (fun _ h => h.1) fun _ _ h => h

/-- Taking an outcome as a value keeps what the program keeps. -/
theorem Keeps.attempt {I : ω → Prop} {m : Prog ω ε α} {f : Except ε α → Prog ω ε β}
    (hm : Keeps I m) (hf : ∀ r, Keeps I (f r)) : Keeps I (attempt m >>= f) :=
  Triple.attempt hm hf

/-! ## Programs over a larger state -/

section Projection

variable {ω' : Type} {π : ω' → ω}

/-- The programs have the same outcome in states that agree and reach states that agree, where
the larger state agrees with its projection. -/
def Projects (π : ω' → ω) (m' : Prog ω' ε α) (m : Prog ω ε α) : Prop :=
  ∀ w, (m' w).1 = (m (π w)).1 ∧ π (m' w).2 = (m (π w)).2

/-- Programs that return one value are related by every projection. -/
theorem Projects.pure (a : α) : Projects π (pure a : Prog ω' ε α) (pure a : Prog ω ε α) :=
  fun _ => ⟨rfl, rfl⟩

/-- Programs with one outcome are related by every projection. -/
theorem Projects.settle (r : Except ε α) : Projects π (settle r) (settle r) :=
  fun _ => ⟨rfl, rfl⟩

/-- Programs that fail with one error are related by every projection. -/
theorem Projects.fails (e : ε) :
    Projects π (fails e : Prog ω' ε α) (fails e : Prog ω ε α) := fun _ => ⟨rfl, rfl⟩

/-- A change of the larger state that the projection turns into one of the smaller projects to
it. -/
theorem Projects.change {f' : ω' → ω'} {f : ω → ω} (h : ∀ w, π (f' w) = f (π w)) :
    Projects π (change f' : Prog ω' ε Unit) (change f) := fun w => ⟨rfl, h w⟩

/-- Programs in sequence are related when their parts are. -/
theorem Projects.bind {m' : Prog ω' ε α} {m : Prog ω ε α} {f' : α → Prog ω' ε β}
    {f : α → Prog ω ε β} (hm : Projects π m' m) (hf : ∀ a, Projects π (f' a) (f a)) :
    Projects π (m' >>= f') (m >>= f) := by
  intro w
  have hw := hm w
  rw [bind_apply, bind_apply]
  rcases h' : m' w with ⟨r', w'⟩
  rcases h : m (π w) with ⟨r, w''⟩
  rw [h', h] at hw
  obtain ⟨rfl, rfl⟩ : r' = r ∧ π w' = w'' := hw
  cases r' with
  | ok a => exact hf a w'
  | error e => exact ⟨rfl, rfl⟩

/-- Programs that are related have the same outcome, also when it is taken as a value. -/
theorem Projects.attempt {m' : Prog ω' ε α} {m : Prog ω ε α} (hm : Projects π m' m) :
    Projects π (attempt m' : Prog ω' ε (Except ε α)) (attempt m) :=
  fun w => ⟨congrArg Except.ok (hm w).1, (hm w).2⟩

/-- A part of the state that the projection keeps. -/
theorem Projects.reads {g' : ω' → α} {g : ω → α} (h : ∀ w, g' w = g (π w)) :
    Projects π (reads g' : Prog ω' ε α) (reads g) := fun w => ⟨congrArg Except.ok (h w), rfl⟩

end Projection

/-! ## Guarded runs -/

/-- The states a sequence of commands reaches when every step meets its guard. -/
inductive Run {κ : Type} (step : ω → κ → ω) (guard : ω → κ → Prop) (w : ω) : ω → Prop
  /-- A run of no step ends where it began. -/
  | refl : Run step guard w w
  /-- A run goes on with a step whose guard is met. -/
  | tail {w' : ω} {c : κ} (h : Run step guard w w') (hguard : guard w' c) :
    Run step guard w (step w' c)

/-- A property that every guarded step keeps holds along every run. -/
theorem Run.invariant {κ : Type} {step : ω → κ → ω} {guard : ω → κ → Prop} {I : ω → Prop}
    (hstep : ∀ w c, guard w c → I w → I (step w c)) {w w' : ω} (h : Run step guard w w')
    (hw : I w) : I w' := by
  induction h with
  | refl => exact hw
  | tail _ hguard ih => exact hstep _ _ hguard ih

/-- A run under one guard is a run under any guard that it implies. -/
theorem Run.mono {κ : Type} {step : ω → κ → ω} {guard guard' : ω → κ → Prop} {w w' : ω}
    (h : Run step guard w w') (hguard : ∀ w c, guard w c → guard' w c) : Run step guard' w w' := by
  induction h with
  | refl => exact Run.refl
  | tail _ hc ih => exact ih.tail (hguard _ _ hc)

/-- A run that goes on from where another ended is a run from where that one began. -/
theorem Run.trans {κ : Type} {step : ω → κ → ω} {guard : ω → κ → Prop} {w w' w'' : ω}
    (h : Run step guard w w') (h' : Run step guard w' w'') : Run step guard w w'' := by
  induction h' with
  | refl => exact h
  | tail _ hguard ih => exact ih.tail hguard

/-- Each of the commands meets its guard in the state the ones before it reach. -/
def Guarded {κ : Type} (step : ω → κ → ω) (guard : ω → κ → Prop) : ω → List κ → Prop
  | _, [] => True
  | w, c :: cs => guard w c ∧ Guarded step guard (step w c) cs

/-- Commands that meet the guard one after another make up a run. -/
theorem Guarded.run {κ : Type} {step : ω → κ → ω} {guard : ω → κ → Prop} {w : ω} {cs : List κ}
    (h : Guarded step guard w cs) : Run step guard w (cs.foldl step w) := by
  induction cs generalizing w with
  | nil => exact Run.refl
  | cons c cs ih => exact (Run.refl.tail h.1).trans (ih h.2)

/-- Commands that meet their guards in every state meet them one after another. -/
theorem Guarded.ofForall {κ : Type} {step : ω → κ → ω} {guard : ω → κ → Prop} (w : ω) {cs : List κ}
    (h : ∀ c ∈ cs, ∀ w, guard w c) : Guarded step guard w cs := by
  induction cs generalizing w with
  | nil => exact trivial
  | cons c cs ih =>
    exact ⟨h c List.mem_cons_self w, ih _ fun c' hc' => h c' (List.mem_cons_of_mem c hc')⟩

/-- Commands that meet their guards in every state are a run. -/
theorem Run.ofForall {κ : Type} {step : ω → κ → ω} {guard : ω → κ → Prop} (w : ω) {cs : List κ}
    (h : ∀ c ∈ cs, ∀ w, guard w c) : Run step guard w (cs.foldl step w) :=
  (Guarded.ofForall w h).run

/-! ## Steps that may panic -/

/-- The outcome is the value under the condition and a panic otherwise. -/
def Checks (o : Option α) (a : α) (P : Prop) : Prop := (P → o = some a) ∧ (¬ P → o = none)

/-- A value that is there under a condition that holds. -/
theorem Checks.vacuous {a : α} {P : Prop} (h : P) : Checks (some a) a P :=
  ⟨fun _ => rfl, fun hP => absurd h hP⟩

/-- A check of what an option holds always succeeds where it holds nothing. -/
theorem Checks.absent {a : α} {P : β → Prop} : Checks (some a) a (∀ b, none = some b → P b) :=
  Checks.vacuous fun _ h => nomatch h

/-- A value computed from a checked one is checked whenever that one was. -/
theorem Checks.map {o : Option α} {a : α} {P : Prop} (h : Checks o a P) (f : α → β) :
    Checks (o >>= fun a => some (f a)) (f a) P := by
  refine ⟨fun hP => ?_, fun hP => ?_⟩
  · rw [h.1 hP]
    rfl
  · rw [h.2 hP]
    rfl

/-- A check that takes place in one case only. -/
theorem Checks.imp {o : Option α} {a : α} {P p : Prop} (hthen : p → Checks o a P)
    (helse : ¬ p → o = some a) : Checks o a (p → P) := by
  by_cases hp : p
  · exact ⟨fun hP => (hthen hp).1 (hP hp), fun hP => (hthen hp).2 fun h => hP fun _ => h⟩
  · exact ⟨fun _ => helse hp, fun hP => absurd (fun h => absurd h hp) hP⟩

/-- Steps one after another panic unless each of them meets its condition. -/
theorem Checks.foldlM {κ : Type} {step : ω → κ → ω} {step' : ω → κ → Option ω}
    {room : ω → κ → Prop} (h : ∀ w c, Checks (step' w c) (step w c) (room w c)) (w : ω)
    (cs : List κ) : Checks (cs.foldlM step' w) (cs.foldl step w) (Guarded step room w cs) := by
  induction cs generalizing w with
  | nil => exact Checks.vacuous trivial
  | cons c cs ih =>
    rw [List.foldlM_cons, List.foldl_cons]
    obtain ⟨hroom, hpanic⟩ := h w c
    refine ⟨fun hguard => ?_, fun hguard => ?_⟩
    · rw [hroom hguard.1]
      exact (ih (step w c)).1 hguard.2
    · by_cases hc : room w c
      · rw [hroom hc]
        exact (ih (step w c)).2 fun hrest => hguard ⟨hc, hrest⟩
      · rw [hpanic hc]
        rfl

/-! ## Recorded calls -/

section Recording

variable {δ : Type}

/-- A program that may panic and writes down the calls it makes. -/
abbrev Recording (δ α : Type) := StateT (List δ) Option α

/-- Write a call down behind those that were made before. -/
def record (d : δ) : Recording δ Unit := fun calls => some ((), calls ++ [d])

/-- A value that has to be there; where it is not, the recorded program stops with nothing. -/
def expect (o : Option α) : Recording δ α := fun calls => o.map (·, calls)

/-- The program does not panic, it returns the value, and every call it writes down is as it
should be. -/
def Yields (P : δ → Prop) (m : Recording δ α) (a : α) : Prop :=
  ∀ calls, ∃ more, (∀ d ∈ more, P d) ∧ m calls = some (a, calls ++ more)

variable {P : δ → Prop}

/-- A program that returns a value yields it and makes no call. -/
theorem Yields.pure (a : α) : Yields P (pure a) a := by
  intro calls
  refine ⟨[], fun d hd => absurd hd List.not_mem_nil, ?_⟩
  rw [List.append_nil]
  rfl

/-- A call that is as it should be. -/
theorem Yields.record {d : δ} (hd : P d) : Yields P (record d) () :=
  fun _ => ⟨[d], fun _ hmem => List.mem_singleton.mp hmem ▸ hd, rfl⟩

/-- Expecting a value that is there yields it, without a panic. -/
theorem Yields.expect {o : Option α} {a : α} (h : o = some a) : Yields P (expect o) a := by
  subst h
  exact Yields.pure a

/-- Programs in sequence yield what the last one yields, and their calls are as they should be when
those of each are. -/
theorem Yields.bind {m : Recording δ α} {f : α → Recording δ β} {a : α} {b : β}
    (hm : Yields P m a) (hf : Yields P (f a) b) : Yields P (m >>= f) b := by
  intro calls
  obtain ⟨first, hfirst, hrun⟩ := hm calls
  obtain ⟨second, hsecond, hrest⟩ := hf (calls ++ first)
  refine ⟨first ++ second, ?_, ?_⟩
  · intro d hd
    rcases List.mem_append.mp hd with hd | hd
    · exact hfirst d hd
    · exact hsecond d hd
  · change (m calls >>= fun r => f r.1 r.2) = _
    rw [hrun, ← List.append_assoc]
    exact hrest

/-- Steps one after another yield what each of them yields, as long as an invariant holds in
between. -/
theorem Yields.foldlM {κ : Type} {step : ω → κ → ω} {step' : ω → κ → Recording δ ω} {I : ω → Prop}
    {cs : List κ} (h : ∀ w, I w → ∀ c ∈ cs, Yields P (step' w c) (step w c) ∧ I (step w c))
    {w : ω} (hw : I w) : Yields P (cs.foldlM step' w) (cs.foldl step w) := by
  induction cs generalizing w with
  | nil => exact Yields.pure w
  | cons c cs ih =>
    rw [List.foldlM_cons, List.foldl_cons]
    obtain ⟨hstep, hkept⟩ := h w hw c List.mem_cons_self
    exact hstep.bind (ih (fun w hw c hc => h w hw c (List.mem_cons_of_mem _ hc)) hkept)

end Recording

/-! ## Histories -/

/-- Each event of a history, newest first, is as it should be after the events before it. -/
def Throughout {η : Type} (P : List η → η → Prop) (history : List η) : Prop :=
  ∀ later e earlier, history = later ++ e :: earlier → P earlier e

/-- A history in which nothing has happened is as it should be. -/
theorem Throughout.nil {η : Type} (P : List η → η → Prop) : Throughout P [] :=
  fun later e earlier h => by simp at h

/-- A history goes on as it should be with an event that fits what was before it. -/
theorem Throughout.cons {η : Type} {P : List η → η → Prop} {e : η} {history : List η}
    (he : P history e) (h : Throughout P history) : Throughout P (e :: history) := by
  intro later e' earlier heq
  cases later with
  | nil =>
    obtain ⟨rfl, rfl⟩ := List.cons.inj heq
    exact he
  | cons _ later => exact h later e' earlier (List.cons.inj heq).2

end Program
