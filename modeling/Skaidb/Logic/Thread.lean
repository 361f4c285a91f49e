import Mathlib.Data.List.Induction
import Mathlib.Data.List.Nodup
import Mathlib.Data.List.Perm.Basic
import Mathlib.Data.Set.Function

/-!
# Threads that share a state

A thread asks for one atomic action after another and goes on with each answer. The actions of all
threads interleave in any order, each under a handler that answers from a shared state and from
what lies outside. What a thread has been answered determines how far it has come, so a statement
about a thread that has returned is one about its answers, put together along the thread's own
structure. What the handler always answers, and that it never hands out one ticket twice, is
carried over to every thread of every run.
-/

namespace Concurrent

/-- A thread over queries `Q`: it has returned, or asks and goes on with the answer. -/
inductive Thread (Q : Type) (A : Q → Type) (α : Type) where
  | done (a : α)
  | ask (q : Q) (next : A q → Thread Q A α)

/-- A query together with the answer that it was given. -/
abbrev QueryAnswer (Q : Type) (A : Q → Type) := (q : Q) × A q

variable {Q : Type} {A : Q → Type} {α β ε : Type}

namespace Thread

/-- Go on with what a thread returns, after all the queries that it asks. -/
def bind : Thread Q A α → (α → Thread Q A β) → Thread Q A β
  | done a, f => f a
  | ask q next, f => ask q fun x => (next x).bind f

instance : Monad (Thread Q A) where
  pure := done
  bind := bind

/-- A query whose answer says whether it failed. -/
def attempt (q : Q) (f : A q → Except ε α) : ExceptT ε (Thread Q A) α :=
  ExceptT.mk (ask q fun x => done (f x))

/-- A query that does not fail, as part of a thread that may. -/
def perform (q : Q) : ExceptT ε (Thread Q A) (A q) := attempt q .ok

/-! ## What a thread was answered -/

/-- The thread has come from `t` to `t'` with the given answers. -/
inductive Follows : Thread Q A α → List (QueryAnswer Q A) → Thread Q A α → Prop
  | nil (t : Thread Q A α) : Follows t [] t
  | cons {q : Q} {next : A q → Thread Q A α} {x : A q} {answers : List (QueryAnswer Q A)}
      {t : Thread Q A α} : Follows (next x) answers t → Follows (ask q next) (⟨q, x⟩ :: answers) t

/-- The thread returns `a` after the given answers. -/
def Returns (t : Thread Q A α) (answers : List (QueryAnswer Q A)) (a : α) : Prop :=
  Follows t answers (done a)

/-- A thread that waits for an answer has followed one answer more once it is given. -/
theorem Follows.snoc {t : Thread Q A α} {answers : List (QueryAnswer Q A)} {q : Q}
    {next : A q → Thread Q A α} (h : Follows t answers (ask q next)) (x : A q) :
    Follows t (answers ++ [⟨q, x⟩]) (next x) := by
  generalize hrest : ask q next = rest at h
  induction h with
  | nil t =>
    subst hrest
    exact .cons (.nil _)
  | cons _ ih => exact .cons (ih hrest)

/-! ## What a thread asks -/

/-- Whatever it is answered, the thread asks only queries with the property. -/
def Asks (good : Q → Prop) : Thread Q A α → Prop
  | done _ => True
  | ask q next => good q ∧ ∀ x, (next x).Asks good

/-- What is left of a thread asks no other queries. -/
theorem Asks.of_follows {good : Q → Prop} {t t' : Thread Q A α} {answers : List (QueryAnswer Q A)}
    (h : t.Asks good) (hfollows : Follows t answers t') : t'.Asks good := by
  induction hfollows with
  | nil t => exact h
  | cons _ ih => exact ih (h.2 _)

/-- Threads in sequence ask what is good when each part does. -/
theorem Asks.bind {good : Q → Prop} {t : Thread Q A α} {f : α → Thread Q A β}
    (ht : t.Asks good) (hf : ∀ a, (f a).Asks good) : (t >>= f).Asks good := by
  induction t with
  | done a => exact hf a
  | ask q next ih => exact ⟨ht.1, fun x => ih x (ht.2 x)⟩

/-- Of two threads that may fail, in sequence, every query is good when it is in each of them. -/
theorem Asks.bindExcept {good : Q → Prop} {t : ExceptT ε (Thread Q A) α}
    {f : α → ExceptT ε (Thread Q A) β} (ht : t.run.Asks good) (hf : ∀ a, (f a).run.Asks good) :
    (t >>= f).run.Asks good := by
  apply Asks.bind ht
  intro r
  cases r with
  | ok a => exact hf a
  | error e => trivial

/-- A thread of a single query asks what is good when the query is. -/
theorem Asks.attempt {good : Q → Prop} {q : Q} (hq : good q) (f : A q → Except ε α) :
    (attempt q f).run.Asks good :=
  ⟨hq, fun _ => trivial⟩

end Thread

open Thread

/-! ## What a thread ensures -/

/-- Whatever answers the thread gets of those allowed after the answers before, it returns what
`post` says of all answers and the result. -/
def Ensures (allowed : List (QueryAnswer Q A) → QueryAnswer Q A → Prop)
    (post : List (QueryAnswer Q A) → α → Prop) : List (QueryAnswer Q A) → Thread Q A α → Prop
  | past, done a => post past a
  | past, ask q next => ∀ x, allowed past ⟨q, x⟩ → Ensures allowed post (past ++ [⟨q, x⟩]) (next x)

/-- Each answer is allowed after those before it. -/
def Allowed (allowed : List (QueryAnswer Q A) → QueryAnswer Q A → Prop) :
    List (QueryAnswer Q A) → List (QueryAnswer Q A) → Prop
  | _, [] => True
  | past, a :: answers => allowed past a ∧ Allowed allowed (past ++ [a]) answers

/-- Whether a list of answers is allowed can be decided, so that examples are checked by
computation. -/
def Allowed.decide {allowed : List (QueryAnswer Q A) → QueryAnswer Q A → Prop}
    [∀ past a, Decidable (allowed past a)] :
    (past answers : List (QueryAnswer Q A)) → Decidable (Allowed allowed past answers)
  | _, [] => isTrue trivial
  | past, a :: answers =>
    have : Decidable (Allowed allowed (past ++ [a]) answers) := Allowed.decide (past ++ [a]) answers
    inferInstanceAs (Decidable (allowed past a ∧ Allowed allowed (past ++ [a]) answers))

instance {allowed : List (QueryAnswer Q A) → QueryAnswer Q A → Prop}
    [∀ past a, Decidable (allowed past a)] (past answers : List (QueryAnswer Q A)) :
    Decidable (Allowed allowed past answers) :=
  Allowed.decide past answers

section Ensures

variable {allowed allowed' : List (QueryAnswer Q A) → QueryAnswer Q A → Prop}
  {past answers : List (QueryAnswer Q A)}

/-- Answers each of which is allowed whatever came before are allowed. -/
theorem Allowed.of_forall (h : ∀ past, ∀ a ∈ answers, allowed past a) :
    Allowed allowed past answers := by
  induction answers generalizing past with
  | nil => trivial
  | cons a answers ih =>
    constructor
    · exact h past a List.mem_cons_self
    · exact ih fun past a ha => h past a (List.mem_cons_of_mem _ ha)

/-- Answers that are allowed in two ways are allowed in both at once. -/
theorem Allowed.and (h : Allowed allowed past answers) (h' : Allowed allowed' past answers) :
    Allowed (fun past a => allowed past a ∧ allowed' past a) past answers := by
  induction answers generalizing past with
  | nil => trivial
  | cons a answers ih => exact ⟨⟨h.1, h'.1⟩, ih h.2 h'.2⟩

/-- What is left of a thread under allowed answers ensures the rest. -/
theorem Ensures.of_follows {post : List (QueryAnswer Q A) → α → Prop} {t t' : Thread Q A α}
    (h : Ensures allowed post past t) (hfollows : Follows t answers t')
    (hallowed : Allowed allowed past answers) : Ensures allowed post (past ++ answers) t' := by
  induction hfollows generalizing past with
  | nil t =>
    rw [List.append_nil]
    exact h
  | @cons q next x answers t' _ ih =>
    have hnext := ih (h x hallowed.1) hallowed.2
    rwa [List.append_assoc] at hnext

/-- What a thread ensures holds of its result whenever the answers it got were allowed. -/
theorem Ensures.returns {post : List (QueryAnswer Q A) → α → Prop} {t : Thread Q A α} {a : α}
    (h : Ensures allowed post [] t) (hreturns : Returns t answers a)
    (hallowed : Allowed allowed [] answers) : post answers a :=
  h.of_follows hreturns hallowed

/-- Threads in sequence: the second one ensures it of what the first one returns. -/
theorem Ensures.bind {post : List (QueryAnswer Q A) → β → Prop} {t : Thread Q A α}
    {f : α → Thread Q A β}
    (h : Ensures allowed (fun past a => Ensures allowed post past (f a)) past t) :
    Ensures allowed post past (t >>= f) := by
  induction t generalizing past with
  | done a => exact h
  | ask q next ih => exact fun x hx => ih x (h x hx)

/-- A thread that ensures something ensures whatever follows from it. -/
theorem Ensures.mono {post post' : List (QueryAnswer Q A) → α → Prop} {t : Thread Q A α}
    (h : Ensures allowed post past t) (hpost : ∀ past a, post past a → post' past a) :
    Ensures allowed post' past t := by
  induction t generalizing past with
  | done a => exact hpost past a h
  | ask q next ih => exact fun x hx => ih x (h x hx)

/-- Threads that may fail in sequence: a failure of the first one is the result. -/
theorem Ensures.bindExcept {post : List (QueryAnswer Q A) → Except ε β → Prop}
    {t : ExceptT ε (Thread Q A) α} {f : α → ExceptT ε (Thread Q A) β}
    (h : Ensures allowed (fun past r => match r with
      | .ok a => Ensures allowed post past (f a).run
      | .error e => post past (.error e)) past t.run) :
    Ensures allowed post past (t >>= f).run := by
  apply Ensures.bind
  apply h.mono
  intro past r hr
  cases r with
  | ok a => exact hr
  | error e => exact hr

/-- A query whose answer says whether it failed, and what follows. -/
theorem Ensures.attempt {post : List (QueryAnswer Q A) → Except ε β → Prop} {q : Q}
    {g : A q → Except ε α} {f : α → ExceptT ε (Thread Q A) β}
    (h : ∀ x, allowed past ⟨q, x⟩ → match g x with
      | .ok a => Ensures allowed post (past ++ [⟨q, x⟩]) (f a).run
      | .error e => post (past ++ [⟨q, x⟩]) (.error e)) :
    Ensures allowed post past (attempt q g >>= f).run :=
  Ensures.bindExcept h

/-- A query that does not fail, and what follows. -/
theorem Ensures.perform {post : List (QueryAnswer Q A) → Except ε β → Prop} {q : Q}
    {f : A q → ExceptT ε (Thread Q A) β}
    (h : ∀ x, allowed past ⟨q, x⟩ → Ensures allowed post (past ++ [⟨q, x⟩]) (f x).run) :
    Ensures allowed post past (perform q >>= f).run :=
  Ensures.attempt h

end Ensures

/-! ## Runs of all threads -/

/-- A thread in a run: how it began, its answers so far and what is left of it. -/
structure Running (Q : Type) (A : Q → Type) (α : Type) where
  /-- The program as it was before any answer. -/
  program : Thread Q A α
  /-- The answers so far. -/
  answers : List (QueryAnswer Q A)
  /-- What is left of it. -/
  rest : Thread Q A α
  /-- What is left is what the answers leave. -/
  follows : program.Follows answers rest

/-- What the thread has returned, if it has. -/
def Running.result (r : Running Q A α) : Option α :=
  match r.rest with
  | .done a => some a
  | .ask _ _ => none

/-- A thread that has returned has come from its beginning to the result. -/
theorem Running.returns {r : Running Q A α} {a : α} (h : r.result = some a) :
    Returns r.program r.answers a := by
  obtain ⟨program, answers, rest, follows⟩ := r
  cases rest with
  | done b =>
    obtain rfl : b = a := Option.some.inj h
    exact follows
  | ask q next => cases h

/-- The shared state and all threads, in the order in which they began. -/
structure Shared (Q : Type) (A : Q → Type) (α σ : Type) where
  /-- The state that the threads share. -/
  state : σ
  /-- The threads, in the order in which they began. -/
  threads : List (Running Q A α)

/-- What happens next: a thread begins, or one is answered, with what lies outside. -/
inductive ThreadEvent (Q : Type) (A : Q → Type) (α ι : Type) where
  | start (program : Thread Q A α)
  | advance (thread : ℕ) (outside : ι)

/-- A thread that begins: no answer has been given to it yet. -/
def Running.start (program : Thread Q A α) : Running Q A α := ⟨program, [], program, .nil _⟩

section Runs

variable {σ ι : Type} (answer : (q : Q) → ι → σ → A q × σ)

/-- A thread is answered, unless it has returned. -/
def Running.advance (outside : ι) (state : σ) (r : Running Q A α) : Running Q A α × σ :=
  match r with
  | ⟨_, _, .done _, _⟩ => (r, state)
  | ⟨program, answers, .ask q next, follows⟩ =>
    (⟨program, answers ++ [⟨q, (answer q outside state).1⟩], next (answer q outside state).1,
      follows.snoc _⟩, (answer q outside state).2)

/-- Carry out one event: a thread begins, or is given the answer to its query. -/
def step (s : Shared Q A α σ) : ThreadEvent Q A α ι → Shared Q A α σ
  | .start program => { s with threads := s.threads ++ [Running.start program] }
  | .advance i outside =>
    match s.threads[i]? with
    | none => s
    | some r =>
      ⟨(r.advance answer outside s.state).2,
        s.threads.set i (r.advance answer outside s.state).1⟩

/-- All events of a run, from a state in which no thread has begun. -/
def run (state : σ) (events : List (ThreadEvent Q A α ι)) : Shared Q A α σ :=
  events.foldl (step answer) ⟨state, []⟩

variable {answer}

/-- A thread that has returned is left alone by every later answer, and so is the state. -/
theorem Running.advance_done {r : Running Q A α} {a : α} (h : r.rest = .done a) (outside : ι)
    (state : σ) : r.advance answer outside state = (r, state) := by
  obtain ⟨program, answers, rest, follows⟩ := r
  subst h
  rfl

variable (answer) in
/-- A thread that asks gets one more answer, which is kept with those before it, and the state moves
on with the answer. -/
theorem Running.advance_ask {r : Running Q A α} {q : Q} {next : A q → Thread Q A α}
    (h : r.rest = .ask q next) (outside : ι) (state : σ) :
    (r.advance answer outside state).1.program = r.program ∧
      (r.advance answer outside state).1.answers =
        r.answers ++ [⟨q, (answer q outside state).1⟩] ∧
      (r.advance answer outside state).2 = (answer q outside state).2 := by
  obtain ⟨program, answers, rest, follows⟩ := r
  subst h
  exact ⟨rfl, rfl, rfl⟩

variable (answer) in
/-- What an event does: a thread begins, or nothing happens, or a thread is answered. -/
theorem step_cases (s : Shared Q A α σ) (e : ThreadEvent Q A α ι) :
    (∃ program, e = .start program ∧
      step answer s e = ⟨s.state, s.threads ++ [Running.start program]⟩) ∨
    step answer s e = s ∨
    ∃ (i : ℕ) (r r' : Running Q A α) (q : Q) (outside : ι), s.threads[i]? = some r ∧
      (∃ next, r.rest = .ask q next) ∧ r'.program = r.program ∧
      r'.answers = r.answers ++ [⟨q, (answer q outside s.state).1⟩] ∧
      step answer s e = ⟨(answer q outside s.state).2, s.threads.set i r'⟩ := by
  cases e with
  | start program => exact Or.inl ⟨program, rfl, rfl⟩
  | advance i outside =>
    right
    cases hr : s.threads[i]? with
    | none =>
      left
      simp only [step, hr]
    | some r =>
      have hstep : step answer s (.advance i outside) =
          ⟨(r.advance answer outside s.state).2,
            s.threads.set i (r.advance answer outside s.state).1⟩ := by
        simp only [step, hr]
      cases hrest : r.rest with
      | done a =>
        left
        obtain ⟨hi, rfl⟩ := List.getElem?_eq_some_iff.mp hr
        rw [hstep, Running.advance_done hrest, List.set_getElem_self]
      | ask q next =>
        obtain ⟨hprogram, hanswers, hstate⟩ :=
          Running.advance_ask answer hrest outside s.state
        right
        refine ⟨i, r, _, q, outside, hr, ⟨next, hrest⟩, hprogram, hanswers, ?_⟩
        rw [hstep, hstate]

/-- What holds before a run and is kept by every event holds after it. -/
theorem run_invariant {I : Shared Q A α σ → Prop} {state : σ}
    {events : List (ThreadEvent Q A α ι)} (hstart : I ⟨state, []⟩)
    (hstep : ∀ s, ∀ e ∈ events, I s → I (step answer s e)) : I (run answer state events) := by
  unfold run
  generalize (⟨state, []⟩ : Shared Q A α σ) = s at hstart
  induction events generalizing s with
  | nil => exact hstart
  | cons e events ih =>
    apply ih
    · exact fun s e' he' => hstep s e' (List.mem_cons_of_mem e he')
    · exact hstep s e List.mem_cons_self hstart

/-- What the handler keeps of the state and always answers to the queries that are asked holds
of the state and of every answer of every thread. -/
theorem run_answers {good : Q → Prop} {J : σ → Prop} {G : QueryAnswer Q A → Prop}
    (hanswer : ∀ q outside state, good q → J state →
      J (answer q outside state).2 ∧ G ⟨q, (answer q outside state).1⟩)
    {state : σ} (hstate : J state) {events : List (ThreadEvent Q A α ι)}
    (hasks : ∀ program, .start program ∈ events → program.Asks good) :
    J (run answer state events).state ∧
      ∀ r ∈ (run answer state events).threads, ∀ a ∈ r.answers, G a := by
  suffices h : J (run answer state events).state ∧
      ∀ r ∈ (run answer state events).threads, r.program.Asks good ∧ ∀ a ∈ r.answers, G a by
    exact ⟨h.1, fun r hr => (h.2 r hr).2⟩
  refine run_invariant (I := fun s => J s.state ∧
    ∀ r ∈ s.threads, r.program.Asks good ∧ ∀ a ∈ r.answers, G a) ?_ ?_
  · refine ⟨hstate, ?_⟩
    intro r hr
    cases hr
  · rintro s e he ⟨hJ, hG⟩
    obtain ⟨program, rfl, hnew⟩ | hsame | ⟨i, r₀, r', q, outside, hr₀, ⟨next, hnext⟩, hprogram,
      hanswers, hnew⟩ := step_cases answer s e
    · rw [hnew]
      refine ⟨hJ, fun r hr => ?_⟩
      obtain hr | hr := List.mem_append.mp hr
      · exact hG r hr
      · obtain rfl := List.mem_singleton.mp hr
        refine ⟨hasks program he, ?_⟩
        intro a ha
        cases ha
    · rw [hsame]
      exact ⟨hJ, hG⟩
    · obtain ⟨hprogram₀, hG₀⟩ := hG r₀ (List.mem_of_getElem? hr₀)
      have hrest := hprogram₀.of_follows r₀.follows
      rw [hnext] at hrest
      obtain ⟨hJ', hG'⟩ := hanswer q outside s.state hrest.1 hJ
      rw [hnew]
      refine ⟨hJ', fun r hr => ?_⟩
      obtain hr | rfl := List.mem_or_eq_of_mem_set hr
      · exact hG r hr
      · refine ⟨hprogram ▸ hprogram₀, ?_⟩
        intro a ha
        rw [hanswers] at ha
        obtain ha | ha := List.mem_append.mp ha
        · exact hG₀ a ha
        · obtain rfl := List.mem_singleton.mp ha
          exact hG'

/-! ### Tickets -/

section Tickets

variable {ν : Type} (ticket : QueryAnswer Q A → Option ν)

/-- The tickets that a thread was handed among its answers, in their order. -/
def Running.tickets (r : Running Q A α) : List ν := r.answers.filterMap ticket

/-- The tickets that all the threads have drawn, thread by thread. -/
def Shared.tickets (s : Shared Q A α σ) : List ν := s.threads.flatMap (Running.tickets ticket)

/-- Replacing one part adds what the new part adds. -/
theorem flatMap_set_perm {γ δ : Type} (f : γ → List δ) {parts : List γ} {i : ℕ} {c c' : γ}
    {extra : List δ} (hc : parts[i]? = some c) (hextra : f c' = f c ++ extra) :
    ((parts.set i c').flatMap f).Perm (parts.flatMap f ++ extra) := by
  induction parts generalizing i with
  | nil => cases hc
  | cons d parts ih =>
    cases i with
    | zero =>
      obtain rfl : d = c := Option.some.inj hc
      rw [List.set_cons_zero, List.flatMap_cons, List.flatMap_cons, hextra, List.append_assoc,
        List.append_assoc]
      exact List.perm_append_comm.append_left (f d)
    | succ i =>
      rw [List.set_cons_succ, List.flatMap_cons, List.flatMap_cons, List.append_assoc]
      exact (ih hc).append_left (f d)

/-- The handler issues the tickets in order: each answer with a ticket has the next one. -/
structure Issues (answer : (q : Q) → ι → σ → A q × σ) (ticket : QueryAnswer Q A → Option ν)
    (issued : σ → ℕ) (issue : ℕ → ν) : Prop where
  /-- The ticket in an answer is the next one. -/
  next : ∀ q outside state v, ticket ⟨q, (answer q outside state).1⟩ = some v →
    v = issue (issued state) ∧ issued (answer q outside state).2 = issued state + 1
  /-- No other answer counts. -/
  same : ∀ q outside state, ticket ⟨q, (answer q outside state).1⟩ = none →
    issued (answer q outside state).2 = issued state

variable {ticket} {issued : σ → ℕ} {issue : ℕ → ν}

/-- A handler that hands out the next ticket each time has handed out all tickets up to the
last one, each to one thread and once. -/
theorem tickets_perm (hticket : Issues answer ticket issued issue) (state : σ)
    (events : List (ThreadEvent Q A α ι)) :
    ∃ k ≤ events.length, issued (run answer state events).state = issued state + k ∧
      ((run answer state events).tickets ticket).Perm
        ((List.range' (issued state) k).map issue) := by
  unfold run
  induction events using List.reverseRecOn with
  | nil => exact ⟨0, Nat.le_refl 0, rfl, List.Perm.refl _⟩
  | append_singleton events e ih =>
    obtain ⟨k, hk, hissued, hperm⟩ := ih
    rw [List.foldl_append, List.length_append]
    generalize events.foldl (step answer) ⟨state, []⟩ = s at hissued hperm
    obtain ⟨program, rfl, hnew⟩ | hsame | ⟨i, r₀, r', q, outside, hr₀, -, -, hanswers, hnew⟩ :=
      step_cases answer s e
    · refine ⟨k, by omega, ?_⟩
      rw [List.foldl_cons, List.foldl_nil, hnew]
      refine ⟨hissued, ?_⟩
      have hsame : Shared.tickets ticket
          (⟨s.state, s.threads ++ [Running.start program]⟩ : Shared Q A α σ) =
            s.tickets ticket := by
        simp [Shared.tickets, Running.tickets, Running.start]
      rw [hsame]
      exact hperm
    · refine ⟨k, by omega, ?_⟩
      rw [List.foldl_cons, List.foldl_nil, hsame]
      exact ⟨hissued, hperm⟩
    · have hanswers' : r'.tickets ticket =
          r₀.tickets ticket ++ (ticket ⟨q, (answer q outside s.state).1⟩).toList := by
        rw [Running.tickets, hanswers, List.filterMap_append]
        cases h : ticket ⟨q, (answer q outside s.state).1⟩ <;> simp [Running.tickets, h]
      have hset := flatMap_set_perm (Running.tickets ticket) hr₀ hanswers'
      rw [List.foldl_cons, List.foldl_nil, hnew]
      have hall := hset.trans (hperm.append_right _)
      cases hv : ticket ⟨q, (answer q outside s.state).1⟩ with
      | none =>
        rw [hv] at hall
        refine ⟨k, by omega, (hticket.same _ _ _ hv).trans hissued, ?_⟩
        rwa [Option.toList_none, List.append_nil] at hall
      | some v =>
        rw [hv] at hall
        obtain ⟨rfl, hnext⟩ := hticket.next _ _ _ _ hv
        refine ⟨k + 1, by rw [List.length_singleton]; omega, by rw [hnext, hissued]; omega, ?_⟩
        rw [List.range'_1_concat, List.map_append, List.map_singleton, ← hissued]
        exact hall

/-- Two threads are never handed the same ticket, as long as tickets differ up to the number of
events. -/
theorem tickets_apart (hticket : Issues answer ticket issued issue) {state : σ}
    {events : List (ThreadEvent Q A α ι)}
    (hissue : Set.InjOn issue {n | n < issued state + events.length})
    {i j : ℕ} {r r' : Running Q A α} (hr : (run answer state events).threads[i]? = some r)
    (hr' : (run answer state events).threads[j]? = some r') (hij : i ≠ j) {v : ν}
    (hv : v ∈ r.tickets ticket) : v ∉ r'.tickets ticket := by
  obtain ⟨k, hk, -, hperm⟩ := tickets_perm hticket state events
  have hnodup : ((run answer state events).tickets ticket).Nodup := by
    rw [hperm.nodup_iff]
    apply List.Nodup.map_on
    · intro m hm n hn heq
      apply hissue _ _ heq
      · have := (List.mem_range'_1.mp hm).2
        show m < _
        omega
      · have := (List.mem_range'_1.mp hn).2
        show n < _
        omega
    · exact List.nodup_range'
  have hpairs := List.pairwise_iff_getElem.mp (List.nodup_flatMap.mp hnodup).2
  obtain ⟨hi, rfl⟩ := List.getElem?_eq_some_iff.mp hr
  obtain ⟨hj, rfl⟩ := List.getElem?_eq_some_iff.mp hr'
  intro hv'
  obtain hlt | hgt := Nat.lt_or_gt_of_ne hij
  · exact hpairs i j hi hj hlt hv hv'
  · exact hpairs j i hj hi hgt hv' hv

end Tickets

end Runs

end Concurrent
