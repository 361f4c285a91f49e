import Mathlib.Algebra.GroupWithZero.Nat
import Mathlib.Data.List.Infix
import Mathlib.Tactic.Common

/-!
# Readers over a string of symbols

A reader consumes a front part of its input and returns a result together with
the input that is left, or fails. Five notions carry the proofs about readers.
`Reads` says that a reader consumes exactly a given encoding in front of every
suffix. `Stable` says that a success is not affected by further input, and `Local` that it
depends on the consumed part only. `Pays` bounds the size of a result by the input
consumed. `AgreeUpTo` compares two readers on all inputs up to a length, which is how a
recursion bounded by the input length is related to the unbounded one. Each notion
has one rule for each combinator.
-/

namespace Codec

/-! ## Lengths of concatenations -/

/-- Parts of at least `k` symbols each make up at least `k` times as many symbols as there are
parts. -/
theorem mul_length_le_length_flatMap {α β : Type} {f : α → List β} {k : ℕ}
    (hf : ∀ a, k ≤ (f a).length) (items : List α) :
    k * items.length ≤ (items.flatMap f).length := by
  induction items with
  | nil => simp
  | cons a items ih =>
    have ha := hf a
    simp only [List.flatMap_cons, List.length_append, List.length_cons, Nat.mul_succ]
    omega

/-- A part of a concatenation is no longer than the whole. -/
theorem length_le_length_flatMap {α β : Type} {f : α → List β} {a : α} {items : List α}
    (ha : a ∈ items) : (f a).length ≤ (items.flatMap f).length := by
  rw [List.flatMap_def]
  exact (List.sublist_flatten_of_mem (List.mem_map_of_mem ha)).length_le

/-! ## Readers -/

/-- A reader over symbols `β` with errors `ε`. -/
abbrev Reader (β ε α : Type) := StateT (List β) (Except ε) α

namespace Reader

variable {β ε α γ : Type}

/-- The reader that fails with an error and consumes nothing. -/
def fail (e : ε) : Reader β ε α := fun _ => .error e

/-- Read the next symbol, or fail where there is none. -/
def symbol (short : ε) : Reader β ε β
  | [] => .error short
  | b :: rest => .ok (b, rest)

/-- Read the next `n` symbols, or fail where there are not as many. -/
def take (short : ε) (n : ℕ) : Reader β ε (List β) := fun input =>
  if n ≤ input.length then .ok (input.take n, input.drop n) else .error short

/-- Fail with `e` unless `p` holds of the number of symbols left. -/
def ensure (p : ℕ → Prop) [DecidablePred p] (e : ε) : Reader β ε Unit := fun input =>
  if p input.length then .ok ((), input) else .error e

/-- Go on with a value that is present, and fail with an error when it is absent. -/
def ofOption (e : ε) : Option α → Reader β ε α
  | none => fail e
  | some a => pure a

/-- Run a reader `n` times and collect the results in order. -/
def times : ℕ → Reader β ε α → Reader β ε (List α)
  | 0, _ => pure []
  | n + 1, r => do
    let a ← r
    let rest ← times n r
    pure (a :: rest)

/-- Run a reader `n` times, handing a state from one run to the next. -/
def iterate {σ : Type} : ℕ → (σ → Reader β ε σ) → σ → Reader β ε σ
  | 0, _, state => pure state
  | n + 1, body, state => do
    let state ← body state
    iterate n body state

/-- The next symbol, which stays in the input. -/
def peek : Reader β ε (Option β) := fun input => .ok (input.head?, input)

/-- The number of symbols read so far, out of a total. -/
def position (total : ℕ) : Reader β ε ℕ := fun input => .ok (total - input.length, input)

/-- The result of a reader that must leave no input; anything left is the error `trailing`. -/
def whole (trailing : ε) (r : Reader β ε α) (input : List β) : Except ε α :=
  match r input with
  | .ok (a, []) => .ok a
  | .ok (_, _ :: _) => .error trailing
  | .error e => .error e

/-- The result of a reader, whatever input it leaves. -/
def parse (r : Reader β ε α) (input : List β) : Except ε α :=
  match r input with
  | .ok (a, _) => .ok a
  | .error e => .error e

/-- A returned value leaves the input as it is. -/
@[simp] theorem pure_apply (a : α) (input : List β) :
    (pure a : Reader β ε α) input = .ok (a, input) := rfl

/-- A reader that fails does so on every input, with the same error. -/
@[simp] theorem fail_apply (e : ε) (input : List β) :
    (fail e : Reader β ε α) input = .error e := rfl

/-- A sequence runs its continuation on what the first reader left. -/
theorem bind_apply (r : Reader β ε α) (f : α → Reader β ε γ) (input : List β) :
    (r >>= f) input = match r input with
      | .ok (a, rest) => f a rest
      | .error e => .error e := by
  change Except.bind (r input) _ = _
  cases r input <;> rfl

/-- When the first reader succeeds, a sequence does what the second one does with the rest. -/
theorem bind_of_ok {r : Reader β ε α} {input middle : List β} {a : α}
    (h : r input = .ok (a, middle)) (f : α → Reader β ε γ) : (r >>= f) input = f a middle := by
  rw [bind_apply, h]

/-- When two readers in sequence succeed, the first did and the second did on what it left. -/
theorem bind_eq_ok {r : Reader β ε α} {f : α → Reader β ε γ} {input : List β} {c : γ}
    {rest : List β} (h : (r >>= f) input = .ok (c, rest)) :
    ∃ a middle, r input = .ok (a, middle) ∧ f a middle = .ok (c, rest) := by
  rw [bind_apply] at h
  cases hr : r input with
  | error e => simp [hr] at h
  | ok result =>
    obtain ⟨a, middle⟩ := result
    exact ⟨a, middle, rfl, by simpa [hr] using h⟩

/-- A value that is present is returned without reading anything. -/
@[simp] theorem ofOption_some (e : ε) (a : α) :
    (ofOption e (some a) : Reader β ε α) = pure a := rfl

/-- The value a successful conversion returns was present. -/
theorem ofOption_eq_ok {e : ε} {value : Option α} {input rest : List β} {a : α}
    (h : ofOption e value input = .ok (a, rest)) : value = some a ∧ input = rest := by
  cases value with
  | none => simp [ofOption] at h
  | some b => simpa using h

/-- Success of a fixed-length read splits the input. -/
theorem take_eq_ok {short : ε} {n : ℕ} {input out rest : List β}
    (h : take short n input = .ok (out, rest)) : input = out ++ rest ∧ out.length = n := by
  unfold take at h
  split at h
  · next hn =>
    obtain ⟨rfl, rfl⟩ : input.take n = out ∧ input.drop n = rest := by simpa using h
    exact ⟨(List.take_append_drop n input).symm, List.length_take_of_le hn⟩
  · cases h

/-- Success of a one-symbol read splits the input. -/
theorem symbol_eq_ok {short : ε} {input rest : List β} {b : β}
    (h : symbol short input = .ok (b, rest)) : input = b :: rest := by
  cases input with
  | nil => cases h
  | cons c input =>
    obtain ⟨rfl, rfl⟩ : c = b ∧ input = rest := by simpa [symbol] using h
    rfl

/-- A passed check leaves the input as it is. -/
theorem ensure_eq_ok {p : ℕ → Prop} [DecidablePred p] {e : ε} {input rest : List β} {u : Unit}
    (h : ensure p e input = .ok (u, rest)) : p input.length ∧ input = rest := by
  unfold ensure at h
  split at h
  · next hp => exact ⟨hp, by simpa using h⟩
  · cases h

/-! ## Reading back an encoding -/

/-- The reader consumes exactly `bytes`, whatever follows, and returns `a`. -/
def Reads (r : Reader β ε α) (bytes : List β) (a : α) : Prop :=
  ∀ rest, r (bytes ++ rest) = .ok (a, rest)

/-- The reader that returns a value does so on the empty encoding. -/
theorem Reads.pure (a : α) : Reads (pure a : Reader β ε α) [] a := fun _ => rfl

/-- Readers in sequence read what was written in sequence. -/
theorem Reads.bind {r : Reader β ε α} {f : α → Reader β ε γ} {x y : List β} {a : α} {c : γ}
    (hr : Reads r x a) (hf : Reads (f a) y c) : Reads (r >>= f) (x ++ y) c := by
  intro rest
  rw [bind_apply, List.append_assoc, hr (y ++ rest)]
  exact hf rest

/-- What a reader reads back it also reads back when its result is converted. -/
theorem Reads.map {r : Reader β ε α} {x : List β} {a : α} (hr : Reads r x a) (f : α → γ) :
    Reads (r >>= fun a => Pure.pure (f a)) x (f a) := by
  have h := hr.bind (f := fun a => Pure.pure (f a)) (Reads.pure (f a))
  rwa [List.append_nil] at h

/-- A symbol is read back as the single symbol it was written as. -/
theorem Reads.symbol (short : ε) (b : β) : Reads (symbol short) [b] b := fun _ => rfl

/-- A string of the requested length is its own encoding. -/
theorem Reads.take (short : ε) {n : ℕ} {x : List β} (hx : x.length = n) :
    Reads (take short n) x x := by
  intro rest
  subst hx
  simp [Reader.take]

/-- A check that the encoding already satisfies by its own length passes. -/
theorem Reads.ensure {p : ℕ → Prop} [DecidablePred p] {e : ε} {r : Reader β ε α} {x : List β}
    {a : α} (hp : ∀ n, x.length ≤ n → p n) (hr : Reads r x a) :
    Reads (Reader.ensure p e >>= fun _ => r) x a := by
  intro rest
  have hlen : p (x ++ rest).length := hp _ (by simp)
  simp only [bind_apply, Reader.ensure, if_pos hlen]
  exact hr rest

/-- A counted run reads a list whose elements are each read. -/
theorem Reads.times {r : Reader β ε α} {enc : α → List β} {items : List α}
    (hr : ∀ a ∈ items, Reads r (enc a) a) :
    Reads (times items.length r) (items.flatMap enc) items := by
  induction items with
  | nil => exact Reads.pure []
  | cons a items ih =>
    have hrest := (ih fun b hb => hr b (List.mem_cons_of_mem a hb)).map (fun rest => a :: rest)
    exact (hr a List.mem_cons_self).bind hrest

/-! ## Stability under further input -/

/-- A success is kept, with the additional input left over, when input is added. -/
def Stable (r : Reader β ε α) : Prop :=
  ∀ input a rest, r input = .ok (a, rest) → ∀ more, r (input ++ more) = .ok (a, rest ++ more)

/-- Returning a value does not look at the input. -/
theorem Stable.pure (a : α) : Stable (pure a : Reader β ε α) := by
  intro input b rest h more
  obtain ⟨rfl, rfl⟩ : a = b ∧ input = rest := by simpa using h
  rfl

/-- A reader that always fails has no success to keep. -/
theorem Stable.fail (e : ε) : Stable (fail e : Reader β ε α) := by
  intro input a rest h
  cases h

/-- Two stable readers in sequence are a stable reader, so that stability is proved reader by
reader. -/
theorem Stable.bind {r : Reader β ε α} {f : α → Reader β ε γ} (hr : Stable r)
    (hf : ∀ a, Stable (f a)) : Stable (r >>= f) := by
  intro input c rest h more
  obtain ⟨a, middle, hra, hfa⟩ := bind_eq_ok h
  rw [bind_apply, hr _ _ _ hra more]
  exact hf a _ _ _ hfa more

/-- Reading one symbol is stable: what comes behind it does not matter. -/
theorem Stable.symbol (short : ε) : Stable (symbol short : Reader β ε β) := by
  intro input b rest h more
  rw [symbol_eq_ok h]
  rfl

/-- Reading a fixed number of symbols is stable: more input behind a successful reading does not
change it. -/
theorem Stable.take (short : ε) (n : ℕ) : Stable (take short n : Reader β ε (List β)) := by
  intro input out rest h more
  obtain ⟨rfl, hlen⟩ := take_eq_ok h
  rw [List.append_assoc]
  exact Reads.take short hlen _

/-- A check on the symbols left is stable when more symbols cannot break it. -/
theorem Stable.ensure {p : ℕ → Prop} [DecidablePred p] {e : ε}
    (hp : ∀ m n, m ≤ n → p m → p n) : Stable (Reader.ensure p e : Reader β ε Unit) := by
  intro input u rest h more
  obtain ⟨hpass, rfl⟩ := ensure_eq_ok h
  have hlen : p (input ++ more).length := hp _ _ (by simp) hpass
  simp only [Reader.ensure, if_pos hlen]

/-- Going on with an optional value reads nothing, and so does not depend on what follows. -/
theorem Stable.ofOption (e : ε) (value : Option α) :
    Stable (ofOption e value : Reader β ε α) := by
  cases value with
  | none => exact Stable.fail e
  | some a => exact Stable.pure a

/-- A counted run of a stable reader is stable. -/
theorem Stable.times {r : Reader β ε α} (hr : Stable r) (n : ℕ) : Stable (times n r) := by
  induction n with
  | zero => exact Stable.pure []
  | succ n ih => exact hr.bind fun a => ih.bind fun rest => Stable.pure (a :: rest)

/-- An encoding that a stable reader consumes has no proper prefix it accepts. -/
theorem Reads.prefix_rejected {r : Reader β ε α} {bytes p : List β} {a : α}
    (hr : Reads r bytes a) (hs : Stable r) (hp : p <+: bytes) (hne : p ≠ bytes) :
    ∃ e, r p = .error e := by
  obtain ⟨q, rfl⟩ := hp
  cases h : r p with
  | error e => exact ⟨e, rfl⟩
  | ok result =>
    obtain ⟨b, rest⟩ := result
    have hlong := hs _ _ _ h q
    have hexact := hr []
    rw [List.append_nil, hlong] at hexact
    have hq : rest ++ q = [] := (Prod.mk.inj (Except.ok.inj hexact)).2
    exact absurd (by simp [(List.append_eq_nil_iff.mp hq).2]) hne

/-- On a prefix of concatenated encodings the first reader fails or the second one reads a
prefix of its own. -/
theorem Reads.bind_of_front {r : Reader β ε α} {f : α → Reader β ε γ} {x y p : List β} {a : α}
    (hr : Reads r x a) (hs : Stable r) (hp : p <+: x ++ y) :
    (∃ e, (r >>= f) p = .error e) ∨ ∃ q, q <+: y ∧ p = x ++ q ∧ (r >>= f) p = f a q := by
  by_cases hlong : x <+: p
  · obtain ⟨q, rfl⟩ := hlong
    exact .inr ⟨q, (List.prefix_append_right_inj x).mp hp, rfl, bind_of_ok (hr q) f⟩
  · have hshort : p <+: x :=
      (List.prefix_or_prefix_of_prefix hp (List.prefix_append x y)).resolve_right hlong
    have hne : p ≠ x := by
      rintro rfl
      exact hlong List.prefix_rfl
    obtain ⟨e, he⟩ := hr.prefix_rejected hs hshort hne
    exact .inl ⟨e, by rw [bind_apply, he]⟩

/-- What a reader consumes exactly is parsed in front of every suffix. -/
theorem Reads.parse {r : Reader β ε α} {bytes : List β} {a : α} (hr : Reads r bytes a)
    (rest : List β) : r.parse (bytes ++ rest) = .ok a := by
  rw [Reader.parse, hr rest]

/-- A failure of a reader is a failure to parse. -/
theorem parse_eq_error {r : Reader β ε α} {input : List β} {e : ε} (h : r input = .error e) :
    r.parse input = .error e := by
  rw [parse, h]

/-- A parsed result is one the reader returned. -/
theorem parse_eq_ok {r : Reader β ε α} {input : List β} {a : α} (h : r.parse input = .ok a) :
    ∃ rest, r input = .ok (a, rest) := by
  unfold parse at h
  split at h
  · next b rest hr =>
    obtain rfl := Except.ok.inj h
    exact ⟨rest, hr⟩
  · cases h

/-! ## Input is only consumed -/

/-- What a success leaves is no longer than what it was given. -/
def Shrinks (r : Reader β ε α) : Prop :=
  ∀ input a rest, r input = .ok (a, rest) → rest.length ≤ input.length

/-- Returning a value leaves the input as it is, and so no longer. -/
theorem Shrinks.pure (a : α) : Shrinks (pure a : Reader β ε α) := by
  intro input b rest h
  obtain ⟨-, rfl⟩ : a = b ∧ input = rest := by simpa using h
  exact le_rfl

/-- Readers in sequence leave no more input than they got, when each of them does. -/
theorem Shrinks.bind {r : Reader β ε α} {f : α → Reader β ε γ} (hr : Shrinks r)
    (hf : ∀ a, Shrinks (f a)) : Shrinks (r >>= f) := by
  intro input c rest h
  obtain ⟨a, middle, hra, hfa⟩ := bind_eq_ok h
  exact le_trans (hf a _ _ _ hfa) (hr _ _ _ hra)

/-- Every success satisfies `P` and pays for its result: the size of the result
and the input left fit into a credit and the input given. -/
def Pays (credit : ℕ) (r : Reader β ε α) (P : α → Prop) (size : α → ℕ) : Prop :=
  ∀ input a rest, r input = .ok (a, rest) → P a ∧ size a + rest.length ≤ credit + input.length

/-- A reader that pays for its results out of its input never puts input back. -/
theorem Pays.shrinks {r : Reader β ε α} {P : α → Prop} {size : α → ℕ} (hr : Pays 0 r P size) :
    Shrinks r := fun input a rest h => by
  have := (hr input a rest h).2
  omega

/-- A returned value is paid for by the credit. -/
theorem Pays.pure {credit : ℕ} {a : α} {P : α → Prop} {size : α → ℕ} (ha : P a)
    (hsize : size a ≤ credit) : Pays credit (pure a : Reader β ε α) P size := by
  intro input b rest h
  obtain ⟨rfl, rfl⟩ : a = b ∧ input = rest := by simpa using h
  exact ⟨ha, by omega⟩

/-- What the first reader paid for is the credit of the second. -/
theorem Pays.bind {credit : ℕ} {r : Reader β ε α} {f : α → Reader β ε γ} {P : α → Prop}
    {size : α → ℕ} {Q : γ → Prop} {size' : γ → ℕ} (hr : Pays credit r P size)
    (hf : ∀ a, P a → Pays (size a) (f a) Q size') : Pays credit (r >>= f) Q size' := by
  intro input c rest h
  obtain ⟨a, middle, hra, hfa⟩ := bind_eq_ok h
  obtain ⟨hP, hsize⟩ := hr _ _ _ hra
  obtain ⟨hQ, hsize'⟩ := hf a hP _ _ _ hfa
  exact ⟨hQ, by omega⟩

/-- A symbol that is read has taken one symbol of the input. -/
theorem Pays.symbol (credit : ℕ) (short : ε) :
    Pays credit (symbol short : Reader β ε β) (fun _ => True) (fun _ => credit + 1) := by
  intro input b rest h
  rw [symbol_eq_ok h, List.length_cons]
  exact ⟨trivial, by dsimp only; omega⟩

/-- A read of `n` symbols adds `n` to the credit. -/
theorem Pays.take (credit : ℕ) (short : ε) (n : ℕ) :
    Pays credit (take short n : Reader β ε (List β)) (fun out => out.length = n)
      (fun _ => credit + n) := by
  intro input out rest h
  obtain ⟨rfl, hlen⟩ := take_eq_ok h
  rw [List.length_append]
  exact ⟨hlen, by dsimp only; omega⟩

/-- A check consumes nothing, and passes the credit on to what follows it. -/
theorem Pays.ensure (credit : ℕ) (p : ℕ → Prop) [DecidablePred p] (e : ε) :
    Pays credit (Reader.ensure p e : Reader β ε Unit) (fun _ => True) (fun _ => credit) := by
  intro input u rest h
  obtain ⟨-, rfl⟩ := ensure_eq_ok h
  exact ⟨trivial, le_rfl⟩

/-- A conversion consumes nothing, and passes the credit on to what follows it. -/
theorem Pays.ofOption (credit : ℕ) (e : ε) (value : Option α) :
    Pays credit (ofOption e value : Reader β ε α) (fun a => value = some a) (fun _ => credit) := by
  intro input a rest h
  obtain ⟨hvalue, rfl⟩ := ofOption_eq_ok h
  exact ⟨hvalue, le_rfl⟩

/-- A counted run adds the sum of its elements to the credit. -/
theorem Pays.times (credit : ℕ) {r : Reader β ε α} {P : α → Prop} {size : α → ℕ}
    (hr : Pays 0 r P size) (n : ℕ) :
    Pays credit (times n r) (fun items => items.length = n ∧ ∀ a ∈ items, P a)
      (fun items => credit + (items.map size).sum) := by
  induction n with
  | zero => exact Pays.pure (by simp) (by simp)
  | succ n ih =>
    intro input items rest h
    obtain ⟨a, middle, ha, htail⟩ := bind_eq_ok h
    obtain ⟨tail, middle', hrun, hout⟩ := bind_eq_ok htail
    obtain ⟨rfl, rfl⟩ : a :: tail = items ∧ middle' = rest := by simpa using hout
    obtain ⟨hPa, hsize⟩ := hr _ _ _ ha
    obtain ⟨⟨hlen, hP⟩, hsizes⟩ := ih _ _ _ hrun
    refine ⟨⟨by simp [hlen], ?_⟩, ?_⟩
    · simpa [hPa] using hP
    · dsimp only at hsizes
      simp only [List.map_cons, List.sum_cons]
      omega

/-- A counted run of a reader that takes at least `k` symbols takes `k` for each element. -/
theorem Pays.mul_add_length_le {r : Reader β ε α} {P : α → Prop} {size : α → ℕ} {k : ℕ}
    (hr : Pays 0 r P size) (hsize : ∀ a, P a → k ≤ size a) {n : ℕ} {input rest : List β}
    {items : List α} (h : Reader.times n r input = .ok (items, rest)) :
    n * k + rest.length ≤ input.length := by
  induction n generalizing input items with
  | zero =>
    obtain ⟨-, rfl⟩ : [] = items ∧ input = rest := by simpa [Reader.times] using h
    omega
  | succ n ih =>
    obtain ⟨a, middle, ha, htail⟩ := bind_eq_ok h
    obtain ⟨tail, middle', hrun, hout⟩ := bind_eq_ok htail
    obtain ⟨-, rfl⟩ : a :: tail = items ∧ middle' = rest := by simpa using hout
    obtain ⟨hPa, hpaid⟩ := hr _ _ _ ha
    have hrest := ih hrun
    have hk := hsize a hPa
    rw [Nat.succ_mul]
    omega

/-! ## What results satisfy -/

/-- Every value that the reader returns, on whatever input, satisfies `P`. -/
def Yields (r : Reader β ε α) (P : α → Prop) : Prop :=
  ∀ input a rest, r input = .ok (a, rest) → P a

/-- The value that is returned without reading is the only one that is returned. -/
theorem Yields.pure {a : α} {P : α → Prop} (ha : P a) : Yields (pure a : Reader β ε α) P := by
  intro input b rest h
  obtain ⟨rfl, -⟩ : a = b ∧ input = rest := by simpa using h
  exact ha

/-- A reader that always fails returns nothing, and so only what satisfies `P`. -/
theorem Yields.fail (e : ε) (P : α → Prop) : Yields (fail e : Reader β ε α) P := by
  intro input a rest h
  cases h

/-- What the first reader returns is known to the second. -/
theorem Yields.bind {r : Reader β ε α} {f : α → Reader β ε γ} {P : α → Prop} {Q : γ → Prop}
    (hr : Yields r P) (hf : ∀ a, P a → Yields (f a) Q) : Yields (r >>= f) Q := by
  intro input c rest h
  obtain ⟨a, middle, hra, hfa⟩ := bind_eq_ok h
  exact hf a (hr _ _ _ hra) _ _ _ hfa

/-- Nothing needs to be known about a result, which starts a chain of readers whose first one does
not matter. -/
theorem Yields.trivial (r : Reader β ε α) : Yields r fun _ => True :=
  fun _ _ _ _ => True.intro

/-- A read of a fixed length returns that many symbols or nothing. -/
theorem Yields.take (short : ε) (n : ℕ) :
    Yields (take short n : Reader β ε (List β)) fun out => out.length = n :=
  fun _ _ _ h => (take_eq_ok h).2

/-- A conversion returns the value that was present. -/
theorem Yields.ofOption (e : ε) (value : Option α) :
    Yields (ofOption e value : Reader β ε α) fun a => value = some a :=
  fun _ _ _ h => (ofOption_eq_ok h).1

/-- A counted run returns as many values, each one the reader returns. -/
theorem Yields.times {r : Reader β ε α} {P : α → Prop} (hr : Yields r P) (n : ℕ) :
    Yields (times n r) fun items => items.length = n ∧ ∀ a ∈ items, P a := by
  induction n with
  | zero => exact Yields.pure (by simp)
  | succ n ih =>
    refine hr.bind fun a ha => ih.bind fun rest hrest => Yields.pure ?_
    exact ⟨by simp [hrest.1], List.forall_mem_cons.mpr ⟨ha, hrest.2⟩⟩

/-- A parsed result satisfies what the reader yields. -/
theorem Yields.parse {r : Reader β ε α} {P : α → Prop} (hr : Yields r P) {input : List β} {a : α}
    (h : r.parse input = .ok a) : P a := by
  obtain ⟨rest, h⟩ := parse_eq_ok h
  exact hr _ _ _ h

/-! ## Agreement on bounded inputs -/

/-- Two readers give the same result on every input of at most `n` symbols. -/
def AgreeUpTo (n : ℕ) (r r' : Reader β ε α) : Prop :=
  ∀ input : List β, input.length ≤ n → r input = r' input

/-- A reader agrees with itself on inputs of any length. -/
theorem AgreeUpTo.refl (n : ℕ) (r : Reader β ε α) : AgreeUpTo n r r := fun _ _ => rfl

/-- Readers in sequence agree when the first ones do and what follows them does, on inputs that have
become shorter. -/
theorem AgreeUpTo.bind {n : ℕ} {r r' : Reader β ε α} {f f' : α → Reader β ε γ}
    (hr : AgreeUpTo n r r') (hshrinks : Shrinks r') (hf : ∀ a, AgreeUpTo n (f a) (f' a)) :
    AgreeUpTo n (r >>= f) (r' >>= f') := by
  intro input hlen
  rw [bind_apply, bind_apply, hr input hlen]
  cases h : r' input with
  | error e => rfl
  | ok result =>
    obtain ⟨a, rest⟩ := result
    exact hf a rest (le_trans (hshrinks _ _ _ h) hlen)

/-- Readers that agree may be followed by one continuation. -/
theorem AgreeUpTo.bind_left {n : ℕ} {r r' : Reader β ε α} (hr : AgreeUpTo n r r')
    (f : α → Reader β ε γ) : AgreeUpTo n (r >>= f) (r' >>= f) := by
  intro input hlen
  rw [bind_apply, bind_apply, hr input hlen]

/-- After one symbol the continuations need to agree on shorter inputs only. -/
theorem AgreeUpTo.symbol_bind {n : ℕ} (short : ε) {f f' : β → Reader β ε γ}
    (hf : ∀ b, AgreeUpTo n (f b) (f' b)) :
    AgreeUpTo (n + 1) (symbol short >>= f) (symbol short >>= f') := by
  intro input hlen
  cases input with
  | nil => rfl
  | cons b input => exact hf b input (by simpa using hlen)

/-- Two readers that agree on short inputs also agree when each is run a number of times. -/
theorem AgreeUpTo.times {n : ℕ} {r r' : Reader β ε α} (hr : AgreeUpTo n r r')
    (hshrinks : Shrinks r') (k : ℕ) : AgreeUpTo n (times k r) (times k r') := by
  induction k with
  | zero => exact AgreeUpTo.refl n _
  | succ k ih => exact hr.bind hshrinks fun a => ih.bind_left _

/-! ## Dependence on the consumed part -/

/-- A success reads an encoding: what was consumed is read in the same way in front of
any other input. -/
def Local (r : Reader β ε α) : Prop :=
  ∀ input a rest, r input = .ok (a, rest) → ∃ used, input = used ++ rest ∧ Reads r used a

/-- The reader that returns a value leaves the whole input, whatever it is. -/
theorem Local.pure (a : α) : Local (pure a : Reader β ε α) := by
  intro input b rest h
  obtain ⟨rfl, rfl⟩ : a = b ∧ input = rest := by simpa using h
  exact ⟨[], rfl, Reads.pure a⟩

/-- A reader that always fails consumes nothing, and so depends on nothing. -/
theorem Local.fail (e : ε) : Local (fail e : Reader β ε α) := by
  intro input a rest h
  cases h

/-- Readers in sequence consume their parts one after the other. -/
theorem Local.bind {r : Reader β ε α} {f : α → Reader β ε γ} (hr : Local r)
    (hf : ∀ a, Local (f a)) : Local (r >>= f) := by
  intro input c rest h
  obtain ⟨a, middle, hra, hfa⟩ := bind_eq_ok h
  obtain ⟨used, rfl, hused⟩ := hr _ _ _ hra
  obtain ⟨used', rfl, hused'⟩ := hf a _ _ _ hfa
  exact ⟨used ++ used', (List.append_assoc _ _ _).symm, hused.bind hused'⟩

/-- Reading one symbol leaves the input behind it and looks no further. -/
theorem Local.symbol (short : ε) : Local (symbol short : Reader β ε β) := by
  intro input b rest h
  exact ⟨[b], symbol_eq_ok h, Reads.symbol short b⟩

/-- A read of a fixed length depends only on the symbols it consumes. -/
theorem Local.take (short : ε) (n : ℕ) : Local (take short n : Reader β ε (List β)) := by
  intro input out rest h
  obtain ⟨hinput, hlen⟩ := take_eq_ok h
  exact ⟨out, hinput, Reads.take short hlen⟩

/-- Going on with an optional value consumes nothing and depends on no input. -/
theorem Local.ofOption (e : ε) (value : Option α) : Local (ofOption e value : Reader β ε α) := by
  cases value with
  | none => exact Local.fail e
  | some a => exact Local.pure a

/-- A check that the part read after it always passes by its own length. -/
theorem Local.ensure {p : ℕ → Prop} [DecidablePred p] {e : ε} {r : Reader β ε α} (hr : Local r)
    (hp : ∀ used a, Reads r used a → ∀ n, used.length ≤ n → p n) :
    Local (Reader.ensure p e >>= fun _ => r) := by
  intro input a rest h
  obtain ⟨_, middle, hensure, hra⟩ := bind_eq_ok h
  obtain ⟨-, rfl⟩ := ensure_eq_ok hensure
  obtain ⟨used, rfl, hused⟩ := hr _ _ _ hra
  exact ⟨used, rfl, Reads.ensure (hp used a hused) hused⟩

/-- A counted run consumes the parts of its elements. -/
theorem Local.times {r : Reader β ε α} (hr : Local r) (n : ℕ) : Local (times n r) := by
  induction n with
  | zero => exact Local.pure []
  | succ n ih => exact hr.bind fun a => ih.bind fun rest => Local.pure (a :: rest)

/-- A count that is checked against the input left before as many elements are read, each
of which takes at least `k` symbols. -/
theorem Local.ensure_times {p : ℕ → Prop} [DecidablePred p] {e : ε} {r : Reader β ε α}
    {P : α → Prop} {size : α → ℕ} {k n : ℕ} (hr : Local r) (hpays : Pays 0 r P size)
    (hsize : ∀ a, P a → k ≤ size a) (hp : ∀ m, n * k ≤ m → p m) (f : List α → γ) :
    Local (Reader.ensure p e >>= fun _ =>
      Reader.times n r >>= fun items => Pure.pure (f items)) := by
  have hrun := (hr.times n).bind fun items => Local.pure (f items)
  refine hrun.ensure fun used c hused m hm => ?_
  have hread := hused []
  rw [List.append_nil] at hread
  obtain ⟨items, middle, hitems, -⟩ := bind_eq_ok hread
  have hlen := hpays.mul_add_length_le hsize hitems
  exact hp m (by omega)

/-- A reader that reads a value from some bytes does so from these bytes alone, with nothing
left. -/
theorem Reads.apply {r : Reader β ε α} {used : List β} {a : α} (h : Reads r used a) :
    r used = .ok (a, []) := by
  have hread := h []
  rwa [List.append_nil] at hread

/-! ## Following another reader -/

/-- Wherever `r` succeeds, `r'` succeeds and leaves the same input. -/
def Follows (r' : Reader β ε γ) (r : Reader β ε α) : Prop :=
  ∀ input a rest, r input = .ok (a, rest) → ∃ c, r' input = .ok (c, rest)

/-- A reader that returns without reading is followed by any other that does the same. -/
theorem Follows.pure (c : γ) (a : α) : Follows (pure c : Reader β ε γ) (pure a) := by
  intro input b rest h
  obtain ⟨-, rfl⟩ : a = b ∧ input = rest := by simpa using h
  exact ⟨c, rfl⟩

/-- One sequence of readers follows another when they begin with the same reader and what comes
behind follows. -/
theorem Follows.bind {δ : Type} {r : Reader β ε α} {f' : α → Reader β ε γ}
    {f : α → Reader β ε δ} (hf : ∀ a, Follows (f' a) (f a)) : Follows (r >>= f') (r >>= f) := by
  intro input c rest h
  obtain ⟨a, middle, hra, hfa⟩ := bind_eq_ok h
  rw [bind_apply, hra]
  exact hf a _ _ _ hfa

/-- Sequences whose first readers follow one another and whose continuations do so whatever
was read. -/
theorem Follows.bind_both {δ η : Type} {r' : Reader β ε η} {r : Reader β ε α}
    {f' : η → Reader β ε γ} {f : α → Reader β ε δ} (hr : Follows r' r)
    (hf : ∀ c a, Follows (f' c) (f a)) : Follows (r' >>= f') (r >>= f) := by
  intro input d rest h
  obtain ⟨a, middle, hra, hfa⟩ := bind_eq_ok h
  obtain ⟨c, hc⟩ := hr _ _ _ hra
  rw [bind_apply, hc]
  exact hf c a _ _ _ hfa

/-- Converting what the first reader read does not change that the second one follows it. -/
theorem Follows.map {δ : Type} {r' : Reader β ε γ} {r : Reader β ε α} (hr : Follows r' r)
    (f : α → δ) : Follows r' (r >>= fun a => Pure.pure (f a)) := by
  intro input d rest h
  obtain ⟨a, middle, hra, hout⟩ := bind_eq_ok h
  obtain ⟨-, rfl⟩ : f a = d ∧ middle = rest := by simpa using hout
  exact hr _ _ _ hra

/-- A reader that another follows is still followed when it makes a check first, since it succeeds
on fewer inputs. -/
theorem Follows.ensure {p : ℕ → Prop} [DecidablePred p] {e : ε} {r' : Reader β ε γ}
    {r : Reader β ε α} (hr : Follows r' r) :
    Follows r' (Reader.ensure p e >>= fun _ => r) := by
  intro input a rest h
  obtain ⟨_, middle, hensure, hra⟩ := bind_eq_ok h
  obtain ⟨-, rfl⟩ := ensure_eq_ok hensure
  exact hr _ _ _ hra

/-- Counted runs follow one another when their readers do. -/
theorem Follows.times {r' : Reader β ε γ} {r : Reader β ε α} (hr : Follows r' r) (n : ℕ) :
    Follows (times n r') (times n r) := by
  induction n with
  | zero => exact Follows.pure [] []
  | succ n ih => exact hr.bind_both fun c a => ih.bind_both fun cs as => Follows.pure _ _

/-- A loop that follows a counted run and keeps a relation between the elements read so
far, its state and the input left. -/
theorem iterate_of_times {σ : Type} {r : Reader β ε α} {body : σ → Reader β ε σ}
    {R : List α → σ → List β → Prop}
    (hbody : ∀ done state input a rest, R done state input → r input = .ok (a, rest) →
      ∃ state', body state input = .ok (state', rest) ∧ R (done ++ [a]) state' rest)
    {n : ℕ} {done items : List α} {state : σ} {input rest : List β} (hstart : R done state input)
    (h : times n r input = .ok (items, rest)) :
    ∃ state', iterate n body state input = .ok (state', rest) ∧ R (done ++ items) state' rest := by
  induction n generalizing done items state input with
  | zero =>
    obtain ⟨rfl, rfl⟩ : [] = items ∧ input = rest := by simpa [times] using h
    exact ⟨state, rfl, by simpa using hstart⟩
  | succ n ih =>
    obtain ⟨a, middle, ha, htail⟩ := bind_eq_ok h
    obtain ⟨tail, middle', hrun, hout⟩ := bind_eq_ok htail
    obtain ⟨rfl, rfl⟩ : a :: tail = items ∧ middle' = rest := by simpa using hout
    obtain ⟨state₁, hstep, hR⟩ := hbody done state input a middle hstart ha
    obtain ⟨state', hloop, hR'⟩ := ih hR hrun
    refine ⟨state', ?_, by simpa using hR'⟩
    rw [iterate, bind_apply, hstep]
    exact hloop

end Reader

end Codec
