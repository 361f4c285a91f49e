import Skaidb.Codec.Reader

/-!
# Readers that check parts of what they read

A reader that checks some parts of its input may be compared with one that does not check
them and lists them instead. `Screens` says that the two walk in step: where the listing
reader succeeds, the checking one succeeds and leaves the same input when every listed part
passes, and fails with one and the same error when some part does not. The notion has one
rule for each combinator, as the notions about single readers have.
-/

namespace Codec

namespace Reader

variable {β ε α γ δ : Type}

/-- Where `r'` succeeds with a list of parts, `r` succeeds and leaves the same input when all
parts satisfy `p`, and fails with `bad` otherwise. -/
def Screens (p : δ → Prop) (bad : ε) (r' : Reader β ε (List δ)) (r : Reader β ε α) : Prop :=
  ∀ input parts rest, r' input = .ok (parts, rest) →
    ((∀ x ∈ parts, p x) → ∃ a, r input = .ok (a, rest)) ∧
    ((∃ x ∈ parts, ¬ p x) → r input = .error bad)

variable {p : δ → Prop} {bad : ε}

/-- A value that is returned without reading has no parts to be screened. -/
theorem Screens.pure (a : α) : Screens p bad (pure [] : Reader β ε (List δ)) (pure a) := by
  intro input parts rest h
  obtain ⟨rfl, rfl⟩ : [] = parts ∧ input = rest := by simpa using h
  exact ⟨fun _ => ⟨a, rfl⟩, fun ⟨x, hx, _⟩ => absurd hx List.not_mem_nil⟩

/-- A reader that always fails has no parts listed, whatever the other one does. -/
theorem Screens.fail (e : ε) (r : Reader β ε α) :
    Screens p bad (fail e : Reader β ε (List δ)) r := by
  intro input parts rest h
  cases h

/-- Sequences with one first reader, which has no parts. -/
theorem Screens.bind {r : Reader β ε γ} {f' : γ → Reader β ε (List δ)} {f : γ → Reader β ε α}
    (hf : ∀ c, Screens p bad (f' c) (f c)) : Screens p bad (r >>= f') (r >>= f) := by
  intro input parts rest h
  obtain ⟨c, middle, hc, hparts⟩ := bind_eq_ok h
  rw [bind_of_ok hc]
  exact hf c _ _ _ hparts

/-- Readers in sequence screen the parts of both, so one part that is not right makes the whole
fail. -/
theorem Screens.append {η : Type} {r₁' r₂' : Reader β ε (List δ)} {r : Reader β ε γ}
    {f : γ → Reader β ε η} (hr : Screens p bad r₁' r) (hf : ∀ c, Screens p bad r₂' (f c)) :
    Screens p bad (r₁' >>= fun front => r₂' >>= fun back => Pure.pure (front ++ back))
      (r >>= f) := by
  intro input parts rest h
  obtain ⟨front, middle, hfront, h⟩ := bind_eq_ok h
  obtain ⟨back, middle', hback, hout⟩ := bind_eq_ok h
  obtain ⟨rfl, rfl⟩ : front ++ back = parts ∧ middle' = rest := by simpa using hout
  obtain ⟨hpass, hstop⟩ := hr _ _ _ hfront
  by_cases hall : ∀ x ∈ front, p x
  · obtain ⟨c, hc⟩ := hpass hall
    obtain ⟨hpass', hstop'⟩ := hf c _ _ _ hback
    rw [bind_of_ok hc]
    refine ⟨fun hparts => hpass' fun x hx => hparts x (List.mem_append_right front hx), ?_⟩
    rintro ⟨x, hx, hbad⟩
    rcases List.mem_append.mp hx with hx | hx
    · exact absurd (hall x hx) hbad
    · exact hstop' ⟨x, hx, hbad⟩
  · obtain ⟨x, hx, hbad⟩ : ∃ x ∈ front, ¬ p x := by simpa using hall
    refine ⟨fun hparts => absurd (hparts x (List.mem_append_left back hx)) hbad, fun _ => ?_⟩
    rw [bind_apply, hstop ⟨x, hx, hbad⟩]

/-- Converting what was read leaves the parts that were screened as they are. -/
theorem Screens.map {r' : Reader β ε (List δ)} {r : Reader β ε γ} (hr : Screens p bad r' r)
    (f : γ → α) : Screens p bad r' (r >>= fun c => Pure.pure (f c)) := by
  intro input parts rest h
  obtain ⟨hpass, hstop⟩ := hr _ _ _ h
  refine ⟨fun hparts => ?_, fun hparts => ?_⟩
  · obtain ⟨c, hc⟩ := hpass hparts
    exact ⟨f c, bind_of_ok hc _⟩
  · rw [bind_apply, hstop hparts]

/-- A check of the input left that passes wherever the listing reader succeeds. -/
theorem Screens.ensure {q : ℕ → Prop} [DecidablePred q] {e : ε} {r' : Reader β ε (List δ)}
    {r : Reader β ε α} (hq : ∀ input parts rest, r' input = .ok (parts, rest) → q input.length)
    (hr : Screens p bad r' r) : Screens p bad r' (Reader.ensure q e >>= fun _ => r) := by
  intro input parts rest h
  have hpass : Reader.ensure q e input = .ok ((), input) := if_pos (hq _ _ _ h)
  rw [bind_of_ok hpass]
  exact hr _ _ _ h

/-- Counted runs have the parts of all their elements. -/
theorem Screens.times {r' : Reader β ε (List δ)} {r : Reader β ε α} (hr : Screens p bad r' r)
    (n : ℕ) :
    Screens p bad (Reader.times n r' >>= fun lists => Pure.pure lists.flatten)
      (Reader.times n r) := by
  induction n with
  | zero => exact Screens.pure []
  | succ n ih =>
    have hstep := hr.append fun a => ih.map fun items => a :: items
    intro input parts rest h
    -- The parts of the first element and of the others, as the rule for sequences has them.
    obtain ⟨lists, middle, hlists, hout⟩ := bind_eq_ok h
    obtain ⟨rfl, rfl⟩ : lists.flatten = parts ∧ middle = rest := by simpa using hout
    obtain ⟨first, between, hfirst, hothers⟩ := bind_eq_ok hlists
    obtain ⟨others, end', hrun, hcons⟩ := bind_eq_ok hothers
    obtain ⟨rfl, rfl⟩ : first :: others = lists ∧ end' = middle := by simpa using hcons
    refine hstep input (first :: others).flatten end' ?_
    rw [bind_of_ok hfirst, bind_apply, bind_of_ok hrun]
    rfl

end Reader

end Codec
