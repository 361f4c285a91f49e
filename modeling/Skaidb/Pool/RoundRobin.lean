import Mathlib.Data.List.Rotate
import Skaidb.Pool.Picks

/-!
# Taking the members in turn

Under round robin the picks of a run follow one another: each starts at the position the last one
left, whatever happens in between and however large the usable set was then. While the usable set
stays the same, every window of as many picks goes once around it. The clock's panics
(`Skaidb.Pool.Clock`) are left out of the runs.
-/

namespace Skaidb

namespace Balancer

/-! ## The picks of a run -/

/-- A pick by the policy, with the endpoints that it had to choose from. -/
structure Turn where
  /-- The usable endpoints it chooses from. -/
  usable : List String
  /-- The member it returns. -/
  picked : Option String

section Turns

variable (b : Balancer)

/-- The pick of an event, unless it follows a write. -/
def turn (s : System) (e : Event) : Option Turn :=
  match b.picking s e.occurs with
  | some (st, key) =>
    if (b.followWrite e.now key st).1 = none then
      some ⟨usableEndpoints st.members, (b.pick e.now e.later key st).1⟩
    else none
  | none => none

/-- The picks that a sequence of events makes, in the order in which they are made. -/
def turns (s : System) : List Event → List Turn
  | [] => []
  | e :: es => (b.turn s e).toList ++ turns (b.step s e) es

end Turns

/-! ## What leaves the position alone -/

/-- The position is as it was, and the generator has at most drawn. -/
structure KeepsTurn (st st' : BalancerState) : Prop where
  /-- The position of round robin stays where it was. -/
  rr : st'.rr = st.rr
  /-- The generator has at most been asked for numbers. -/
  rng : ∃ n, st'.rng = nextU64^[n] st.rng

/-- A section that changes nothing leaves the position alone. -/
theorem KeepsTurn.refl (st : BalancerState) : KeepsTurn st st := ⟨rfl, 0, rfl⟩

/-- Two sections that leave the position alone do so together, and the draws of both add up. -/
theorem KeepsTurn.trans {st st' st'' : BalancerState} (h : KeepsTurn st st')
    (h' : KeepsTurn st' st'') : KeepsTurn st st'' := by
  obtain ⟨n, hn⟩ := h.rng
  obtain ⟨n', hn'⟩ := h'.rng
  refine ⟨h'.rr.trans h.rr, n' + n, ?_⟩
  rw [hn', hn, Function.iterate_add_apply]

section Position

variable {b : Balancer}

/-- None of the effects that an event has besides its pick is about the position. -/
theorem Effect.keepsTurn {e : Event} {st st' : BalancerState} (h : Effect b e st st') :
    KeepsTurn st st' := by
  cases h with
  | ejected ep =>
    obtain ⟨running, hrunning⟩ := ensureMaintainer_eq e.spawned
      { st with members := st.members.modify ep (b.ejectMember e.now) }
    rw [hrunning]
    exact ⟨rfl, 0, rfl⟩
  | started =>
    obtain ⟨running, hrunning⟩ := ensureMaintainer_eq e.spawned st
    rw [hrunning]
    exact ⟨rfl, 0, rfl⟩
  | drawn n => exact ⟨rfl, n, rfl⟩
  | _ => exact ⟨rfl, 0, rfl⟩

instance isPreorder_keepsTurn : IsPreorder BalancerState KeepsTurn where
  refl := KeepsTurn.refl
  trans _ _ _ := KeepsTurn.trans

/-- **One event** leaves the position and the generator as the pick made in it, if there is one, has
left them. -/
theorem step_keepsTurn (s : System) (e : Event) :
    KeepsTurn (b.picked s e) (b.step s e).pool :=
  (step_effects b s e).frame fun _ _ => Effect.keepsTurn

/-- A member is picked at the position the system has. -/
theorem picking_keepsTurn {s : System} {e : Event} {st : BalancerState} {key : Option String}
    (h : b.picking s e.occurs = some (st, key)) : KeepsTurn s.pool st :=
  (picking_effects h).frame fun _ _ => Effect.keepsTurn

end Position

/-! ## Turns that follow one another -/

/-- The position behind a given one among `n` endpoints, counted as the source counts it. -/
def nextPosition (rr n : ℕ) : ℕ := (rr + 1) % 2 ^ 64 % n

/-- The position a turn leaves: the next one, unless no member is usable. -/
def Turn.leaves (rr : ℕ) (t : Turn) : ℕ :=
  if t.usable = [] then rr else nextPosition rr t.usable.length

/-- The turns follow one another from a position. -/
def Follows : ℕ → List Turn → Prop
  | _, [] => True
  | rr, t :: ts => t.picked = t.usable[nextPosition rr t.usable.length]? ∧ Follows (t.leaves rr) ts

/-- Turns that follow one another still do so when the last of them are left out. -/
theorem Follows.take {rr : ℕ} {ts ts' : List Turn} (h : Follows rr (ts ++ ts')) :
    Follows rr ts := by
  induction ts generalizing rr with
  | nil => exact trivial
  | cons t ts ih => exact ⟨h.1, ih h.2⟩

/-- The turns after other ones follow one another from some position. -/
theorem Follows.drop {rr : ℕ} {ts ts' : List Turn} (h : Follows rr (ts ++ ts')) :
    ∃ rr', Follows rr' ts' := by
  induction ts generalizing rr with
  | nil => exact ⟨rr, h⟩
  | cons t ts ih => exact ih h.2

/-- Turns that find no usable member leave the position. -/
theorem Follows.drop_of_empty {rr : ℕ} {ts ts' : List Turn} (h : Follows rr (ts ++ ts'))
    (hempty : ∀ t ∈ ts, t.usable = []) : Follows rr ts' := by
  induction ts with
  | nil => exact h
  | cons t ts ih =>
    have hleaves : t.leaves rr = rr := if_pos (hempty t List.mem_cons_self)
    refine ih ?_ fun t' ht' => hempty t' (List.mem_cons_of_mem t ht')
    rw [← hleaves]
    exact h.2

/-- A position among `n` is followed by the next one in a circle. -/
theorem nextPosition_add {rr n i : ℕ} (hn : 0 < n) (hsize : n ≤ 2 ^ 64) :
    (nextPosition (nextPosition rr n) n + i) % n = (nextPosition rr n + (i + 1)) % n := by
  have hlt : nextPosition rr n < n := Nat.mod_lt _ hn
  have hnext : nextPosition (nextPosition rr n) n = (nextPosition rr n + 1) % n := by
    generalize nextPosition rr n = k at hlt
    unfold nextPosition
    rcases Nat.lt_or_ge (k + 1) (2 ^ 64) with hsmall | hlarge
    · rw [Nat.mod_eq_of_lt hsmall]
    · -- The position before the last number of 64 bits is the last of as many members.
      obtain rfl : n = 2 ^ 64 := by omega
      rw [Nat.mod_mod]
  rw [hnext, Nat.mod_add_mod]
  congr 1
  omega

/-- Turns over the same usable set go around it. -/
theorem Follows.getElem? {rr : ℕ} {ts : List Turn} {usable : List String} (h : Follows rr ts)
    (hsame : ∀ t ∈ ts, t.usable = usable) (hpos : 0 < usable.length)
    (hsize : usable.length ≤ 2 ^ 64) {i : ℕ} (hi : i < ts.length) :
    (ts.map Turn.picked)[i]? =
      some usable[(nextPosition rr usable.length + i) % usable.length]? := by
  induction ts generalizing rr i with
  | nil => exact absurd hi (Nat.not_lt_zero i)
  | cons t ts ih =>
    obtain ⟨hpicked, hrest⟩ := h
    obtain rfl := hsame t List.mem_cons_self
    cases i with
    | zero =>
      have hlt : nextPosition rr t.usable.length < t.usable.length := Nat.mod_lt _ hpos
      rw [List.map_cons, List.getElem?_cons_zero, hpicked, Nat.add_zero, Nat.mod_eq_of_lt hlt]
    | succ i =>
      have hleaves : t.leaves rr = nextPosition rr t.usable.length :=
        if_neg (List.length_pos_iff.mp hpos)
      rw [hleaves] at hrest
      rw [List.map_cons, List.getElem?_cons_succ,
        ih hrest (fun t' ht' => hsame t' (List.mem_cons_of_mem t ht'))
          (Nat.lt_of_succ_lt_succ hi), nextPosition_add hpos hsize]

/-- As many turns as there are usable members are once around them. -/
theorem Follows.map_picked {rr : ℕ} {ts : List Turn} {usable : List String} (h : Follows rr ts)
    (hsame : ∀ t ∈ ts, t.usable = usable) (hlength : ts.length = usable.length)
    (hsize : usable.length ≤ 2 ^ 64) :
    ts.map Turn.picked = (usable.rotate (nextPosition rr usable.length)).map some := by
  apply List.ext_getElem?
  intro i
  rw [List.getElem?_map]
  by_cases hi : i < ts.length
  · have hi' : i < usable.length := by omega
    have hmod : (nextPosition rr usable.length + i) % usable.length < usable.length :=
      Nat.mod_lt _ (by omega)
    have hturn := h.getElem? hsame (by omega) hsize hi
    rw [List.getElem?_map] at hturn
    rw [hturn, List.getElem?_map, List.getElem?_rotate hi', Nat.add_comm i,
      List.getElem?_eq_getElem hmod]
    rfl
  · rw [List.getElem?_eq_none (by omega), List.getElem?_eq_none]
    · rfl
    · rw [List.length_map, List.length_rotate]
      omega

/-! ## Runs -/

section Runs

variable {b : Balancer}

/-- The endpoints stand in the ascending order of their bytes, as the keys of a map do. -/
def InOrder (eps : List String) : Prop :=
  eps.Pairwise fun ep ep' => compare (utf8 ep) (utf8 ep') = .lt

/-- The endpoints of the usable members come in ascending order, whichever they are. -/
theorem inOrder_usableEndpoints (members : Members) : InOrder (usableEndpoints members) := by
  unfold InOrder usableEndpoints
  rw [List.pairwise_map]
  exact List.Pairwise.sublist List.filter_sublist members.sorted

/-- Endpoints in ascending order are distinct, so that a turn takes no member twice. -/
theorem InOrder.nodup {eps : List String} (h : InOrder eps) : eps.Nodup := by
  refine h.imp fun {ep ep'} hlt heq => ?_
  rw [heq, Std.ReflOrd.compare_self] at hlt
  cases hlt

/-- What an event picks, and the position it leaves. -/
theorem step_turn (hpolicy : b.opts.loadBalancing = .roundRobin) (s : System) (e : Event) :
    match b.turn s e with
    | some t => InOrder t.usable ∧
        t.picked = t.usable[nextPosition s.pool.rr t.usable.length]? ∧
        (b.step s e).pool.rr = t.leaves s.pool.rr
    | none => (b.step s e).pool.rr = s.pool.rr := by
  rw [(step_keepsTurn s e).rr, picked, turn]
  cases hpicking : b.picking s e.occurs with
  | none => rfl
  | some at_ =>
    obtain ⟨st, key⟩ := at_
    have hrr := (picking_keepsTurn hpicking).rr
    obtain ⟨hmembers, hposition, -⟩ := @followWrite_keeps b st e.now key
    dsimp only
    by_cases hfollow : (b.followWrite e.now key st).1 = none
    · rw [if_pos hfollow, pick_of_none hfollow]
      refine ⟨inOrder_usableEndpoints _, ?_⟩
      rw [← hmembers, ← hrr, ← hposition]
      generalize (b.followWrite e.now key st).2 = st'
      by_cases hany : usableEndpoints st'.members = []
      · simp [balance, hpolicy, hany, Turn.leaves]
      · rw [balance_roundRobin hpolicy e.later hany]
        exact ⟨rfl, (if_neg hany).symm⟩
    · rw [if_neg hfollow]
      obtain ⟨ep, hep⟩ := Option.ne_none_iff_exists'.mp hfollow
      have hkept : (b.pick e.now e.later key st).2 = (b.followWrite e.now key st).2 := by
        unfold pick
        generalize b.followWrite e.now key st = followed at hep
        obtain ⟨target, st'⟩ := followed
        obtain rfl : target = some ep := hep
        rfl
      rw [hkept, hposition, hrr]

/-- **The picks of a run** follow one another from the position it starts at. -/
theorem turns_follow (hpolicy : b.opts.loadBalancing = .roundRobin) (s : System)
    (es : List Event) :
    Follows s.pool.rr (b.turns s es) ∧ ∀ t ∈ b.turns s es, InOrder t.usable := by
  induction es generalizing s with
  | nil => exact ⟨trivial, fun t ht => absurd ht List.not_mem_nil⟩
  | cons e es ih =>
    have hstep := step_turn hpolicy s e
    obtain ⟨hfollows, horder⟩ := ih (b.step s e)
    unfold turns
    cases hturn : b.turn s e with
    | none =>
      rw [hturn] at hstep
      rw [show (b.step s e).pool.rr = s.pool.rr from hstep] at hfollows
      exact ⟨hfollows, horder⟩
    | some t =>
      rw [hturn] at hstep
      obtain ⟨hsorted, hpicked, hleaves⟩ := hstep
      rw [hleaves] at hfollows
      refine ⟨⟨hpicked, hfollows⟩, fun t' ht' => ?_⟩
      rcases List.mem_cons.mp ht' with rfl | ht'
      · exact hsorted
      · exact horder t' ht'

end Runs

/-- **Round robin is fair.** Whatever the system and the events, as many picks in a row without
a write to follow as there are usable members go once around the usable endpoints in
order, when these stay the same; so each of them is picked once. In a new pool the first pick
that finds a usable member is the first of them. -/
theorem turns_fair (b : Balancer) (hpolicy : b.opts.loadBalancing = .roundRobin) (s : System)
    (es : List Event) :
    (∀ before window after usable, b.turns s es = before ++ window ++ after →
      (∀ t ∈ window, t.usable = usable) → window.length = usable.length →
      -- The length of a vector is a `usize`.
      usable.length < 2 ^ 64 →
      InOrder usable ∧ (∃ first, window.map Turn.picked = (usable.rotate first).map some) ∧
        ∀ ep ∈ usable, (window.map Turn.picked).count (some ep) = 1) ∧
    ∀ endpoints now rng, s = fresh endpoints now rng →
      ∀ before t after, b.turns s es = before ++ t :: after → (∀ t' ∈ before, t'.usable = []) →
        t.picked = t.usable.head? := by
  obtain ⟨hfollows, horder⟩ := turns_follow hpolicy s es
  constructor
  · intro before window after usable hturns hsame hlength hsize
    have hsorted : InOrder usable := by
      cases window with
      | nil =>
        obtain rfl := List.length_eq_zero_iff.mp hlength.symm
        exact List.Pairwise.nil
      | cons t window =>
        rw [← hsame t List.mem_cons_self]
        apply horder
        rw [hturns]
        simp
    rw [hturns, List.append_assoc] at hfollows
    obtain ⟨rr, hwindow⟩ := hfollows.drop
    have hpicked := hwindow.take.map_picked hsame hlength hsize.le
    refine ⟨hsorted, ⟨_, hpicked⟩, fun ep hep => ?_⟩
    have hinj : Function.Injective (some : String → Option String) := Option.some_injective _
    rw [hpicked, List.count_map_of_injective _ _ hinj]
    exact List.count_eq_one_of_mem (List.nodup_rotate.mpr hsorted.nodup) (List.mem_rotate.mpr hep)
  · rintro endpoints now rng rfl before t after hturns hempty
    rw [hturns] at hfollows
    obtain ⟨hpicked, -⟩ := hfollows.drop_of_empty hempty
    rw [hpicked, List.head?_eq_getElem?]
    congr 1
    -- The position starts at the largest number, so that the next one is zero.
    simp [nextPosition, fresh, start]

/-- Three checkouts of a pool of two members; its clock stands still. -/
def threeStarts : List Event := List.replicate 3 ⟨0, 0, true, .start none⟩

/-- The last two of three checkouts go to different members, and the first goes to the first. -/
theorem turns_fair_three :
    (∃ first, ((rotating.turns (fresh ["b", "a"] 0 1) threeStarts).drop 1).map Turn.picked =
      (["a", "b"].rotate first).map some) ∧
    ((rotating.turns (fresh ["b", "a"] 0 1) threeStarts).head?.map Turn.picked =
      some (some "a")) := by
  obtain ⟨hfair, hfirst⟩ := turns_fair rotating rfl (fresh ["b", "a"] 0 1) threeStarts
  have husable : (rotating.turns (fresh ["b", "a"] 0 1) threeStarts).map Turn.usable =
      List.replicate 3 ["a", "b"] := by decide
  generalize rotating.turns (fresh ["b", "a"] 0 1) threeStarts = ts at hfair hfirst husable ⊢
  obtain ⟨t, ts, rfl⟩ : ∃ t ts', ts = t :: ts' := by
    cases ts with
    | nil => cases husable
    | cons t ts => exact ⟨t, ts, rfl⟩
  obtain ⟨ht, hts⟩ := List.cons.inj husable
  constructor
  · refine (hfair [t] ts [] ["a", "b"] (by simp) (fun t' ht' => ?_) ?_ (by decide)).2.1
    · have hmem : t'.usable ∈ List.replicate 2 ["a", "b"] := hts ▸ List.mem_map_of_mem ht'
      exact List.eq_of_mem_replicate hmem
    · simpa using congrArg List.length hts
  · have hpicked := hfirst ["b", "a"] 0 1 rfl [] t ts rfl (by simp)
    rw [List.head?_cons, Option.map_some, hpicked, ht]
    rfl

end Balancer

end Skaidb
