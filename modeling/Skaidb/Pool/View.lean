import Skaidb.Pool.Accounting

/-!
# What a pool shows of its members

`Pool::members` reports each member of a balanced pool with its state and its connections. The
report is taken under the lock, and along every run it agrees with what the pool does: a member
reads as ready exactly when checkouts may go to it, and the connections add up. The runs are
without the clock's panics (`Skaidb.Pool.Clock`).
-/

namespace Skaidb

open Program

/-! ## The report -/

/-- The quotient to the nearest number, halves to the even one. -/
def roundHalfEven (n d : ℕ) : ℕ :=
  if 2 * (n % d) < d ∨ 2 * (n % d) = d ∧ n / d % 2 = 0 then n / d else n / d + 1

/-- A duration in nanoseconds from seconds; none below zero and from two to the 64 seconds. -/
def tryFromSecsF64 (secs : Float) : Option ℕ :=
  let bits := secs.toBits.toNat
  let mantissa := bits % 2 ^ 52 + 2 ^ 52
  let exponent := bits / 2 ^ 52 % 2 ^ 11
  if secs < 0.0 then none
  else if exponent < 1023 - 31 then some 0
  else if exponent < 1023 + 64 then
    -- The exponent is taken from its least value, so that both factors are whole.
    some (roundHalfEven (mantissa * 10 ^ 9 * 2 ^ (exponent - (1023 - 31))) (2 ^ (52 + 31)))
  else none

/-- One member as a balanced pool reports it. -/
structure PoolMember where
  /-- The endpoint the pool dials. -/
  endpoint : String
  /-- The member's own name, once discovered. -/
  canonical : Option String
  /-- The state that the pool shows of it. -/
  state : MemberState
  /-- The latency average, once measured, in nanoseconds. -/
  latency : Option ℕ
  /-- How many connections to it are checked out. -/
  inUse : ℕ
  /-- How many connections to it are idle. -/
  idle : ℕ
  /-- It was configured, not learned from a listing. -/
  seed : Bool

/-- The state that is reported: an ejection before what discovery said. -/
def Member.shown (m : Member) : MemberState :=
  if m.ejectedUntil.isSome then .ejected else m.listed

namespace Balancer

/-- The connection is tied to a pool and counts against the member at this endpoint. -/
def countsAt (ep : String) (c : Connection) : Bool := c.link.map PoolLink.member == some ep

/-- What `members` reports of the pool: one entry for each member, in ascending order of the
endpoints. -/
def members (st : BalancerState) : List PoolMember :=
  st.members.entries.map fun e =>
    { endpoint := e.1
      canonical := e.2.canonical
      state := e.2.shown
      latency := e.2.ewma.bind tryFromSecsF64
      inUse := e.2.inUse
      idle := st.idle.countP (countsAt e.1)
      seed := e.2.seed }

/-- A member that the report has is one of the pool, with its shown state, its count and its idle
connections. -/
theorem of_mem_members {st : BalancerState} {p : PoolMember} (h : p ∈ members st) :
    ∃ m, st.members.get? p.endpoint = some m ∧ p.state = m.shown ∧ p.inUse = m.inUse ∧
      p.idle = st.idle.countP (countsAt p.endpoint) ∧ p.seed = m.seed := by
  obtain ⟨⟨ep, m⟩, hmem, rfl⟩ := List.mem_map.mp h
  exact ⟨m, OrdMap.mem_entries.mp hmem, rfl, rfl, rfl, rfl⟩

/-! ## What discovery can have said -/

/-- Discovery says neither that a member is ejected nor that one it found itself is unlisted. -/
structure Plausible (m : Member) : Prop where
  /-- No member is ejected by a listing. -/
  admitted : m.listed ≠ .ejected
  /-- Members that are not configured go when they are not listed. -/
  configured : m.listed = .unlisted → m.seed = true

/-- A property holds of the record of every member. -/
def Every (P : Member → Prop) (members : Members) : Prop :=
  ∀ ep m, members.get? ep = some m → P m

section Listing

variable {members : Members} {P : Member → Prop}

/-- A property of every member's record survives a change of one record that keeps it. -/
theorem Every.modify (h : Every P members) (key : String) {f : Member → Member}
    (hf : ∀ m, P m → P (f m)) : Every P (members.modify key f) := by
  intro ep m hm
  rw [OrdMap.get?_modify] at hm
  split at hm
  · obtain ⟨old, hold, rfl⟩ := Option.map_eq_some_iff.mp hm
    exact hf old (h ep old hold)
  · exact h ep m hm

/-- A change of every member, some of which go. -/
theorem Every.alter (h : Every P members) {f : String → Member → Option Member}
    (hf : ∀ ep m m', P m → f ep m = some m' → P m') : Every P (members.alter f) := by
  intro ep m hm
  rw [OrdMap.get?_alter] at hm
  obtain ⟨old, hold, hm⟩ := Option.bind_eq_some_iff.mp hm
  exact hf ep old m (h ep old hold) hm

/-- The records keep what discovery said and which members are configured. -/
theorem Every.of_relates {members' : Members} (h : Every Plausible members)
    (hrel : OrdMap.Relates (fun m m' : Member => m'.listed = m.listed ∧ m'.seed = m.seed)
      members members') : Every Plausible members' := by
  intro ep m' hm'
  obtain ⟨m, hm, hlisted, hseed⟩ := hrel.origin hm'
  obtain ⟨hadmitted, hconfigured⟩ := h ep m hm
  constructor
  · rw [hlisted]
    exact hadmitted
  · rw [hlisted, hseed]
    exact hconfigured

/-- What a member may plausibly be does not depend on the canonical name it is given. -/
theorem Plausible.named {m : Member} (h : Plausible m) (name : Option String) :
    Plausible { m with canonical := name } := ⟨h.admitted, h.configured⟩

/-- The record of a member of which nothing is known yet is a plausible one. -/
theorem new_plausible {seed : Bool} : Plausible (Member.new seed) := by
  constructor
  · exact MemberState.noConfusion
  · exact MemberState.noConfusion

/-- The state of a row is one that a listing can give. -/
theorem rowState_plausible (text : String) :
    rowState text ≠ .ejected ∧ rowState text ≠ .unlisted := by
  unfold rowState
  split <;> decide

/-- The rows of a listing report states that a server has, so none is `ejected` or `unlisted`. -/
def Reported.Rows (listed : List (String × MemberState)) : Prop :=
  ∀ e ∈ listed, e.2 ≠ .ejected ∧ e.2 ≠ .unlisted

/-- Rows that may be reported stay so when a state that may be listed is noted. -/
theorem Reported.Rows.setState {listed : List (String × MemberState)} (h : Reported.Rows listed)
    {state : MemberState} (hstate : state ≠ .ejected ∧ state ≠ .unlisted) (ep : String) :
    Reported.Rows (setState ep state listed) := by
  induction listed with
  | nil =>
    intro e he
    obtain rfl := List.mem_singleton.mp he
    exact hstate
  | cons first listed ih =>
    obtain ⟨hfirst, hlisted⟩ := List.forall_mem_cons.mp h
    unfold Skaidb.setState
    split
    · exact List.forall_mem_cons.mpr ⟨hstate, hlisted⟩
    · exact List.forall_mem_cons.mpr ⟨hfirst, ih hlisted⟩

/-- Taking the rows of an answer in leaves states that may be reported, and records that are
plausible. -/
theorem Every.takeRows (h : Every Plausible members) (dialed : String)
    (rows : List (List Value)) :
    Reported.Rows (takeRows members dialed rows).1 ∧
      Every Plausible (takeRows members dialed rows).2 := by
  have hfold : ∀ acc : List (String × MemberState) × Members,
      Reported.Rows acc.1 ∧ Every Plausible acc.2 →
        Reported.Rows (rows.foldl (takeRow dialed) acc).1 ∧
          Every Plausible (rows.foldl (takeRow dialed) acc).2 := by
    induction rows with
    | nil => exact fun _ h => h
    | cons row rows ih =>
      intro acc hacc
      apply ih
      unfold takeRow
      cases hrow : readRow row with
      | none => exact hacc
      | some read =>
        obtain ⟨endpoint, state, self⟩ := read
        have hstate : state ≠ .ejected ∧ state ≠ .unlisted := by
          unfold readRow at hrow
          split at hrow
          · obtain ⟨-, hpair⟩ := Prod.mk.inj (Option.some.inj hrow)
            obtain ⟨rfl, -⟩ := Prod.mk.inj hpair
            exact rowState_plausible _
          · cases hrow
        constructor
        · exact hacc.1.setState hstate endpoint
        · dsimp only
          split
          · exact hacc.2.modify dialed fun m hm => hm.named _
          · exact hacc.2
  exact hfold _ ⟨fun _ he => absurd he List.not_mem_nil, h⟩

/-- Adding a member of its own to the pool, ready from the start, keeps every member plausible. -/
theorem Every.addMember (h : Every Plausible members) (endpoint : String) :
    Every Plausible (addMember members endpoint) := by
  intro ep m hm
  rw [get?_addMember] at hm
  split at hm
  · obtain rfl := Option.some.inj hm
    cases hold : members.get? ep with
    | none => exact new_plausible.named _
    | some old => exact (h ep old hold).named _
  · exact h ep m hm

/-- Putting down the state of a row keeps what discovery can have said, since a row never says
ejected or unlisted. -/
theorem Plausible.list (m : Member) {state : MemberState}
    (hstate : state ≠ .ejected ∧ state ≠ .unlisted) : Plausible (m.list state) := by
  have hlisted : (m.list state).listed = state := rfl
  constructor
  · rw [hlisted]
    exact hstate.1
  · rw [hlisted]
    exact fun h => absurd h hstate.2

/-- Folding in the listed endpoints one after another keeps every member plausible. -/
theorem Every.listMembers (names : OrdMap utf8 String) (listed : List (String × MemberState))
    (hlisted : Reported.Rows listed) (acc : Members × List String) (h : Every Plausible acc.1) :
    Every Plausible (listed.foldl (listMember names) acc).1 := by
  induction listed generalizing acc with
  | nil => exact h
  | cons e listed ih =>
    obtain ⟨he, hlisted⟩ := List.forall_mem_cons.mp hlisted
    apply ih hlisted
    have hmodify {members : Members} (hm : Every Plausible members) (ep : String) :
        Every Plausible (members.modify ep (Member.list e.2)) :=
      hm.modify ep fun m _ => Plausible.list m he
    unfold listMember
    cases names.get? e.1 with
    | some ep =>
      dsimp only
      split
      · exact hmodify h ep
      · exact h
    | none =>
      have hadded := h.addMember e.1
      dsimp only
      split
      · exact hmodify hadded e.1
      · exact hadded

/-- **Listings.** A listing leaves every member with a state that discovery can give. -/
theorem Every.applyListing (h : Every Plausible members) (dialed : String)
    (rows : List (List Value)) : Every Plausible (applyListing members dialed rows) := by
  obtain ⟨hlisted, hnamed⟩ := h.takeRows dialed rows
  have hdistinct : Every Plausible (distinctMembers members dialed rows) := by
    apply hnamed.alter
    intro ep m m' hm hkept
    split at hkept
    · split at hkept
      · obtain rfl := Option.some.inj hkept
        exact hm
      · cases hkept
    · obtain rfl := Option.some.inj hkept
      exact hm
  have hfolded : Every Plausible (foldedMembers members dialed rows).1 :=
    Every.listMembers _ _ hlisted _ hdistinct
  rw [applyListing_eq]
  apply hfolded.alter
  intro ep m m' hm hkept
  split at hkept
  · obtain rfl := Option.some.inj hkept
    exact hm
  · split at hkept
    · next hseed =>
      obtain rfl := Option.some.inj hkept
      exact ⟨MemberState.noConfusion, fun _ => hseed⟩
    · cases hkept

end Listing

section Runs

variable {b : Balancer} {e : Event}

/-- One event keeps of every member what discovery can have said of it. -/
theorem MembersStep.plausible {s s' : System} (h : MembersStep b s e s')
    (hs : Every Plausible s.pool.members) : Every Plausible s'.pool.members := by
  have hmodify {members : Members} {ep : String} {f : Member → Member}
      (hf : ∀ m : Member, (f m).listed = m.listed ∧ (f m).seed = m.seed)
      (hm : Every Plausible members) : Every Plausible (members.modify ep f) :=
    hm.of_relates (OrdMap.relates_modify (fun _ => ⟨rfl, rfl⟩) hf _)
  cases h with
  | reported members => exact hs.of_relates (members.mild.mono fun _ _ h => ⟨h.listed, h.seed⟩)
  | claimed ep members =>
    rw [members]
    exact hmodify (fun _ => ⟨rfl, rfl⟩) hs
  | freed ep members =>
    rw [members]
    exact hmodify (fun _ => ⟨rfl, rfl⟩) hs
  | moved ep ep' others members =>
    rw [members]
    exact hmodify (fun _ => ⟨rfl, rfl⟩) (hmodify (fun _ => ⟨rfl, rfl⟩) hs)
  | listed hlisting members =>
    rw [members]
    exact hs.applyListing _ _
  | ticked read members =>
    rw [members]
    apply hs.of_relates
    apply OrdMap.relates_alter
    intro m
    unfold markDue
    split <;> exact ⟨rfl, rfl⟩
  | @probed ep probed occurs members =>
    rw [members]
    by_cases hout : probed = none ∨ s.pool.closed = true
    · rw [probeVerdict_out hout]
      exact hmodify (fun _ => ⟨rfl, rfl⟩) hs
    · rw [probeVerdict_in hout]
      exact hmodify (fun _ => ⟨rfl, rfl⟩) hs

/-- The members of a new pool are ready, which discovery can have said of each. -/
theorem fresh_plausible (endpoints : List String) (now : ℕ) (rng : UInt64) :
    Every Plausible (fresh endpoints now rng).pool.members := by
  intro ep m hm
  have hmem := OrdMap.mem_of_get?_ofList hm
  obtain ⟨ep', -, hpair⟩ := List.mem_map.mp hmem
  obtain ⟨-, rfl⟩ := Prod.mk.inj hpair
  exact new_plausible

/-- A member that discovery can have listed so is shown as ready when it is usable, and as
ejected when it is ejected. -/
theorem Plausible.shown {m : Member} (h : Plausible m) :
    (m.shown = .ready ↔ m.usable = true) ∧ (m.shown = .ejected ↔ m.ejectedUntil ≠ none) ∧
      (m.shown = .unlisted → m.seed = true) := by
  unfold Member.shown Member.usable
  cases m.ejectedUntil with
  | none => simpa using ⟨h.admitted, h.configured⟩
  | some until_ => simp

end Runs

/-! ## The connections of all members -/

section Totals

/-- The sum of counts, as the report of a pool adds them up. -/
def total (counts : List ℕ) : ℕ := counts.foldr (· + ·) 0

variable {α κ : Type} [DecidableEq κ] (label : α → κ)

/-- What has one of the labels has the first one or one of the others. -/
theorem countP_cons_labels (xs : List α) {key : κ} {keys : List κ} (hkey : key ∉ keys) :
    (xs.countP fun x => (key :: keys).contains (label x)) =
      (xs.countP fun x => label x == key) + xs.countP fun x => keys.contains (label x) := by
  induction xs with
  | nil => rfl
  | cons x xs ih =>
    simp only [List.countP_cons, ih]
    by_cases hx : label x = key
    · simp [hx, hkey]
      omega
    · simp [hx]
      omega

/-- Counting by distinct labels counts what has one of them. -/
theorem total_countP (xs : List α) {keys : List κ} (hkeys : keys.Nodup) :
    total (keys.map fun key => xs.countP fun x => label x == key) =
      xs.countP fun x => keys.contains (label x) := by
  induction keys with
  | nil =>
    rw [List.countP_eq_zero.mpr]
    · rfl
    · exact fun _ _ => Bool.false_ne_true
  | cons key keys ih =>
    obtain ⟨hkey, hkeys⟩ := List.nodup_cons.mp hkeys
    rw [countP_cons_labels label xs hkey, ← ih hkeys]
    rfl

end Totals

/-! ## Whole runs -/

section Report

variable {b : Balancer}

/-- What is reported of a member is what the pool does with it. -/
structure Truthful (s : System) (p : PoolMember) : Prop where
  /-- It reads as ready exactly when checkouts may go to it. -/
  ready : p.state = .ready ↔ s.pool.members.Usable p.endpoint
  /-- It reads as ejected exactly while it is. -/
  ejected : p.state = .ejected ↔
    ∃ m, s.pool.members.get? p.endpoint = some m ∧ m.ejectedUntil ≠ none
  /-- It reads as unlisted only when it is configured. -/
  unlisted : p.state = .unlisted → p.seed = true
  /-- The connections to it that callers hold. -/
  inUse : p.inUse = s.out.countP fun c => c.connected == p.endpoint
  /-- The idle connections to it. -/
  idle : p.idle = s.pool.idle.countP fun c => c.connected == p.endpoint

/-- A connection of the pool counts against the member it is connected to. -/
theorem Tied.countsAt {out : Bool} {c : Connection} (h : b.Tied out c) (ep : String) :
    Balancer.countsAt ep c = (c.connected == ep) ∧ memberOf c = c.connected := by
  obtain ⟨link, hlink, -, -, hmember⟩ := h
  unfold Balancer.countsAt memberOf
  rw [hlink, ← hmember]
  constructor
  · rfl
  · rfl

/-- The connections that callers hold, by what they are connected to. -/
theorem HeldKept.checkedOut {s : System} (h : HeldKept b s) (ep : String) :
    s.checkedOut ep = s.out.countP fun c => c.connected == ep := by
  apply List.countP_congr
  intro c hc
  rw [((h.out c hc).countsAt ep).2]

/-- The idle connections, by what they are connected to. -/
theorem IdleKept.countP_idle {st : BalancerState} (h : IdleKept b st) (ep : String) :
    st.idle.countP (countsAt ep) = st.idle.countP fun c => c.connected == ep := by
  apply List.countP_congr
  intro c hc
  rw [((h.tied c hc).1.countsAt ep).1]

/-- One report in a state in which the counts are right. -/
theorem truthful_of_kept {s : System} (hidle : IdleKept b s.pool) (hheld : HeldKept b s)
    (hcounts : s.Accounted) (hsound : Every Plausible s.pool.members) {p : PoolMember}
    (hp : p ∈ members s.pool) : Truthful s p := by
  obtain ⟨m, hm, hstate, huse, hidles, hseed⟩ := of_mem_members hp
  obtain ⟨hready, hejected, hunlisted⟩ := (hsound p.endpoint m hm).shown
  constructor
  · rw [hstate, hready]
    constructor
    · exact fun husable => ⟨m, hm, husable⟩
    · rintro ⟨m', hm', husable⟩
      obtain rfl := Option.some.inj (hm.symm.trans hm')
      exact husable
  · rw [hstate, hejected]
    constructor
    · exact fun hout => ⟨m, hm, hout⟩
    · rintro ⟨m', hm', hout⟩
      obtain rfl := Option.some.inj (hm.symm.trans hm')
      exact hout
  · rw [hstate, hseed]
    exact hunlisted
  · rw [huse, hcounts p.endpoint m hm, hheld.checkedOut]
  · rw [hidles, hidle.countP_idle]

/-- **The report of the members.** Along every run in which no listing adds a member to which
connections are checked out, what is reported of each member is what the pool does with it, the
endpoints ascend, and the counts add up to the idle connections and the connections in the hands
of callers that belong to members. -/
theorem members_truthful (b : Balancer) (endpoints : List String) (now : ℕ) (rng : UInt64) :
    ∀ s, Run b.step (fun s e => b.Enabled s e ∧ AddsUncounted s e)
        (fresh endpoints now rng) s →
      (∀ p ∈ members s.pool, Truthful s p) ∧
      ((members s.pool).map PoolMember.endpoint).Pairwise
        (fun ep ep' => compare (utf8 ep) (utf8 ep') = .lt) ∧
      total ((members s.pool).map PoolMember.idle) =
        (s.pool.idle.countP fun c =>
          ((members s.pool).map PoolMember.endpoint).contains c.connected) ∧
      total ((members s.pool).map PoolMember.inUse) =
        s.out.countP fun c =>
          ((members s.pool).map PoolMember.endpoint).contains c.connected := by
  intro s hrun
  obtain ⟨hidle, hheld⟩ := reaches_kept (hrun.mono fun _ _ h => h.1)
  obtain ⟨hcounts, hsound⟩ : s.Accounted ∧ Every Plausible s.pool.members := by
    obtain ⟨hidle₀, hheld₀⟩ := reaches_kept (b := b) (s := fresh endpoints now rng) Run.refl
    exact invariant_of_changes (I := fun s => s.Accounted ∧ Every Plausible s.pool.members)
      (fun _ _ he => he.1)
      (fun s e _ he hchange _ hs => ⟨hchange.accounted hs.1 he.2, hchange.plausible hs.2⟩)
      hidle₀ hheld₀ hrun ⟨fresh_accounted _ _ _, fresh_plausible _ _ _⟩
  have htruthful : ∀ p ∈ members s.pool, Truthful s p := fun p hp =>
    truthful_of_kept hidle hheld hcounts hsound hp
  have hkeys : ((members s.pool).map PoolMember.endpoint).Nodup := by
    unfold members
    rw [List.map_map]
    exact s.pool.members.nodup_keys
  refine ⟨htruthful, ?_, ?_, ?_⟩
  · unfold members
    rw [List.map_map]
    exact List.pairwise_map.mpr s.pool.members.sorted
  · rw [← total_countP Connection.connected s.pool.idle hkeys, List.map_map]
    exact congrArg total (List.map_congr_left fun p hp => (htruthful p hp).idle)
  · rw [← total_countP Connection.connected s.out hkeys, List.map_map]
    exact congrArg total (List.map_congr_left fun p hp => (htruthful p hp).inUse)

/-- After the move the report counts the connection against `x`. -/
theorem movedAway_truthful :
    ((members (movedAway.foldl learning.step (fresh ["a"] 0 1)).pool).map
        fun p => (p.endpoint, p.inUse, p.idle)) = [("a", 0, 0), ("x", 1, 0)] ∧
      ∀ p ∈ members (movedAway.foldl learning.step (fresh ["a"] 0 1)).pool,
        Truthful (movedAway.foldl learning.step (fresh ["a"] 0 1)) p :=
  ⟨by decide, (members_truthful learning ["a"] 0 1 _ movedAway_guarded.run).1⟩

end Report

end Balancer

end Skaidb
