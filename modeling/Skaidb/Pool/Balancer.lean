import Skaidb.Driver.Client
import Skaidb.Pool.Member

/-!
# Balanced pools: checking connections out and in

The settings and the state of a balanced pool and what its calls do while they hold the
pool's lock. A section that reads the clock or draws random numbers takes the
instant as an argument and keeps the generator in the state.
-/

namespace Skaidb

/-! ## Settings and state -/

/-- `LoadBalancing`: the policy by which a checkout chooses its member. -/
inductive LoadBalancing where
  | random
  | roundRobin
  | leastLatency
  deriving DecidableEq

/-- `IdleOrder`: which of several eligible idle connections is handed out first. -/
inductive IdleOrder where
  | lifo
  | fifo
  deriving DecidableEq

/-- `PoolOptions`: what the builder of a balanced pool sets, durations in nanoseconds. -/
structure PoolOptions where
  /-- How many idle connections the pool keeps. -/
  maxsize : ℕ := 10
  /-- The policy by which members are chosen. -/
  loadBalancing : LoadBalancing := .random
  /-- The order of idle connections. -/
  idleOrder : IdleOrder := .lifo
  /-- Learn the members from `SHOW ENDPOINTS`. -/
  discover : Bool := false
  /-- How often discovery reads the members again. -/
  refreshInterval : ℕ := 60 * 10 ^ 9
  /-- How long checkouts follow a write; zero for never. -/
  readYourWrites : ℕ := 0
  /-- Consecutive failures that eject a member. -/
  ejectErrors : ℕ := 3
  /-- How far above the median latency a member is ejected; zero for never. -/
  ejectLatencyFactor : Float := 3.0
  /-- A latency difference that ejects nobody. -/
  ejectLatencyFloor : ℕ := 50 * 10 ^ 6
  /-- The length of a first ejection. -/
  ejectBackoff : ℕ := 5 * 10 ^ 9
  /-- The bound on the length of an ejection. -/
  ejectBackoffMax : ℕ := 60 * 10 ^ 9

/-- What the client of a connection carries, and a borrower may change. -/
structure SessionSettings where
  /-- The consistency of statements that do not name one. -/
  defaultConsistency : Consistency
  /-- The database that each connection is bound to. -/
  database : Option String
  /-- The session scan budget; zero for none. -/
  scanBudgetRows : UInt64
  deriving DecidableEq

/-- What the server at the other end of a connection has in force for it. A statement does not
carry these two, so what is in force here is what the statements of a borrower run under. -/
structure ServerSession where
  /-- The database that the session is in. -/
  database : Option String
  /-- The scan budget of the session; zero for none. -/
  scanBudgetRows : UInt64
  deriving DecidableEq

/-- A pooled connection's tie to its balanced pool. -/
structure PoolLink where
  /-- The pool, by its address. -/
  pool : ℕ
  /-- The member this connection counts against. -/
  member : String
  /-- Checked out, so counted against the member. -/
  out : Bool
  /-- The checkout's affinity key. -/
  affinity : Option String
  /-- A transport failure left the socket unusable. -/
  broken : Bool
  deriving DecidableEq

/-- A tie that no dial has used yet. -/
def PoolLink.new (pool : ℕ) : PoolLink := ⟨pool, "", false, none, false⟩

/-- A connection as a pool sees it: where it leads, its settings and its tie to a pool. -/
structure Connection where
  /-- The endpoint it is connected to. -/
  connected : String
  /-- What its client carries. -/
  session : SessionSettings
  /-- The tie to a balanced pool. -/
  link : Option PoolLink
  /-- What its server has in force, which the client does not read. -/
  inForce : ServerSession
  deriving DecidableEq

/-- `Balancer`: a balanced pool's fixed settings, beside which its state changes under a lock. -/
structure Balancer where
  /-- The address of the pool, by which connections know it. -/
  id : ℕ
  /-- The options that the pool was built with. -/
  opts : PoolOptions
  /-- The session database of its connections. -/
  database : Option String
  /-- The consistency of its connections. -/
  consistency : Consistency

instance : Ranked (Option.map utf8) := ⟨Option.map_injective utf8_inj⟩

instance transOrdOptionBytes : Std.TransOrd (Option (List UInt8)) := Option.instTransOrd

instance lawfulEqOrdOptionBytes : Std.LawfulEqOrd (Option (List UInt8)) := Option.instLawfulEqOrd

/-- The affinity keys and where their last write went until when. -/
abbrev Affinity := OrdMap (Option.map utf8) (String × ℕ)

/-- The state of a balanced pool under its lock. -/
structure BalancerState where
  /-- The members by endpoint. -/
  members : Members
  /-- Idle connections, the most recently returned last. -/
  idle : List Connection
  /-- The position of round robin, before it is advanced. -/
  rr : ℕ
  /-- Read-your-writes: affinity key to member and window end. -/
  affinity : Affinity
  /-- The server does not answer `SHOW ENDPOINTS` with members. -/
  discoveryOff : Bool
  /-- When discovery is due. -/
  nextRefresh : ℕ
  /-- The pool is closed. -/
  closed : Bool
  /-- The background thread is started. -/
  maintainer : Bool
  /-- The random number generator. -/
  rng : UInt64

namespace Balancer

/-- The failure of an option out of range. -/
def invalid (msg : String) : DriverError := .io ⟨.invalidInput, msg⟩

/-- The state of a new pool over the configured endpoints. -/
def start (endpoints : List String) (now : ℕ) (rng : UInt64) : BalancerState where
  members := OrdMap.ofList utf8 ((Client.dedup endpoints).map fun ep => (ep, Member.new true))
  idle := []
  rr := 2 ^ 64 - 1
  affinity := OrdMap.ofList _ []
  discoveryOff := false
  nextRefresh := now
  closed := false
  maintainer := false
  rng := rng

/-- Build the pool over its endpoints, unless there are none or an option is out of range. -/
def build (b : Balancer) (endpoints : List String) (now : ℕ) (rng : UInt64) :
    Except DriverError BalancerState :=
  if (Client.dedup endpoints).isEmpty then .error (.noEndpoint "no endpoints given")
  else if b.opts.maxsize < 1 then .error (invalid "maxsize must be >= 1")
  else if b.opts.ejectErrors < 1 then .error (invalid "eject_errors must be >= 1")
  else if !(b.opts.ejectLatencyFactor.isFinite && 0.0 ≤ b.opts.ejectLatencyFactor) then
    .error (invalid "eject_latency_factor must be a finite number >= 0")
  else .ok (start endpoints now rng)

/-! ## Random numbers -/

/-- The next state of the generator, which is also the number drawn. -/
def nextU64 (rng : UInt64) : UInt64 :=
  let x := rng ^^^ (rng <<< 13)
  let x := x ^^^ (x >>> 7)
  x ^^^ (x <<< 17)

/-- Draw a number below `n`, as a remainder of the number that the generator returns. -/
def below (rng : UInt64) (n : ℕ) : ℕ × UInt64 := ((nextU64 rng).toNat % n, nextU64 rng)

/-- Exchange two positions of a list; positions that it does not have change nothing. -/
def swap {α : Type} (v : List α) (i j : ℕ) : List α :=
  match v[i]?, v[j]? with
  | some a, some b => (v.set i b).set j a
  | _, _ => v

/-- A random order: each position from the last down to the second is exchanged with one
up to it. -/
def shuffle {α : Type} (rng : UInt64) (v : List α) : List α × UInt64 :=
  (List.range' 1 (v.length - 1)).reverse.foldl
    (fun acc i => (swap acc.1 i (below acc.2 (i + 1)).1, (below acc.2 (i + 1)).2)) (v, rng)

/-! ## Choosing a member -/

section Choose

variable (b : Balancer)

/-- Whether checkouts follow writes, which the options turn off by a window of no length. -/
def readYourWrites : Bool := b.opts.readYourWrites != 0

/-- The member that took the last write under the key, while its window lasts; an entry that
is over or whose member is gone is forgotten. -/
def followWrite (now : ℕ) (key : Option String) (st : BalancerState) :
    Option String × BalancerState :=
  if b.readYourWrites then
    match st.affinity.get? key with
    | some (ep, until_) =>
      match st.members.get? ep with
      | some m =>
        if now < until_ then (if m.usable then some ep else none, st)
        else (none, { st with affinity := st.affinity.erase key })
      | none => (none, { st with affinity := st.affinity.erase key })
    | none => (none, st)
  else (none, st)

/-- The endpoints of the usable members, in ascending order. -/
def usableEndpoints (members : Members) : List String :=
  (members.entries.filter fun e => e.2.usable).map Prod.fst

/-- The member that the policy picks when there is no write to follow; the random policy leaves it
to the order of a dial. -/
def balance (now : ℕ) (st : BalancerState) : Option String × BalancerState :=
  let usable := usableEndpoints st.members
  match b.opts.loadBalancing with
  | .random => (none, st)
  | .roundRobin =>
    if usable.isEmpty then (none, st)
    else
      let rr := (st.rr + 1) % 2 ^ 64 % usable.length
      (usable[rr]?, { st with rr := rr })
  | .leastLatency =>
    if usable.length ≤ 1 then (usable[0]?, st)
    else
      let (i, rng) := below st.rng usable.length
      let (j, rng) := below rng (usable.length - 1)
      let j := if j ≥ i then j + 1 else j
      let score (k : ℕ) : Float :=
        ((usable[k]?.bind st.members.get?).map (·.score now)).getD 0.0
      (if score i ≤ score j then usable[i]? else usable[j]?, { st with rng := rng })

/-- The member a checkout should go to, or none for any; `later` is the second reading of
the clock. -/
def pick (now later : ℕ) (affinity : Option String) (st : BalancerState) :
    Option String × BalancerState :=
  match b.followWrite now affinity st with
  | (some ep, st) => (some ep, st)
  | (none, st) => b.balance later st

/-- The endpoint whose member an idle connection counts against, empty for one without a tie. -/
def memberOf (c : Connection) : String := (c.link.map PoolLink.member).getD ""

/-- The endpoint belongs to a member that checkouts may go to, as `take_idle` and `checkin` test
it. -/
def usableAt (members : Members) (ep : String) : Bool :=
  ((members.get? ep).map Member.usable).getD false

/-- Walk the positions: the first connection to a usable member that is the target, if there
is one, and the positions of the connections met before it whose member is not usable. -/
def searchIdle (st : BalancerState) (target : Option String) : List ℕ → Option ℕ × List ℕ
  | [] => (none, [])
  | i :: positions =>
    let ep := (st.idle[i]?.map memberOf).getD ""
    if usableAt st.members ep then
      if target.all (· == ep) then (some i, []) else searchIdle st target positions
    else
      let (found, stale) := searchIdle st target positions
      (found, i :: stale)

/-- The connections at the positions found are taken out of the idle ones. -/
def takeFound (found : Option ℕ) (stale : List ℕ) (st : BalancerState) :
    (Option Connection × List Connection) × BalancerState :=
  let picked := found.bind (st.idle[·]?)
  if stale.isEmpty then
    ((picked, []), { st with idle := (found.map st.idle.eraseIdx).getD st.idle })
  else
    let rest := st.idle.zipIdx.filter fun e => some e.2 != found
    ((picked, (rest.filter fun e => stale.contains e.2).map Prod.fst),
      { st with idle := (rest.filter fun e => !stale.contains e.2).map Prod.fst })

/-- Remove and return an idle connection, and the idle connections found to belong to members
no longer usable. -/
def takeIdle (target : Option String) (st : BalancerState) :
    (Option Connection × List Connection) × BalancerState :=
  let n := st.idle.length
  let positions := if b.opts.idleOrder = .fifo then List.range n else (List.range n).reverse
  let (found, stale) := searchIdle st target positions
  takeFound found stale st

/-- The order of members out of rotation: those not ejected first, then the soonest
re-admission. -/
def soonest (a c : Option ℕ × String) : Bool :=
  match a.1, c.1 with
  | none, _ => true
  | some _, none => false
  | some x, some y => x ≤ y

/-- The list with the first occurrence of an element moved to the end. -/
def moveLast (x : String) (eps : List String) : List String :=
  if eps.length > 1 ∧ x ∈ eps then eps.erase x ++ [x] else eps

/-- The endpoints to dial, best first: the picked one, the usable ones in a random order, then the
others. -/
def order (first exclude : Option String) (st : BalancerState) : List String × BalancerState :=
  let others := st.members.entries.filter fun e => some e.1 != first
  let usable := (others.filter fun e => e.2.usable).map Prod.fst
  let rest := (others.filter fun e => !e.2.usable).map fun e => (e.2.ejectedUntil, e.1)
  let (usable, rng) := shuffle st.rng usable
  let rest := (rest.insertionSort (soonest · ·)).map Prod.snd
  let eps := first.toList ++ usable ++ rest
  ((exclude.map (moveLast · eps)).getD eps, { st with rng := rng })

/-- The order for a connection that lost a member. -/
def dialOrder (lost : String) (st : BalancerState) : List String × BalancerState :=
  order none (some lost) st

end Choose

/-! ## Checkout and checkin -/

section Checkout

variable (b : Balancer)

/-- What the first section of a checkout finds. -/
structure Found where
  /-- The idle connection that was taken, if there was one. -/
  idle : Option Connection
  /-- Connections to members no longer usable, which are dropped. -/
  stale : List Connection
  /-- The order to dial, when there is no idle connection. -/
  order : List String

/-- The first section of a checkout: pick a member, then look for an idle connection or an order to
dial. -/
def checkoutStart (now later : ℕ) (affinity : Option String) (st : BalancerState) :
    Except DriverError (Found × BalancerState) :=
  if st.closed then .error (.noEndpoint "pool is closed")
  else
    let (target, st) := b.pick now later affinity st
    let ((idle, stale), st) := b.takeIdle target st
    match idle with
    | some c => .ok (⟨some c, stale, []⟩, st)
    | none =>
      let (eps, st) := order target none st
      .ok (⟨none, stale, eps⟩, st)

/-- One more connection counts against the member, as a checkout that keeps it notes. -/
def Member.claim (m : Member) : Member := { m with inUse := m.inUse + 1 }

/-- One connection less counts against the member, stopping at zero as `saturating_sub` does. -/
def Member.free (m : Member) : Member := { m with inUse := m.inUse - 1 }

/-- The last section of a checkout: the connection counts against its member. -/
def checkoutFinish (affinity : Option String) (c : Connection) (st : BalancerState) :
    Connection × BalancerState :=
  match c.link with
  | some link =>
    ({ c with link := some { link with out := true, affinity := affinity } },
      { st with members := st.members.modify link.member Member.claim })
  | none => (c, st)

/-- A connection dropped while checked out stops counting. -/
def closedOut (member : String) (st : BalancerState) : BalancerState :=
  { st with members := st.members.modify member Member.free }

/-- A connection of the pool stops counting, if it is checked out. -/
def uncount (link : PoolLink) (st : BalancerState) : BalancerState :=
  if link.out then closedOut link.member st else st

/-- What dropping a connection does to the pool. -/
def discard (c : Connection) (st : BalancerState) : BalancerState :=
  match c.link with
  | some link => if link.pool = b.id then uncount link st else st
  | none => st

/-- A connection is returned: it stops counting, and is kept when the pool is open and has
room, the connection is not broken and its member is usable. -/
def checkin (c : Connection) (st : BalancerState) : BalancerState :=
  match c.link with
  | some link =>
    if link.pool = b.id then
      let usable := usableAt st.members link.member
      let st := uncount link st
      let c := { c with link := some { link with out := false } }
      if !st.closed && !link.broken && usable && st.idle.length < b.opts.maxsize then
        { st with idle := st.idle ++ [c] }
      else b.discard c st
    else b.discard c st
  | none => b.discard c st

/-- Close the pool and drop every idle connection. -/
def close (st : BalancerState) : BalancerState :=
  st.idle.foldl (fun st c => b.discard c st)
    { st with closed := true, idle := [], maintainer := false }

end Checkout

/-! ## What the sections leave alone -/

/-- The idle connections and the closed flag are as they were. -/
structure KeepsIdle (st st' : BalancerState) : Prop where
  /-- The idle connections are the same ones. -/
  idle : st'.idle = st.idle
  /-- The pool is closed exactly if it was before. -/
  closed : st'.closed = st.closed

/-- A section that changes nothing leaves the idle connections and the flag alone. -/
theorem KeepsIdle.refl (st : BalancerState) : KeepsIdle st st := ⟨rfl, rfl⟩

/-- What two sections in a row each leave alone, both together leave alone. -/
theorem KeepsIdle.trans {st st' st'' : BalancerState} (h : KeepsIdle st st')
    (h' : KeepsIdle st' st'') : KeepsIdle st st'' :=
  ⟨h'.idle.trans h.idle, h'.closed.trans h.closed⟩

section Frames

variable {b : Balancer}

/-- The policy changes the position and the generator only. -/
theorem balance_eq (now : ℕ) (st : BalancerState) :
    ∃ rr rng, (b.balance now st).2 = { st with rr := rr, rng := rng } := by
  unfold balance
  dsimp only
  split
  · exact ⟨st.rr, st.rng, rfl⟩
  · split <;> exact ⟨_, _, rfl⟩
  · split <;> exact ⟨_, _, rfl⟩

/-- Following a write changes nothing of the pool but the affinity keys, of which it may forget the
one looked up. -/
theorem followWrite_eq (now : ℕ) (key : Option String) (st : BalancerState) :
    ∃ affinity, (b.followWrite now key st).2 = { st with affinity := affinity } := by
  unfold followWrite
  split
  · split
    · split
      · split <;> exact ⟨_, rfl⟩
      · exact ⟨_, rfl⟩
    · exact ⟨_, rfl⟩
  · exact ⟨_, rfl⟩

/-- Picking a member changes the position and the generator only, once the write is followed. -/
theorem pick_eq (now later : ℕ) (key : Option String) (st : BalancerState) :
    ∃ rr rng, (b.pick now later key st).2 =
      { (b.followWrite now key st).2 with rr := rr, rng := rng } := by
  unfold pick
  generalize b.followWrite now key st = followed
  obtain ⟨_ | ep, st₁⟩ := followed
  · exact balance_eq later st₁
  · exact ⟨_, _, rfl⟩

/-- Picking a member touches neither the idle connections nor the members. -/
theorem pick_keeps (now later : ℕ) (affinity : Option String) (st : BalancerState) :
    KeepsIdle st (b.pick now later affinity st).2 ∧
      (b.pick now later affinity st).2.members = st.members := by
  obtain ⟨rr, rng, hpick⟩ := b.pick_eq now later affinity st
  obtain ⟨keys, hfollow⟩ := b.followWrite_eq now affinity st
  rw [hpick, hfollow]
  exact ⟨⟨rfl, rfl⟩, rfl⟩

/-- What `take_idle` returns and what it drops was idle before, and what stays idle keeps its
order. -/
theorem takeFound_mem (found : Option ℕ) (stale : List ℕ) (st : BalancerState) :
    (∀ c, (takeFound found stale st).1.1 = some c → c ∈ st.idle) ∧
      (∀ c ∈ (takeFound found stale st).1.2, c ∈ st.idle) ∧
      List.Sublist (takeFound found stale st).2.idle st.idle := by
  have hpicked (c : Connection) (hc : found.bind (st.idle[·]?) = some c) : c ∈ st.idle := by
    obtain ⟨i, -, hi⟩ := Option.bind_eq_some_iff.mp hc
    exact List.mem_of_getElem? hi
  have hfst (p q : Connection × ℕ → Bool) :
      List.Sublist (((st.idle.zipIdx.filter p).filter q).map Prod.fst) st.idle := by
    have hsub : List.Sublist ((st.idle.zipIdx.filter p).filter q) st.idle.zipIdx :=
      List.filter_sublist.trans List.filter_sublist
    have hmap := hsub.map Prod.fst
    rwa [List.zipIdx_map_fst] at hmap
  unfold takeFound
  split
  · refine ⟨hpicked, fun c hc => absurd hc List.not_mem_nil, ?_⟩
    cases found with
    | none => exact List.Sublist.refl _
    | some i => exact List.eraseIdx_sublist _ _
  · exact ⟨hpicked, fun c hc => (hfst _ _).mem hc, hfst _ _⟩

/-- Taking an idle connection changes the idle connections only. -/
theorem takeFound_keeps (found : Option ℕ) (stale : List ℕ) (st : BalancerState) :
    (takeFound found stale st).2.members = st.members ∧
      (takeFound found stale st).2.closed = st.closed ∧
      (takeFound found stale st).2.affinity = st.affinity := by
  unfold takeFound
  split <;> exact ⟨rfl, rfl, rfl⟩

/-- What the first section of a checkout does on an open pool. -/
structure Starts (st : BalancerState) (taken : Found) (st' : BalancerState) : Prop where
  /-- The pool is open. -/
  opened : st.closed = false
  /-- A checkout that got anywhere left the pool open. -/
  closed : st'.closed = false
  /-- The members are as they were. -/
  members : st'.members = st.members
  /-- The connections left idle were idle. -/
  idle : List.Sublist st'.idle st.idle
  /-- The connection that is handed out was idle. -/
  found : ∀ c, taken.idle = some c → c ∈ st.idle
  /-- The connections that are dropped were idle. -/
  stale : ∀ c ∈ taken.stale, c ∈ st.idle

/-- The first section of a checkout succeeds on an open pool only. -/
theorem checkoutStart_ok {now later : ℕ} {affinity : Option String} {st st' : BalancerState}
    {found : Found} (h : b.checkoutStart now later affinity st = .ok (found, st')) :
    Starts st found st' := by
  unfold checkoutStart at h
  split at h
  · cases h
  · next hopen =>
    have hclosed : st.closed = false := by simpa using hopen
    obtain ⟨hpick, hmembers⟩ := b.pick_keeps now later affinity st
    generalize b.pick now later affinity st = picked at h hpick hmembers
    obtain ⟨target, st₁⟩ := picked
    dsimp only [takeIdle] at h hpick hmembers
    generalize searchIdle st₁ target _ = searched at h
    obtain ⟨hfound, hstale, hsub⟩ := takeFound_mem searched.1 searched.2 st₁
    obtain ⟨hmembers', hclosed', -⟩ := takeFound_keeps searched.1 searched.2 st₁
    rw [hpick.idle] at hfound hstale hsub
    split at h
    · next c hc =>
      obtain ⟨rfl, rfl⟩ := Prod.mk.inj (Except.ok.inj h)
      refine ⟨hclosed, ?_, hmembers'.trans hmembers, hsub, fun d hd => ?_, hstale⟩
      · rw [hclosed', hpick.closed, hclosed]
      · obtain rfl := Option.some.inj hd
        exact hfound _ hc
    · obtain ⟨rfl, rfl⟩ := Prod.mk.inj (Except.ok.inj h)
      refine ⟨hclosed, ?_, hmembers'.trans hmembers, hsub, fun d hd => (nomatch hd), hstale⟩
      exact hclosed'.trans (hpick.closed.trans hclosed)

/-- Dropping a connection that is not checked out changes nothing. -/
theorem discard_of_not_out {c : Connection} (h : ∀ link, c.link = some link → link.out = false)
    (st : BalancerState) : b.discard c st = st := by
  unfold discard
  split
  · next link hlink => simp [uncount, h link hlink]
  · rfl

/-- Dropping connections that are not checked out changes nothing. -/
theorem foldl_discard_of_not_out {cs : List Connection}
    (h : ∀ c ∈ cs, ∀ link, c.link = some link → link.out = false) (st : BalancerState) :
    cs.foldl (fun st c => b.discard c st) st = st := by
  induction cs with
  | nil => rfl
  | cons c cs ih =>
    rw [List.foldl_cons, discard_of_not_out (h c List.mem_cons_self)]
    exact ih fun c hc => h c (List.mem_cons_of_mem _ hc)

end Frames

end Balancer

end Skaidb
