import Skaidb.Types.Document

/-!
# Members of a balanced pool

What a balanced pool keeps about one member. Instants and durations are
natural numbers of nanoseconds, latencies are floats in seconds as in the source, and the
counters that saturate do so at the largest 32-bit number.
-/

namespace Skaidb

/-- One more, at most the largest 32-bit number. -/
def saturatingSucc (n : ℕ) : ℕ := min (n + 1) (2 ^ 32 - 1)

/-- A duration in nanoseconds as a number of seconds. -/
def asSecsF64 (d : ℕ) : Float :=
  Float.ofNat (d / 10 ^ 9) + Float.ofNat (d % 10 ^ 9) / 1000000000.0

/-- A member's state as a balanced pool sees it. -/
inductive MemberState where
  | ready
  | ejected
  | resyncing
  | unreachable
  | unlisted
  deriving DecidableEq

/-- least_latency: a member whose last round trip is older scores nothing. -/
def staleSample : ℕ := 2 * 10 ^ 9

/-- One member as a balanced pool sees it; its endpoint is the map key. -/
structure Member where
  /-- It was configured, and so is never dropped. -/
  seed : Bool
  /-- Its own `SHOW ENDPOINTS` name, once learned. -/
  canonical : Option String
  /-- What discovery last said. -/
  listed : MemberState
  /-- Round-trip average, in seconds. -/
  ewma : Option Float
  /-- Round trips before the average is seeded. -/
  firsts : List Float
  /-- The number of round trips. -/
  samples : ℕ
  /-- The time of the last round trip. -/
  lastSample : Option ℕ
  /-- Transport failures since the last success. -/
  errors : ℕ
  /-- The end of the ejection; `none` for an admitted member. -/
  ejectedUntil : Option ℕ
  /-- Ejections in a row. -/
  ejections : ℕ
  /-- The time of the last re-admission. -/
  readmittedAt : Option ℕ
  /-- How many connections to it are checked out. -/
  inUse : ℕ
  /-- A probe of the member is under way. -/
  probing : Bool

namespace Member

/-- `Member::new`: a member of which nothing is known yet, in rotation from the start. -/
def new (seed : Bool) : Member where
  seed := seed
  canonical := none
  listed := .ready
  ewma := none
  firsts := []
  samples := 0
  lastSample := none
  errors := 0
  ejectedUntil := none
  ejections := 0
  readmittedAt := none
  inUse := 0
  probing := false

/-- Forget the round trips of a member, so that it is measured afresh. -/
def resetLatency (m : Member) : Member := { m with ewma := none, firsts := [], samples := 0 }

/-- `Member::usable`: new connections may go to it, as it is listed as ready and not ejected. -/
def usable (m : Member) : Bool := m.ejectedUntil.isNone && m.listed == .ready

/-- The score of least_latency: the latency times the connections checked out and one. -/
def score (m : Member) (now : ℕ) : Float :=
  match m.ewma, m.lastSample with
  | some ewma, some at_ =>
    -- `duration_since` saturates at zero.
    if now - at_ ≤ staleSample then ewma * (Float.ofNat m.inUse + 1.0) else 0.0
  | _, _ => 0.0

/-- The records agree on what a listing never changes of a member it keeps. -/
structure Continues (m m' : Member) : Prop where
  /-- It is a configured member exactly if it was before. -/
  seed : m'.seed = m.seed
  /-- The end of its ejection stays as it was. -/
  ejectedUntil : m'.ejectedUntil = m.ejectedUntil
  /-- The number of ejections. -/
  ejections : m'.ejections = m.ejections
  /-- The time of its last re-admission stays noted. -/
  readmittedAt : m'.readmittedAt = m.readmittedAt
  /-- The connections checked out. -/
  inUse : m'.inUse = m.inUse
  /-- It is being probed exactly if it was before. -/
  probing : m'.probing = m.probing

/-- A record that stays as it is continues itself. -/
theorem Continues.refl (m : Member) : Continues m m := ⟨rfl, rfl, rfl, rfl, rfl, rfl⟩

/-- A record continues another across any number of changes each of which it continues. -/
theorem Continues.trans {m m' m'' : Member} (h : Continues m m') (h' : Continues m' m'') :
    Continues m m'' where
  seed := h'.seed.trans h.seed
  ejectedUntil := h'.ejectedUntil.trans h.ejectedUntil
  ejections := h'.ejections.trans h.ejections
  readmittedAt := h'.readmittedAt.trans h.readmittedAt
  inUse := h'.inUse.trans h.inUse
  probing := h'.probing.trans h.probing

end Member

/-- The members of a pool by endpoint, in the order of the endpoints' bytes. -/
abbrev Members := OrdMap utf8 Member

namespace Members

/-- The endpoint belongs to a member of the pool that is usable. -/
def Usable (members : Members) (ep : String) : Prop :=
  ∃ m, members.get? ep = some m ∧ m.usable = true

/-- Some member of the pool is usable, without which reports eject nobody. -/
def AnyUsable (members : Members) : Prop := ∃ ep, members.Usable ep

end Members

end Skaidb
