import Skaidb.Logic.Program

/-!
# The size of a directory

The size of a directory is kept in a word that is read without touching the disk. A reader that
finds it old starts a thread that walks the directory and stores what it finds. Whoever sets the
flag starts the thread; the thread clears the flag when it is done, and when it cannot be
started, the one that set the flag clears it. Calls and threads are sequences of atomic
sections, which interleave in any order.
-/

namespace Skaidb

open Program

/-- A call, or a thread that walks, between two of its sections. -/
inductive DirCall where
  /-- `get` before it loads the time of the last walk. -/
  | get
  /-- `get` that has loaded the time. -/
  | age (refreshed : ℕ)
  /-- `refresh_in_background` before it sets the flag, in `get` or in `new`. -/
  | claim (reads : Bool)
  /-- `refresh_in_background` that has set the flag. -/
  | spawn (reads : Bool)
  /-- `refresh_in_background` that could not start a thread. -/
  | forgo (reads : Bool)
  /-- `get` before it loads the size. -/
  | load
  /-- `refresh_now` before the walk, in a background thread or not. -/
  | walk (background : Bool)
  /-- `refresh_now` that has found a size. -/
  | keep (background : Bool) (bytes : UInt64)
  /-- `refresh_now` that has stored the size. -/
  | stamp (background : Bool) (bytes : UInt64)
  /-- A background thread that is done but for the flag. -/
  | free
  deriving DecidableEq

/-- What is shared, and the calls and threads under way. -/
structure DirSize where
  /-- The size that the last walk found. -/
  bytes : UInt64
  /-- The time of the last completed walk in milliseconds; zero for none. -/
  refreshedMs : ℕ
  /-- A walk is under way in the background. -/
  refreshing : Bool
  /-- The calls and threads between two of their sections. -/
  calls : List DirCall

/-- What a section gets from outside: the clock, the size a walk finds, and whether a thread
starts. -/
structure DirOutside where
  /-- The reading of the clock in milliseconds. -/
  now : ℕ
  /-- The size that a walk finds. -/
  found : UInt64
  /-- A thread can be started. -/
  spawned : Bool

namespace DirSize

/-- How old the size may get, in milliseconds. -/
def refreshMs : ℕ := 300000

/-- A directory whose first walk is about to be started. -/
def new : DirSize := ⟨0, 0, false, [.claim false]⟩

/-- A thread starts one more call, which begins at its first section. -/
def enter (k : DirCall) (s : DirSize) : DirSize := { s with calls := k :: s.calls }

/-- `refresh_in_background` returns, and the call of `get` that made it goes on to its answer. -/
def proceed (reads : Bool) (s : DirSize) : DirSize := if reads then s.enter .load else s

/-- The next section of a call, which reads or writes one of the shared cells, or walks the
directory. -/
def next (k : DirCall) (o : DirOutside) (s : DirSize) : DirSize :=
  let s := { s with calls := s.calls.erase k }
  match k with
  | .get => s.enter (.age s.refreshedMs)
  | .age refreshed =>
    if refreshMs ≤ o.now - refreshed then s.enter (.claim true) else s.enter .load
  | .claim reads =>
    -- A walk is already under way.
    if s.refreshing then s.proceed reads else { s with refreshing := true }.enter (.spawn reads)
  | .spawn reads =>
    if o.spawned then (s.enter (.walk true)).proceed reads else s.enter (.forgo reads)
  | .forgo reads => { s with refreshing := false }.proceed reads
  | .load => s
  | .walk background => s.enter (.keep background o.found)
  | .keep background bytes => { s with bytes := bytes }.enter (.stamp background bytes)
  | .stamp background _ =>
    let s := { s with refreshedMs := max o.now 1 }
    if background then s.enter .free else s
  | .free => { s with refreshing := false }

/-- What a call returns at its last section. -/
def returned (s : DirSize) : DirCall → Option UInt64
  | .load => some s.bytes
  | .stamp false bytes => some bytes
  | _ => none

end DirSize

/-- A directory with what has happened to it. -/
structure DirHistory where
  /-- The shared cells and the calls under way. -/
  size : DirSize
  /-- The sizes that walks have found. -/
  found : List UInt64
  /-- The sizes that calls have returned. -/
  answers : List UInt64

/-- What happens next: a call begins, or a call or a thread goes on. -/
inductive DirEvent where
  | get
  | refreshNow
  | next (k : DirCall) (o : DirOutside)

namespace DirHistory

/-- The history in which nothing has happened: no call, no walk and no answer yet. -/
def new : DirHistory := ⟨.new, [], []⟩

/-- What one event of the threads, of the clock or of the walks adds to a history. -/
def step (s : DirHistory) : DirEvent → DirHistory
  | .get => { s with size := s.size.enter .get }
  | .refreshNow => { s with size := s.size.enter (.walk false) }
  | .next k o =>
    { size := s.size.next k o
      found := match k with
        | .walk _ => o.found :: s.found
        | _ => s.found
      answers := (s.size.returned k).toList ++ s.answers }

/-- An event needs the call that it continues to be under way; calls may begin at any time. -/
def Enabled (s : DirHistory) : DirEvent → Prop
  | .get => True
  | .refreshNow => True
  | .next k _ => k ∈ s.size.calls

instance (s : DirHistory) : (e : DirEvent) → Decidable (s.Enabled e)
  | .get => .isTrue trivial
  | .refreshNow => .isTrue trivial
  | .next k _ => inferInstanceAs (Decidable (k ∈ s.size.calls))

/-- One history leads to another by events each of which could happen when it did. -/
def Reaches : DirHistory → DirHistory → Prop := Run step Enabled

end DirHistory

/-! ## The flag -/

/-- The call or thread has set the flag and not cleared it. -/
def DirCall.holds : DirCall → Bool
  | .spawn _ => true
  | .forgo _ => true
  | .walk background => background
  | .keep background _ => background
  | .stamp background _ => background
  | .free => true
  | .get | .age _ | .claim _ | .load => false

/-- How many sections are left until the flag is cleared, if a thread is started. -/
def DirCall.left : DirCall → ℕ
  | .spawn _ => 5
  | .walk _ => 4
  | .keep _ _ => 3
  | .stamp _ _ => 2
  | _ => 1

/-- A call that has not returned has at least one section left to run. -/
theorem DirCall.left_pos (k : DirCall) : 0 < k.left := by
  cases k <;> simp [left]

/-- No call has more than five sections left, so that each returns after as many. -/
theorem DirCall.left_le (k : DirCall) : k.left ≤ 5 := by
  cases k <;> simp [left]

namespace DirSize

/-- The number of those that hold the flag. -/
def holders (s : DirSize) : ℕ := s.calls.countP DirCall.holds

/-- The flag is set when one holds it, among the calls and threads or apart from them, and clear
when none does. -/
def HeldApart (apart : Bool) (s : DirSize) : Prop :=
  s.holders + (if apart then 1 else 0) = if s.refreshing then 1 else 0

/-- The flag is set when a call or a thread holds it, and no more than one does. -/
def Held (s : DirSize) : Prop := s.HeldApart false

variable {s : DirSize} {apart : Bool}

/-- A call that is about to go on holds apart what it holds. -/
theorem Held.take (h : s.Held) {k : DirCall} (hk : k ∈ s.calls) :
    HeldApart k.holds { s with calls := s.calls.erase k } := by
  have herase : s.holders = (s.calls.erase k).countP DirCall.holds +
      if k.holds then 1 else 0 := by
    rw [holders, (List.perm_cons_erase hk).countP_eq, List.countP_cons]
  unfold Held HeldApart at h
  rw [herase] at h
  exact h

/-- A call that does not hold the flag may start without changing who holds it. -/
theorem HeldApart.enter_other (h : s.HeldApart apart) {k : DirCall} (hk : k.holds = false) :
    (s.enter k).HeldApart apart := by
  have hcount : (s.enter k).holders = s.holders := by
    rw [holders, enter, List.countP_cons_of_neg]
    · rfl
    · simp [hk]
  unfold HeldApart
  rw [hcount]
  exact h

/-- The call that took the flag goes on as its holder among the calls under way. -/
theorem HeldApart.enter_holder (h : s.HeldApart true) {k : DirCall} (hk : k.holds = true) :
    (s.enter k).Held := by
  have hcount : (s.enter k).holders = s.holders + 1 := by
    rw [holders, enter, List.countP_cons_of_pos hk]
    rfl
  unfold Held HeldApart
  rw [hcount]
  exact h

/-- A call that takes up what was held apart for it leaves the flag held by one call or thread, or
clear. -/
theorem HeldApart.enter {k : DirCall} (h : s.HeldApart k.holds) : (s.enter k).Held := by
  cases hk : k.holds with
  | false => exact (hk ▸ h).enter_other hk
  | true => exact (hk ▸ h).enter_holder hk

/-- A reader that goes on to its next section, to start a refresh or not, leaves the holder
alone. -/
theorem HeldApart.proceed (h : s.HeldApart apart) (reads : Bool) :
    (s.proceed reads).HeldApart apart := by
  unfold DirSize.proceed
  split
  · exact h.enter_other rfl
  · exact h

/-- The call that finds the flag clear and sets it becomes its only holder. -/
theorem HeldApart.set (h : s.Held) (hclear : s.refreshing = false) :
    HeldApart true { s with refreshing := true } := by
  have hcount : s.holders = 0 := by
    unfold Held HeldApart at h
    rw [hclear] at h
    exact h
  have hsame : holders { s with refreshing := true } = s.holders := rfl
  unfold HeldApart
  rw [hsame, hcount]
  rfl

/-- Once its holder clears the flag, nobody holds it and it reads as clear. -/
theorem HeldApart.clear (h : s.HeldApart true) : Held { s with refreshing := false } := by
  have hsame : holders { s with refreshing := false } = s.holders := rfl
  unfold HeldApart at h
  unfold Held HeldApart
  rw [hsame]
  simp only [if_true, Bool.false_eq_true, if_false] at h ⊢
  split at h <;> omega

/-- **One section** leaves the flag with one that holds it, or clear. -/
theorem Held.next (h : s.Held) {k : DirCall} (hk : k ∈ s.calls) (o : DirOutside) :
    (s.next k o).Held := by
  have htaken := h.take hk
  cases k with
  | get => exact htaken.enter_other rfl
  | age refreshed =>
    simp only [DirSize.next]
    split
    · exact htaken.enter_other rfl
    · exact htaken.enter_other rfl
  | claim reads =>
    simp only [DirSize.next]
    cases hflag : s.refreshing with
    | true => exact (hflag ▸ htaken).proceed reads
    | false =>
      exact HeldApart.enter_holder (k := .spawn reads) (HeldApart.set (hflag ▸ htaken) rfl) rfl
  | spawn reads =>
    simp only [DirSize.next]
    split
    · exact (htaken.enter_holder rfl).proceed reads
    · exact htaken.enter_holder rfl
  | forgo reads => exact (HeldApart.clear htaken).proceed reads
  | load => exact htaken
  | walk background => exact HeldApart.enter htaken
  | keep background bytes => exact HeldApart.enter htaken
  | stamp background bytes =>
    cases background with
    | true => exact HeldApart.enter_holder htaken rfl
    | false => exact htaken
  | free => exact HeldApart.clear htaken

/-- **The one that holds the flag** clears it, or hands it on and is nearer to it. -/
theorem next_nearer {k : DirCall} (hk : k.holds = true) (o : DirOutside) :
    (s.next k o).refreshing = false ∨
      ∃ k' ∈ (s.next k o).calls, k'.holds = true ∧ k'.left < k.left := by
  cases k with
  | get => cases hk
  | age refreshed => cases hk
  | claim reads => cases hk
  | load => cases hk
  | spawn reads =>
    right
    cases hspawned : o.spawned with
    | true =>
      refine ⟨.walk true, ?_, rfl, (by decide : 4 < 5)⟩
      cases reads <;> simp [DirSize.next, hspawned, DirSize.proceed, enter]
    | false =>
      refine ⟨.forgo reads, ?_, rfl, (by decide : 1 < 5)⟩
      simp [DirSize.next, hspawned, enter]
  | forgo reads =>
    left
    cases reads <;> rfl
  | walk background =>
    exact Or.inr ⟨.keep background o.found, List.mem_cons_self, hk, (by decide : 3 < 4)⟩
  | keep background bytes =>
    exact Or.inr ⟨.stamp background bytes, List.mem_cons_self, hk, (by decide : 2 < 3)⟩
  | stamp background bytes =>
    obtain rfl : background = true := hk
    exact Or.inr ⟨.free, List.mem_cons_self, rfl, (by decide : 1 < 2)⟩
  | free => exact Or.inl rfl

end DirSize

/-! ## Runs -/

/-- The size that `refresh_now` has measured and carries until it is stored. -/
def DirCall.carries : DirCall → Option UInt64
  | .keep _ bytes => some bytes
  | .stamp _ bytes => some bytes
  | _ => none

namespace DirHistory

/-- What the refresh protocol keeps in every history, from which the published property follows. -/
structure Kept (s : DirHistory) : Prop where
  /-- The flag is set when it is held. -/
  held : s.size.Held
  /-- The size was found. -/
  bytes : s.size.bytes = 0 ∨ s.size.bytes ∈ s.found
  /-- What is about to be stored was found. -/
  carried : ∀ k ∈ s.size.calls, ∀ bytes, k.carries = some bytes → bytes ∈ s.found
  /-- What was returned was found. -/
  answers : ∀ a ∈ s.answers, a = 0 ∨ a ∈ s.found

variable {s : DirHistory}

/-- A reader that goes on to its answer carries no size that it measured. -/
theorem carries_proceed {k' : DirCall} {reads : Bool} {size : DirSize}
    (h : k' ∈ (size.proceed reads).calls) : k' ∈ size.calls ∨ k'.carries = none := by
  unfold DirSize.proceed at h
  split at h
  · obtain rfl | h := List.mem_cons.mp h
    · exact Or.inr rfl
    · exact Or.inl h
  · exact Or.inl h

/-- What is carried after a section was carried before it or has just been found. -/
theorem carries_next {k k' : DirCall} {o : DirOutside} {size : DirSize} (hk : k ∈ size.calls)
    (h : k' ∈ (size.next k o).calls) {bytes : UInt64} (hbytes : k'.carries = some bytes) :
    (∃ k'' ∈ size.calls, k''.carries = some bytes) ∨
      ((∃ background, k = .walk background) ∧ bytes = o.found) := by
  have hnone (hcarries : k'.carries = none) : False := by
    rw [hcarries] at hbytes
    cases hbytes
  have hrest (hmem : k' ∈ size.calls.erase k) : ∃ k'' ∈ size.calls, k''.carries = some bytes :=
    ⟨k', List.mem_of_mem_erase hmem, hbytes⟩
  have hentered {k'' : DirCall} (hcarries : k''.carries = none)
      (hmem : k' ∈ k'' :: size.calls.erase k) : ∃ k'' ∈ size.calls, k''.carries = some bytes := by
    obtain rfl | hmem := List.mem_cons.mp hmem
    · exact absurd hcarries fun h => hnone h
    · exact hrest hmem
  cases k with
  | get => exact Or.inl (hentered rfl h)
  | age refreshed =>
    simp only [DirSize.next] at h
    split at h
    · exact Or.inl (hentered rfl h)
    · exact Or.inl (hentered rfl h)
  | claim reads =>
    simp only [DirSize.next] at h
    split at h
    · exact Or.inl (hrest ((carries_proceed h).resolve_right hnone))
    · exact Or.inl (hentered rfl h)
  | spawn reads =>
    simp only [DirSize.next] at h
    split at h
    · exact Or.inl (hentered rfl ((carries_proceed h).resolve_right hnone))
    · exact Or.inl (hentered rfl h)
  | forgo reads => exact Or.inl (hrest ((carries_proceed h).resolve_right hnone))
  | load => exact Or.inl (hrest h)
  | walk background =>
    obtain rfl | h := List.mem_cons.mp h
    · exact Or.inr ⟨⟨background, rfl⟩, (Option.some.inj hbytes).symm⟩
    · exact Or.inl (hrest h)
  | keep background kept =>
    obtain rfl | h := List.mem_cons.mp h
    · exact Or.inl ⟨_, hk, hbytes⟩
    · exact Or.inl (hrest h)
  | stamp background kept =>
    cases background with
    | true => exact Or.inl (hentered rfl h)
    | false => exact Or.inl (hrest h)
  | free => exact Or.inl (hrest h)

/-- The size after a section is the size before it, or the one that is stored. -/
theorem bytes_next (k : DirCall) (o : DirOutside) (size : DirSize) :
    (size.next k o).bytes = size.bytes ∨ k.carries = some (size.next k o).bytes := by
  have hproceed (reads : Bool) (size : DirSize) : (size.proceed reads).bytes = size.bytes := by
    unfold DirSize.proceed
    split <;> rfl
  cases k with
  | keep background kept => exact Or.inr rfl
  | get | load | walk | free => exact Or.inl rfl
  | age refreshed =>
    left
    simp only [DirSize.next]
    split <;> rfl
  | claim reads =>
    left
    simp only [DirSize.next]
    split
    · exact hproceed reads _
    · rfl
  | spawn reads =>
    left
    simp only [DirSize.next]
    split
    · exact hproceed reads _
    · rfl
  | forgo reads => exact Or.inl (hproceed reads _)
  | stamp background kept =>
    left
    cases background <;> rfl

/-- A call that begins, holding no flag and carrying no size, keeps what holds of a history. -/
theorem Kept.enter (h : s.Kept) {k : DirCall} (hk : k.holds = false) (hcarries : k.carries = none) :
    Kept { s with size := s.size.enter k } := by
  refine ⟨h.held.enter_other hk, h.bytes, ?_, h.answers⟩
  intro k' hk' bytes hbytes
  obtain rfl | hk' := List.mem_cons.mp hk'
  · rw [hcarries] at hbytes
    cases hbytes
  · exact h.carried k' hk' bytes hbytes

/-- **One event.** Whatever happens next, all that is kept of a history stays kept. -/
theorem Kept.step (h : s.Kept) {e : DirEvent} (he : s.Enabled e) : (s.step e).Kept := by
  cases e with
  | get => exact h.enter rfl rfl
  | refreshNow => exact h.enter rfl rfl
  | next k o =>
    have hfound : ∀ bytes ∈ s.found, bytes ∈ (s.step (.next k o)).found := by
      intro bytes hbytes
      simp only [DirHistory.step]
      split
      · exact List.mem_cons_of_mem _ hbytes
      · exact hbytes
    constructor
    · exact h.held.next he o
    · obtain hsame | hstored := bytes_next k o s.size
      · have hbytes : (s.step (.next k o)).size.bytes = s.size.bytes := hsame
        rw [hbytes]
        exact h.bytes.imp_right (hfound _)
      · exact Or.inr (hfound _ (h.carried k he _ hstored))
    · intro k' hk' bytes hbytes
      obtain ⟨k'', hk'', hcarried⟩ | ⟨⟨background, rfl⟩, rfl⟩ := carries_next he hk' hbytes
      · exact hfound _ (h.carried k'' hk'' bytes hcarried)
      · exact List.mem_cons_self
    · intro a ha
      obtain ha | ha := List.mem_append.mp ha
      · have hreturned := Option.mem_toList.mp ha
        unfold DirSize.returned at hreturned
        split at hreturned
        · obtain rfl := Option.some.inj hreturned
          exact h.bytes.imp_right (hfound _)
        · obtain rfl := Option.some.inj hreturned
          exact Or.inr (hfound _ (h.carried _ he _ rfl))
        · cases hreturned
      · exact (h.answers a ha).imp_right (hfound a)

/-- The one that holds the flag clears it by its own next sections. -/
theorem exists_clear (o : DirOutside) {k : DirCall} (hk : k ∈ s.size.calls)
    (hholds : k.holds = true) :
    ∃ events : List DirEvent, events.length ≤ k.left ∧
      (∀ e ∈ events, ∃ k', e = .next k' o ∧ k'.holds = true) ∧ Guarded step Enabled s events ∧
      (events.foldl step s).size.refreshing = false := by
  induction hn : k.left using Nat.strongRecOn generalizing k s with
  | ind n ih =>
    have hpos := k.left_pos
    obtain hclear | ⟨k', hk', hholds', hlt⟩ := DirSize.next_nearer (s := s.size) hholds o
    · refine ⟨[.next k o], ?_, ?_, ⟨hk, trivial⟩, hclear⟩
      · rw [List.length_singleton]
        omega
      · intro e he
        exact ⟨k, List.mem_singleton.mp he, hholds⟩
    · obtain ⟨events, hlength, hown, hguarded, hclear⟩ :=
        ih k'.left (hn ▸ hlt) (s := s.step (.next k o)) hk' hholds' rfl
      refine ⟨.next k o :: events, ?_, ?_, ⟨hk, hguarded⟩, hclear⟩
      · rw [List.length_cons]
        omega
      · intro e he
        obtain rfl | he := List.mem_cons.mp he
        · exact ⟨k, rfl, hholds⟩
        · exact hown e he

/-- **The size of a directory.** In every history: the flag is set exactly when a call or a thread
holds it, and never more than one does, so that there is never more than one walk in the
background. Every size that a call returns is zero or one that a walk has found. And the flag
is not left behind: whatever comes from outside, the next sections of the one that holds it
clear it. -/
theorem refreshes_one_by_one (s : DirHistory) (h : Reaches new s) :
    (s.size.refreshing = true ↔ ∃ k ∈ s.size.calls, k.holds = true) ∧ s.size.holders ≤ 1 ∧
      (∀ a ∈ s.answers, a = 0 ∨ a ∈ s.found) ∧
      ∀ o : DirOutside, ∃ events : List DirEvent, events.length ≤ 5 ∧
        (∀ e ∈ events, ∃ k, e = .next k o ∧ k.holds = true) ∧ Guarded step Enabled s events ∧
        (events.foldl step s).size.refreshing = false := by
  have hkept : s.Kept := Run.invariant (fun s e he hs => hs.step he) h
    ⟨rfl, Or.inl rfl, by simp [new, DirSize.new, DirCall.carries], by simp [new]⟩
  have hheld : s.size.holders = if s.size.refreshing then 1 else 0 := hkept.held
  have hflag : s.size.refreshing = true ↔ ∃ k ∈ s.size.calls, k.holds = true := by
    rw [← List.countP_pos_iff]
    have hcount : s.size.calls.countP DirCall.holds = if s.size.refreshing then 1 else 0 := hheld
    rw [hcount]
    split <;> simp_all
  refine ⟨hflag, ?_, hkept.answers, ?_⟩
  · rw [hheld]
    split <;> omega
  · intro o
    cases hset : s.size.refreshing with
    | false => exact ⟨[], Nat.zero_le _, by simp, trivial, hset⟩
    | true =>
      obtain ⟨k, hk, hholds⟩ := hflag.mp hset
      obtain ⟨events, hlength, hrest⟩ := exists_clear o hk hholds
      exact ⟨events, Nat.le_trans hlength k.left_le, hrest⟩

/-- A reader while the first walk has not been stored. -/
def earlyReader (o : DirOutside) : List DirEvent :=
  [.next (.claim false) o, .next (.spawn false) o, .get, .next .get o, .next (.walk true) o,
    .next (.age 0) o, .next (.claim true) o, .next .load o]

/-- The reader is answered zero and starts no second walk. -/
theorem earlyReader_one_walk :
    ((earlyReader ⟨1700000000000, 1500, true⟩).foldl step new).answers = [0] ∧
      ((earlyReader ⟨1700000000000, 1500, true⟩).foldl step new).size.holders ≤ 1 := by
  have hrun : Reaches new ((earlyReader ⟨1700000000000, 1500, true⟩).foldl step new) := by
    apply Guarded.run
    refine ⟨?_, ?_, ?_, ?_, ?_, ?_, ?_, ?_, trivial⟩ <;> decide
  exact ⟨by decide, (refreshes_one_by_one _ hrun).2.1⟩

end DirHistory

end Skaidb
