import Skaidb.Logic.Program
import Skaidb.Pool.Listing

/-!
# Configured endpoints under discovery

A listing drops a member whose name stands for another endpoint. The name of two
configured endpoints stands for the later one, so the earlier one goes: it stays only where
the names of the configured endpoints are distinct.
-/

namespace Skaidb

open Program

/-! ## The rows -/

/-- The name the rows give to the member that answers: the last one. -/
def selfName (rows : List (List Value)) : Option String :=
  ((rows.filterMap readRow).filter (·.2.2)).getLast?.map (·.1)

/-- Some row of a listing names the endpoint. -/
def ListedIn (rows : List (List Value)) (ep : String) : Prop :=
  ∃ row ∈ rows, ∃ state self, readRow row = some (ep, state, self)

/-- Setting the state of an endpoint adds that endpoint to the listed ones and no other. -/
theorem mem_setState {endpoint ep : String} {state : MemberState}
    {listed : List (String × MemberState)} :
    ep ∈ (setState endpoint state listed).map Prod.fst ↔
      ep ∈ listed.map Prod.fst ∨ ep = endpoint := by
  induction listed with
  | nil => simp [setState]
  | cons e listed ih =>
    unfold setState
    split
    · next heq =>
      rw [beq_iff_eq] at heq
      simp only [List.map_cons, List.mem_cons, heq]
      constructor
      · rintro (h | h)
        · exact .inl (.inl h)
        · exact .inl (.inr h)
      · rintro ((h | h) | h)
        · exact .inl h
        · exact .inr h
        · exact .inl h
    · rw [List.map_cons, List.mem_cons, ih, List.map_cons, List.mem_cons, or_assoc]

/-- The endpoints that a listing names, after the answering member has taken its name, are those of
its rows. -/
theorem mem_listedEndpoints {members : Members} {dialed : String} {rows : List (List Value)}
    {ep : String} : ep ∈ listedEndpoints members dialed rows ↔ ListedIn rows ep := by
  unfold listedEndpoints takeRows
  induction rows using List.reverseRecOn with
  | nil => simp [ListedIn]
  | append_singleton rows row ih =>
    rw [List.foldl_append, List.foldl_cons, List.foldl_nil, takeRow]
    have hlisted : ListedIn (rows ++ [row]) ep ↔
        ListedIn rows ep ∨ ∃ state self, readRow row = some (ep, state, self) := by
      simp [ListedIn, or_and_right, exists_or]
    rw [hlisted, ← ih]
    cases hrow : readRow row with
    | none => simp
    | some entry =>
      obtain ⟨endpoint, state, self⟩ := entry
      rw [mem_setState]
      simp [eq_comm]

/-- After the rows are read, the member that was dialled has the name they give it, and the rest is
as before. -/
theorem get?_namedMembers (members : Members) (dialed : String) (rows : List (List Value))
    (ep : String) :
    (namedMembers members dialed rows).get? ep = (members.get? ep).map fun m =>
      if ep = dialed then { m with canonical := (selfName rows).or m.canonical } else m := by
  unfold namedMembers takeRows
  induction rows using List.reverseRecOn with
  | nil => simp [selfName]
  | append_singleton rows row ih =>
    rw [List.foldl_append, List.foldl_cons, List.foldl_nil, takeRow]
    cases hrow : readRow row with
    | none =>
      have hself : selfName (rows ++ [row]) = selfName rows := by simp [selfName, hrow]
      rw [hself]
      exact ih
    | some entry =>
      obtain ⟨endpoint, state, self⟩ := entry
      cases self with
      | false =>
        have hself : selfName (rows ++ [row]) = selfName rows := by simp [selfName, hrow]
        rw [hself]
        exact ih
      | true =>
        have hself : selfName (rows ++ [row]) = some endpoint := by simp [selfName, hrow]
        rw [hself]
        dsimp only
        rw [if_pos rfl, OrdMap.get?_modify, ih]
        cases members.get? ep with
        | none => simp
        | some m => by_cases hep : ep = dialed <;> simp [hep]

/-! ## Names -/

section Names

variable (members : Members) (dialed : String) (rows : List (List Value))

/-- The member with the endpoint has the name once the rows are read. -/
def Named (ep name : String) : Prop :=
  ∃ m, members.get? ep = some m ∧
    (if ep = dialed then (selfName rows).or m.canonical else m.canonical) = some name

/-- The endpoint is a member that was configured, and not learned of by discovery. -/
def IsSeed (ep : String) : Prop := ∃ m, members.get? ep = some m ∧ m.seed = true

/-- A configured endpoint and a later one have the same name once the rows are read. -/
def Shadowed (ep : String) : Prop :=
  IsSeed members ep ∧ ∃ name later, IsSeed members later ∧ Named members dialed rows ep name ∧
    Named members dialed rows later name ∧ compare (utf8 ep) (utf8 later) = .lt

end Names

/-- The table of names after one more member: a seed takes its name from another holder, a learned
one only when it is free. -/
theorem get?_nameMember (names : OrdMap utf8 String) (e : String × Member) (name : String) :
    (nameMember names e).get? name =
      if e.2.canonical = some name ∧ (e.2.seed = true ∨ names.get? name = none) then some e.1
      else names.get? name := by
  unfold nameMember
  cases hcanonical : e.2.canonical with
  | none => simp
  | some other =>
    by_cases hother : name = other
    · subst hother
      by_cases hkeep : e.2.seed = true ∨ names.get? name = none
      · have hcond : (e.2.seed || (names.get? name).isNone) = true := by simpa using hkeep
        simp only [hcond, if_true, OrdMap.get?_insert, beq_self_eq_true]
        rw [if_pos ⟨trivial, hkeep⟩]
      · have hcond : ¬ (e.2.seed || (names.get? name).isNone) = true := by simpa using hkeep
        simp only [if_neg hcond]
        rw [if_neg fun h => hkeep h.2]
    · have hne : ¬ (some other = some name ∧ (e.2.seed = true ∨ names.get? name = none)) :=
        fun h => hother (Option.some.inj h.1).symm
      rw [if_neg hne]
      dsimp only
      split
      · simp [hother]
      · rfl

/-- No entry has a name that the table of the entries does not hold. -/
theorem get?_foldl_nameMember_eq_none {name : String} (entries : List (String × Member)) :
    (entries.foldl nameMember (OrdMap.ofList utf8 [])).get? name = none ↔
      ∀ e ∈ entries, e.2.canonical ≠ some name := by
  induction entries using List.reverseRecOn with
  | nil => simp [OrdMap.ofList, OrdMap.get?, Ascending.ofList]
  | append_singleton entries e ih =>
    rw [List.foldl_append, List.foldl_cons, List.foldl_nil, get?_nameMember]
    simp only [List.mem_append, List.mem_singleton, or_imp, forall_and, forall_eq, ← ih]
    by_cases hname : e.2.canonical = some name
    · by_cases hseed : e.2.seed = true
      · simp [hname, hseed]
      · simp only [hname, hseed, true_and, false_or, ne_eq, not_true, and_false, iff_false,
          Bool.false_eq_true]
        split
        · simp
        · assumption
    · simp [hname]

/-- A name is in the table when a member has it. -/
theorem get?_byName_eq_none {members : Members} {name : String} :
    (byName members).get? name = none ↔
      ∀ ep m, members.get? ep = some m → m.canonical ≠ some name := by
  rw [byName, get?_foldl_nameMember_eq_none]
  constructor
  · intro h ep m hm
    exact h (ep, m) (OrdMap.mem_entries.mpr hm)
  · rintro h ⟨ep, m⟩ hmem
    exact h ep m (OrdMap.mem_entries.mp hmem)

/-- No endpoint comes before itself, which is why endpoints that ascend are different. -/
theorem compare_utf8_self (s : String) : compare (utf8 s) (utf8 s) ≠ .lt := by
  simp [Std.ReflOrd.compare_self]

/-- The entry is a configured member with the name. -/
def SeedEntry (name : String) (e : String × Member) : Prop :=
  e.2.seed = true ∧ e.2.canonical = some name

/-- A name of configured members stands for the last of them. -/
theorem exists_last_seed {name : String} (entries : List (String × Member))
    (hsorted : Ascending.Sorted utf8 entries) (h : ∃ e ∈ entries, SeedEntry name e) :
    ∃ e ∈ entries, SeedEntry name e ∧
      (entries.foldl nameMember (OrdMap.ofList utf8 [])).get? name = some e.1 ∧
      ∀ e' ∈ entries, SeedEntry name e' → e' = e ∨ compare (utf8 e'.1) (utf8 e.1) = .lt := by
  induction entries using List.reverseRecOn with
  | nil => simp at h
  | append_singleton entries e ih =>
    obtain ⟨hbefore, -, habove⟩ := List.pairwise_append.mp hsorted
    rw [List.foldl_append, List.foldl_cons, List.foldl_nil, get?_nameMember]
    by_cases hlast : SeedEntry name e
    · refine ⟨e, by simp, hlast, ?_, fun e' he' _ => ?_⟩
      · rw [if_pos ⟨hlast.2, .inl hlast.1⟩]
      · rcases List.mem_append.mp he' with he' | he'
        · exact .inr (habove e' he' e (by simp))
        · exact .inl (List.mem_singleton.mp he')
    · have hearlier : ∃ e ∈ entries, SeedEntry name e := by
        obtain ⟨e', he', hseed⟩ := h
        rcases List.mem_append.mp he' with he' | he'
        · exact ⟨e', he', hseed⟩
        · rw [List.mem_singleton.mp he'] at hseed
          exact absurd hseed hlast
      obtain ⟨found, hfound, hseed, hget, hall⟩ := ih hbefore hearlier
      refine ⟨found, by simp [hfound], hseed, ?_, fun e' he' hseed' => ?_⟩
      · rw [hget, if_neg]
        rintro ⟨hcanonical, hkeep | hkeep⟩
        · exact hlast ⟨hkeep, hcanonical⟩
        · cases hkeep
      · rcases List.mem_append.mp he' with he' | he'
        · exact hall e' he' hseed'
        · rw [List.mem_singleton.mp he'] at hseed'
          exact absurd hseed' hlast

/-! ## What becomes of the configured endpoints -/

section Seeds

variable {members : Members} {dialed : String} {rows : List (List Value)} {ep : String}

/-- The name of a member once the rows are read. -/
theorem named_iff {name : String} : Named members dialed rows ep name ↔
    ∃ m, (namedMembers members dialed rows).get? ep = some m ∧ m.canonical = some name := by
  simp only [Named, get?_namedMembers, Option.map_eq_some_iff]
  constructor
  · rintro ⟨m, hm, hname⟩
    refine ⟨_, ⟨m, hm, rfl⟩, ?_⟩
    split at hname <;> simp_all
  · rintro ⟨_, ⟨m, hm, rfl⟩, hname⟩
    refine ⟨m, hm, ?_⟩
    split at hname <;> simp_all

/-- Reading the rows does not configure or drop an endpoint. -/
theorem isSeed_namedMembers : IsSeed (namedMembers members dialed rows) ep ↔ IsSeed members ep := by
  simp only [IsSeed, get?_namedMembers, Option.map_eq_some_iff]
  constructor
  · rintro ⟨_, ⟨m, hm, rfl⟩, hseed⟩
    refine ⟨m, hm, ?_⟩
    split at hseed <;> exact hseed
  · rintro ⟨m, hm, hseed⟩
    refine ⟨_, ⟨m, hm, rfl⟩, ?_⟩
    split <;> exact hseed

/-- The entry of a configured endpoint with a name. -/
theorem exists_seedEntry {name : String} (hseed : IsSeed members ep)
    (hname : Named members dialed rows ep name) :
    ∃ m, (namedMembers members dialed rows).get? ep = some m ∧ SeedEntry name (ep, m) := by
  have hnamed : IsSeed (namedMembers members dialed rows) ep := isSeed_namedMembers.mpr hseed
  obtain ⟨m, hm, hmseed⟩ := hnamed
  obtain ⟨m', hm', hmname⟩ := named_iff.mp hname
  obtain rfl := Option.some.inj (hm.symm.trans hm')
  exact ⟨m, hm, hmseed, hmname⟩

/-- A configured endpoint is dropped as a duplicate when a later one has its name. -/
theorem get?_distinctMembers_eq_none (hseed : IsSeed members ep) :
    (distinctMembers members dialed rows).get? ep = none ↔ Shadowed members dialed rows ep := by
  have hnamed : IsSeed (namedMembers members dialed rows) ep := isSeed_namedMembers.mpr hseed
  obtain ⟨m, hm, hmseed⟩ := hnamed
  cases hname : m.canonical with
  | none =>
    have hkept : (distinctMembers members dialed rows).get? ep = some m := by
      rw [distinctMembers, dropDuplicates, OrdMap.get?_alter, hm]
      simp [hname]
    rw [hkept]
    refine ⟨fun h => absurd h (Option.some_ne_none m), ?_⟩
    rintro ⟨-, name, later, -, hnamed, -⟩
    obtain ⟨m', hm', -, hname'⟩ := exists_seedEntry hseed hnamed
    obtain rfl := Option.some.inj (hm.symm.trans hm')
    exact absurd (hname.symm.trans hname') (by simp)
  | some name =>
    have hentry : (ep, m) ∈ (namedMembers members dialed rows).entries := OrdMap.mem_entries.mpr hm
    obtain ⟨⟨last, ml⟩, hlast, ⟨hlseed, hlname⟩, hget, hall⟩ :=
      exists_last_seed _ (namedMembers members dialed rows).sorted
        ⟨(ep, m), hentry, hmseed, hname⟩
    have hlookup := OrdMap.mem_entries.mp hlast
    have htable : (byName (namedMembers members dialed rows)).get? name = some last := hget
    have hdistinct : (distinctMembers members dialed rows).get? ep =
        if last = ep then some m else none := by
      rw [distinctMembers, dropDuplicates, OrdMap.get?_alter, hm]
      simp [hname, htable]
    rw [hdistinct]
    split
    · next heq =>
      subst heq
      refine ⟨fun h => absurd h (Option.some_ne_none m), ?_⟩
      rintro ⟨-, name', later, hlater, hnamed, hnamed', hlt⟩
      obtain ⟨m', hm', -, hname'⟩ := exists_seedEntry hseed hnamed
      obtain rfl := Option.some.inj (hm.symm.trans hm')
      obtain rfl := Option.some.inj (hname.symm.trans hname')
      obtain ⟨m'', hm'', hentry'⟩ := exists_seedEntry hlater hnamed'
      rcases hall (later, m'') (OrdMap.mem_entries.mpr hm'') hentry' with heq | hlt'
      · rw [(Prod.mk.inj heq).1] at hlt
        exact absurd hlt (compare_utf8_self last)
      · exact absurd (Std.TransCmp.lt_trans hlt hlt') (compare_utf8_self last)
    · next hne =>
      refine ⟨fun _ => ?_, fun _ => rfl⟩
      refine ⟨hseed, name, last, isSeed_namedMembers.mp ⟨ml, hlookup, hlseed⟩,
        named_iff.mpr ⟨m, hm, hname⟩, named_iff.mpr ⟨ml, hlookup, hlname⟩, ?_⟩
      rcases hall (ep, m) hentry ⟨hmseed, hname⟩ with heq | hlt
      · exact absurd (Prod.mk.inj heq).1.symm hne
      · exact hlt

/-- A configured endpoint that no later one shadows stays configured. -/
theorem isSeed_applyListing (hseed : IsSeed members ep) (h : ¬ Shadowed members dialed rows ep) :
    IsSeed (applyListing members dialed rows) ep := by
  have hsome : (distinctMembers members dialed rows).get? ep ≠ none :=
    mt (get?_distinctMembers_eq_none hseed).mp h
  obtain ⟨kept, hkept⟩ := Option.ne_none_iff_exists'.mp hsome
  obtain ⟨old, hold, hcont⟩ := distinctMembers_continues hkept
  have hrel := foldedMembers_rel members dialed rows ep
  rw [hkept, Option.some_or] at hrel
  generalize hfolded : (foldedMembers members dialed rows).1.get? ep = value at hrel
  cases hrel with
  | @some _ m hm =>
    obtain ⟨first, hfirst, hfirstseed⟩ := hseed
    obtain rfl := Option.some.inj (hold.symm.trans hfirst)
    have hmseed : m.seed = true := hm.seed.trans (hcont.seed.trans hfirstseed)
    rw [applyListing_eq, IsSeed, keepSeen, OrdMap.get?_alter, hfolded, Option.bind_some, hmseed]
    split
    · exact ⟨m, rfl, hmseed⟩
    · exact ⟨_, rfl, rfl⟩

/-- A shadowed endpoint is a member afterwards when the listing adds it, and is then no
longer configured. -/
theorem get?_applyListing_of_shadowed (h : Shadowed members dialed rows ep) :
    ((applyListing members dialed rows).get? ep ≠ none ↔ Adds members dialed rows ep) ∧
      ¬ IsSeed (applyListing members dialed rows) ep := by
  by_cases hadds : Adds members dialed rows ep
  · obtain ⟨m, hget, hm⟩ := get?_applyListing_of_adds hadds
    rw [IsSeed, hget]
    refine ⟨by simp [hadds], ?_⟩
    rintro ⟨m', hm', hseed⟩
    obtain rfl := Option.some.inj hm'
    exact absurd (hm.seed.symm.trans hseed) (by simp [Member.new])
  · have hrel := foldedMembers_rel members dialed rows ep
    rw [(get?_distinctMembers_eq_none h.1).mpr h, Option.none_or, if_neg hadds] at hrel
    generalize hfolded : (foldedMembers members dialed rows).1.get? ep = value at hrel
    cases hrel with
    | none =>
      have hget : (applyListing members dialed rows).get? ep = none := by
        rw [applyListing_eq, keepSeen, OrdMap.get?_alter, hfolded, Option.bind_none]
      rw [IsSeed, hget]
      exact ⟨by simp [hadds], by simp⟩

/-- A shadowed endpoint is added when a row lists it and it is the name of no member. -/
theorem adds_iff_of_shadowed (h : Shadowed members dialed rows ep) :
    Adds members dialed rows ep ↔
      ListedIn rows ep ∧ ∀ other, ¬ Named members dialed rows other ep := by
  have hdropped := (get?_distinctMembers_eq_none h.1).mpr h
  rw [Adds, mem_listedEndpoints, get?_byName_eq_none, and_iff_left hdropped]
  refine and_congr_right fun _ => ?_
  simp only [named_iff, not_exists, not_and, ne_eq]

end Seeds

/-- One listing after another, each answered by some member with some rows. -/
def listStep (members : Members) (c : String × List (List Value)) : Members :=
  applyListing members c.1 c.2

/-- **Configured endpoints.** They are all members after a listing exactly when each one
whose name a later configured endpoint shares is listed itself and is the name of no member,
and they all stay configured exactly when no two of them share a name. So over listings none
of which finds a shared name all configured endpoints remain members. -/
theorem applyListing_keeps_seeds (members : Members) :
    (∀ (dialed : String) (rows : List (List Value)),
      ((∀ ep, IsSeed members ep → (applyListing members dialed rows).get? ep ≠ none) ↔
        ∀ ep, Shadowed members dialed rows ep →
          ListedIn rows ep ∧ ∀ other, ¬ Named members dialed rows other ep) ∧
      ((∀ ep, IsSeed members ep → IsSeed (applyListing members dialed rows) ep) ↔
        ∀ ep, ¬ Shadowed members dialed rows ep)) ∧
    ∀ members' : Members,
      Run listStep (fun M c => ∀ ep, ¬ Shadowed M c.1 c.2 ep) members members' →
        ∀ ep, IsSeed members ep → IsSeed members' ep := by
  refine ⟨fun dialed rows => ⟨⟨fun h ep hshadowed => ?_, fun h ep hseed => ?_⟩,
    fun h ep hshadowed => ?_, fun h ep hseed => isSeed_applyListing hseed (h ep)⟩, ?_⟩
  · rw [← adds_iff_of_shadowed hshadowed]
    exact (get?_applyListing_of_shadowed hshadowed).1.mp (h ep hshadowed.1)
  · by_cases hshadowed : Shadowed members dialed rows ep
    · refine (get?_applyListing_of_shadowed hshadowed).1.mpr ?_
      exact (adds_iff_of_shadowed hshadowed).mpr (h ep hshadowed)
    · obtain ⟨m, hm, -⟩ := isSeed_applyListing hseed hshadowed
      rw [hm]
      exact Option.some_ne_none m
  · exact (get?_applyListing_of_shadowed hshadowed).2 (h ep hshadowed.1)
  · intro members' hrun ep hseed
    refine Run.invariant (I := fun M => IsSeed M ep) (fun M c hguard hM => ?_) hrun hseed
    exact isSeed_applyListing hM (hguard ep)

/-- The members of an example with two configured endpoints. -/
def twoSeeds : Members := OrdMap.ofList utf8 [("a", Member.new true), ("b", Member.new true)]

/-- The member that answers is the node `n`. -/
def sameNodeRows : List (List Value) :=
  [[⟨.string "n", by decide⟩, ⟨.string "ready", by decide⟩, ⟨.bool true, by decide⟩]]

/-- The first listing of the two seeds finds no name in common and keeps them both. -/
theorem applyListing_keeps_seeds_first : IsSeed (listStep twoSeeds ("a", sameNodeRows)) "b" := by
  have hnew {ep : String} {m : Member} (hm : twoSeeds.get? ep = some m) : m.canonical = none := by
    have hmem := OrdMap.mem_of_get?_ofList hm
    rcases List.mem_cons.mp hmem with heq | hmem
    · rw [(Prod.mk.inj heq).2]
      rfl
    · rw [(Prod.mk.inj (List.mem_singleton.mp hmem)).2]
      rfl
  have hname {ep name : String} (h : Named twoSeeds "a" sameNodeRows ep name) : ep = "a" := by
    obtain ⟨m, hm, hname⟩ := h
    by_contra hep
    rw [if_neg hep, hnew hm] at hname
    cases hname
  have hguard : ∀ ep, ¬ Shadowed twoSeeds "a" sameNodeRows ep := by
    rintro ep ⟨-, name, later, -, hep, hlater, hlt⟩
    rw [hname hep, hname hlater] at hlt
    exact compare_utf8_self "a" hlt
  exact (applyListing_keeps_seeds twoSeeds).2 _ (Run.tail Run.refl hguard) "b" ⟨_, rfl, rfl⟩

/-- Two configured endpoints of one node: each names itself, and the earlier one goes. -/
theorem applyListing_drops_seed :
    IsSeed (applyListing twoSeeds "a" sameNodeRows) "a" ∧
      (applyListing (applyListing twoSeeds "a" sameNodeRows) "b" sameNodeRows).get? "a" = none :=
  ⟨⟨_, rfl, rfl⟩, rfl⟩

end Skaidb
