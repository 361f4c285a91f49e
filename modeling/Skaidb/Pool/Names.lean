import Skaidb.Pool.Seeds

/-!
# Names under discovery

A listing matches its rows to the members by the names learned before it edits them. The
edits keep names apart, so no node is counted twice. They also let an endpoint take its own
name from the name it stood for, and that is the one way in which a listed node goes missing.
-/

namespace Skaidb

open Program

/-! ## The endpoint of a name -/

/-- A member is preferred to another one of the same name: a later configured one to an
earlier one, either to a discovered one, and an earlier discovered one to a later one. -/
def Preferred (e other : String × Member) : Prop :=
  (other.2.seed = true → e.2.seed = true ∧ compare (utf8 other.1) (utf8 e.1) = .lt) ∧
    (other.2.seed = false → e.2.seed = true ∨ compare (utf8 e.1) (utf8 other.1) = .lt)

/-- The table of names holds the preferred member of each name. -/
theorem exists_preferred {name ep : String} (entries : List (String × Member))
    (hsorted : Ascending.Sorted utf8 entries)
    (h : (entries.foldl nameMember (OrdMap.ofList utf8 [])).get? name = some ep) :
    ∃ m, (ep, m) ∈ entries ∧ m.canonical = some name ∧
      ∀ e ∈ entries, e.2.canonical = some name → e.1 ≠ ep → Preferred (ep, m) e := by
  induction entries using List.reverseRecOn with
  | nil => simp [OrdMap.ofList, OrdMap.get?, Ascending.ofList] at h
  | append_singleton entries last ih =>
    obtain ⟨hbefore, -, habove⟩ := List.pairwise_append.mp hsorted
    have hlt {e : String × Member} (he : e ∈ entries) :
        compare (utf8 e.1) (utf8 last.1) = .lt := habove e he last (by simp)
    rw [List.foldl_append, List.foldl_cons, List.foldl_nil, get?_nameMember] at h
    split at h
    · next htake =>
      obtain rfl := Option.some.inj h
      refine ⟨last.2, by simp, htake.1, fun e he hname hne => ?_⟩
      rcases List.mem_append.mp he with he | he
      · rcases htake.2 with hseed | hfree
        · exact ⟨fun _ => ⟨hseed, hlt he⟩, fun _ => .inl hseed⟩
        · exact absurd hname ((get?_foldl_nameMember_eq_none entries).mp hfree e he)
      · exact absurd (congrArg Prod.fst (List.mem_singleton.mp he)) hne
    · next hleave =>
      obtain ⟨m, hm, hname, hall⟩ := ih hbefore h
      refine ⟨m, by simp [hm], hname, fun e he hename hne => ?_⟩
      rcases List.mem_append.mp he with he | he
      · exact hall e he hename hne
      · obtain rfl := List.mem_singleton.mp he
        have hseed : e.2.seed = false := by
          by_contra hseed
          exact hleave ⟨hename, .inl (by simpa using hseed)⟩
        exact ⟨fun h => absurd (hseed.symm.trans h) (by simp), fun _ => .inr (hlt hm)⟩

/-- The endpoint of a name is that of the preferred member that has it. -/
theorem get?_byName {members : Members} {name ep : String}
    (h : (byName members).get? name = some ep) :
    ∃ m, members.get? ep = some m ∧ m.canonical = some name ∧
      ∀ other mo, members.get? other = some mo → mo.canonical = some name → other ≠ ep →
        Preferred (ep, m) (other, mo) := by
  obtain ⟨m, hm, hname, hall⟩ := exists_preferred members.entries members.sorted h
  refine ⟨m, OrdMap.mem_entries.mp hm, hname, fun other mo hmo hother hne => ?_⟩
  exact hall (other, mo) (OrdMap.mem_entries.mpr hmo) hother hne

/-- Of two members with one canonical name at most one is preferred to the other. -/
theorem Preferred.asymm {e other : String × Member} (h : Preferred e other) :
    ¬ Preferred other e := by
  intro h'
  have habsurd {a b : String} (hlt : compare (utf8 a) (utf8 b) = .lt)
      (hgt : compare (utf8 b) (utf8 a) = .lt) : False :=
    compare_utf8_self a (Std.TransCmp.lt_trans hlt hgt)
  cases hseed : e.2.seed with
  | true =>
    obtain ⟨hother, hlt⟩ := h'.1 hseed
    exact habsurd hlt (h.1 hother).2
  | false =>
    cases hother : other.2.seed with
    | true => exact absurd ((h.1 hother).1.symm.trans hseed) (by simp)
    | false =>
      rcases h.2 hother with hs | hlt
      · exact absurd (hs.symm.trans hseed) (by simp)
      · rcases h'.2 hseed with hs | hgt
        · exact absurd (hs.symm.trans hother) (by simp)
        · exact habsurd hlt hgt

/-! ## Folding the rows in -/

section Fold

variable (names : OrdMap utf8 String) (members : Members)

/-- The endpoint of the member that a listed endpoint is: the one of that name, or its own. -/
def holder (endpoint : String) : String := (names.get? endpoint).getD endpoint

/-- What is known of names and states after listing the endpoints in `done`. -/
structure Matched (done : List (String × MemberState)) (acc : Members × List String) : Prop where
  /-- The endpoints of names are members. -/
  present : ∀ name ep, names.get? name = some ep → acc.1.get? ep ≠ none
  /-- The members that were matched have been seen. -/
  seen : ∀ ep, ep ∈ acc.2 ↔ ∃ e ∈ done, holder names e.1 = ep
  /-- A listed endpoint that is no name carries itself as its name; other members keep
  theirs. -/
  named : ∀ ep m, acc.1.get? ep = some m → m.canonical =
    if ep ∈ done.map Prod.fst ∧ names.get? ep = none then some ep
    else (members.get? ep).bind (·.canonical)
  /-- A member matched by one row has the state of the row. -/
  states : ∀ e ∈ done, (∀ e' ∈ done, holder names e'.1 = holder names e.1 → e' = e) →
    ∃ m, acc.1.get? (holder names e.1) = some m ∧ m.listed = e.2

variable {names members}

/-- A member keeps its name when it is listed. -/
@[simp] theorem Member.canonical_list (m : Member) (state : MemberState) :
    (m.list state).canonical = m.canonical := by
  unfold Member.list
  split <;> rfl

/-- One listed endpoint changes only the member that it names or adds: this one takes the listed
state. -/
theorem get?_listMember {acc : Members × List String} {e : String × MemberState}
    (hpresent : ∀ name ep, names.get? name = some ep → acc.1.get? ep ≠ none) :
    (listMember names acc e).2 = acc.2 ++ [holder names e.1] ∧
      (∀ ep, ep ≠ holder names e.1 → (listMember names acc e).1.get? ep = acc.1.get? ep) ∧
      ∃ m, (listMember names acc e).1.get? (holder names e.1) = some m ∧ m.listed = e.2 ∧
        m.canonical = if names.get? e.1 = none then some e.1
          else (acc.1.get? (holder names e.1)).bind (·.canonical) := by
  unfold holder
  cases hname : names.get? e.1 with
  | some ep₀ =>
    obtain ⟨m, hm⟩ := Option.ne_none_iff_exists'.mp (hpresent e.1 ep₀ hname)
    simp only [listMember, hname, hm, Option.getD_some]
    refine ⟨trivial, fun ep hne => ?_, m.list e.2, ?_, rfl, ?_⟩
    · simp [hne]
    · simp [hm]
    · simp
  | none =>
    rw [listMember_of_none hname, Option.getD_none]
    refine ⟨rfl, fun ep hne => ?_, Member.list e.2
      { (acc.1.get? e.1).getD (Member.new false) with canonical := some e.1 }, ?_, rfl, ?_⟩
    · simp [get?_addMember, hne]
    · simp [get?_addMember]
    · simp

/-- What holds of the names once some endpoints are matched holds once one more is. -/
theorem Matched.step {done : List (String × MemberState)} {acc : Members × List String}
    (h : Matched names members done acc) (e : String × MemberState) :
    Matched names members (done ++ [e]) (listMember names acc e) := by
  obtain ⟨hseen, hother, m, hm, hstate, hname⟩ := get?_listMember (e := e) h.present
  constructor
  · intro name ep hep
    by_cases heq : ep = holder names e.1
    · rw [heq, hm]
      exact Option.some_ne_none m
    · rw [hother ep heq]
      exact h.present name ep hep
  · intro ep
    rw [hseen, List.mem_append, h.seen, List.mem_singleton]
    simp [or_and_right, exists_or, eq_comm]
  · intro ep m' hm'
    by_cases hself : ep = e.1 ∧ names.get? ep = none
    · -- The endpoint is matched to itself and takes its own name.
      obtain ⟨rfl, hnone⟩ := hself
      have hholder : holder names e.1 = e.1 := by simp [holder, hnone]
      rw [hholder] at hm
      obtain rfl := Option.some.inj (hm.symm.trans hm')
      rw [hname, if_pos hnone, if_pos ⟨by simp, hnone⟩]
    · rw [if_congr (listed_append_iff hself) rfl rfl]
      by_cases heq : ep = holder names e.1
      · have hsome : names.get? e.1 ≠ none := by
          intro hnone
          have hep : ep = e.1 := by simpa [holder, hnone] using heq
          exact hself ⟨hep, hep ▸ hnone⟩
        subst heq
        obtain rfl := Option.some.inj (hm.symm.trans hm')
        obtain ⟨ep₀, hep₀⟩ := Option.ne_none_iff_exists'.mp hsome
        have hholder : holder names e.1 = ep₀ := by simp [holder, hep₀]
        obtain ⟨old, hold⟩ := Option.ne_none_iff_exists'.mp (h.present e.1 ep₀ hep₀)
        rw [← hholder] at hold
        rw [hname, if_neg hsome, hold, Option.bind_some]
        exact h.named _ old hold
      · rw [hother ep heq] at hm'
        exact h.named ep m' hm'
  · intro e' he' hunique
    by_cases heq : holder names e'.1 = holder names e.1
    · obtain rfl := hunique e (by simp) heq.symm
      exact ⟨m, hm, hstate⟩
    · have hmem : e' ∈ done := by
        rcases List.mem_append.mp he' with hmem | hmem
        · exact hmem
        · exact absurd (congrArg (fun e => holder names e.1) (List.mem_singleton.mp hmem)) heq
      rw [hother _ heq]
      exact h.states e' hmem fun e'' he'' => hunique e'' (List.mem_append_left _ he'')

/-- What holds of the names once all listed endpoints are matched, as `listMember` does one by
one. -/
theorem matched (names : OrdMap utf8 String) (members : Members)
    (hpresent : ∀ name ep, names.get? name = some ep → members.get? ep ≠ none)
    (listed : List (String × MemberState)) :
    Matched names members listed (listed.foldl (listMember names) (members, [])) := by
  induction listed using List.reverseRecOn with
  | nil =>
    refine ⟨hpresent, by simp, fun ep m hm => ?_, by simp⟩
    have hget : members.get? ep = some m := hm
    simp [hget]
  | append_singleton listed e ih =>
    rw [List.foldl_append]
    exact ih.step e

end Fold

/-! ## The members that are no duplicates -/

section Listing

variable {members : Members} {dialed : String} {rows : List (List Value)}

/-- A member that stays as no duplicate stands for its name. -/
theorem get?_byName_of_distinct {ep name : String} {m : Member}
    (h : (distinctMembers members dialed rows).get? ep = some m) (hname : m.canonical = some name) :
    (byName (namedMembers members dialed rows)).get? name = some ep := by
  rw [distinctMembers, dropDuplicates, OrdMap.get?_alter, Option.bind_eq_some_iff] at h
  obtain ⟨named, -, hkeep⟩ := h
  split at hkeep
  · next other hother =>
    split at hkeep
    · next htable =>
      obtain rfl := Option.some.inj hkeep
      rw [hname] at hother
      rw [Option.some.inj hother]
      exact htable
    · cases hkeep
  · next hnone =>
    obtain rfl := Option.some.inj hkeep
    rw [hname] at hnone
    cases hnone

/-- The member that the table of names gives for a name is still there, with the name, when
duplicates are gone. -/
theorem distinct_of_get?_byName {ep name : String}
    (h : (byName (namedMembers members dialed rows)).get? name = some ep) :
    ∃ m, (distinctMembers members dialed rows).get? ep = some m ∧ m.canonical = some name := by
  obtain ⟨m, hm, hname, -⟩ := get?_byName h
  refine ⟨m, ?_, hname⟩
  rw [distinctMembers, dropDuplicates, OrdMap.get?_alter, hm, Option.bind_some, hname]
  simp [h]

/-- The names and states once all rows are folded in. -/
theorem matched_foldedMembers (members : Members) (dialed : String) (rows : List (List Value)) :
    Matched (byName (namedMembers members dialed rows)) (distinctMembers members dialed rows)
      (takeRows members dialed rows).1 (foldedMembers members dialed rows) := by
  refine matched _ _ (fun name ep h => ?_) _
  obtain ⟨m, hm, -⟩ := distinct_of_get?_byName h
  rw [hm]
  exact Option.some_ne_none m

/-- The member that the name belongs to after the listing. -/
def nameHolder (members : Members) (dialed : String) (rows : List (List Value)) (name : String) :
    String :=
  holder (byName (namedMembers members dialed rows)) name

/-- The name of a member once all rows are folded in: a listed endpoint that is no name has
its own, and another member stands for the name it has. -/
theorem nameHolder_of_canonical {ep name : String} {m : Member}
    (h : (foldedMembers members dialed rows).1.get? ep = some m) (hname : m.canonical = some name) :
    nameHolder members dialed rows name = ep := by
  rw [(matched_foldedMembers members dialed rows).named ep m h] at hname
  unfold nameHolder holder
  split at hname
  · next hown =>
    obtain rfl := Option.some.inj hname
    rw [hown.2, Option.getD_none]
  · obtain ⟨old, hold, hname⟩ := Option.bind_eq_some_iff.mp hname
    rw [get?_byName_of_distinct hold hname, Option.getD_some]

/-- A member that was matched has a listed name. -/
theorem exists_listed_of_seen {ep : String} {m : Member}
    (h : (foldedMembers members dialed rows).1.get? ep = some m)
    (hseen : ep ∈ (foldedMembers members dialed rows).2) :
    ∃ name, m.canonical = some name ∧ name ∈ listedEndpoints members dialed rows := by
  have hmatched := matched_foldedMembers members dialed rows
  obtain ⟨e, he, hholder⟩ := (hmatched.seen ep).mp hseen
  have hlisted : e.1 ∈ listedEndpoints members dialed rows := List.mem_map_of_mem he
  rw [hmatched.named ep m h]
  split
  · next hown => exact ⟨ep, rfl, hown.1⟩
  · next hown =>
    refine ⟨e.1, ?_, hlisted⟩
    unfold holder at hholder
    cases htable : (byName (namedMembers members dialed rows)).get? e.1 with
    | none =>
      rw [htable, Option.getD_none] at hholder
      rw [hholder] at htable hlisted
      exact absurd ⟨hlisted, htable⟩ hown
    | some ep₀ =>
      rw [htable, Option.getD_some] at hholder
      obtain ⟨old, hold, hname⟩ := distinct_of_get?_byName (hholder ▸ htable)
      rw [hold]
      exact hname

/-- A member after the listing: it was matched or is not identified yet, or it is a
configured one that is no longer listed. -/
theorem applyListing_member {ep : String} {m' : Member}
    (h : (applyListing members dialed rows).get? ep = some m') :
    ∃ m, (foldedMembers members dialed rows).1.get? ep = some m ∧ m'.canonical = m.canonical ∧
      (m' = m ∧ (ep ∈ (foldedMembers members dialed rows).2 ∨
          m.seed = true ∧ m.canonical = none) ∨
        m'.seed = true ∧ m'.listed = .unlisted) := by
  rw [applyListing_eq, keepSeen, OrdMap.get?_alter, Option.bind_eq_some_iff] at h
  obtain ⟨m, hm, hkeep⟩ := h
  refine ⟨m, hm, ?_⟩
  split at hkeep
  · next hstay =>
    obtain rfl := Option.some.inj hkeep
    exact ⟨rfl, .inl ⟨rfl, by simpa using hstay⟩⟩
  · split at hkeep
    · next hseed =>
      obtain rfl := Option.some.inj hkeep
      exact ⟨rfl, .inr ⟨hseed, rfl⟩⟩
    · cases hkeep

/-- A member that was matched is one after the listing, as it was matched. -/
theorem get?_applyListing_of_seen {ep : String} {m : Member}
    (h : (foldedMembers members dialed rows).1.get? ep = some m)
    (hseen : ep ∈ (foldedMembers members dialed rows).2) :
    (applyListing members dialed rows).get? ep = some m := by
  rw [applyListing_eq, keepSeen, OrdMap.get?_alter, h, Option.bind_some]
  simp [hseen]

/-- A name belongs to one member after a listing. -/
theorem nameHolder_of_member {ep name : String} {m : Member}
    (h : (applyListing members dialed rows).get? ep = some m) (hname : m.canonical = some name) :
    nameHolder members dialed rows name = ep := by
  obtain ⟨old, hold, hsame, -⟩ := applyListing_member h
  exact nameHolder_of_canonical hold (hsame.symm.trans hname)

end Listing

/-! ## No node is counted twice -/

/-- No two members of the pool go by the same canonical name. -/
def DistinctNames (members : Members) : Prop :=
  ∀ ep ep' m m' name, members.get? ep = some m → members.get? ep' = some m' →
    m.canonical = some name → m'.canonical = some name → ep = ep'

/-- After a listing is folded in, the members' canonical names are distinct, whatever they were
before. -/
theorem distinctNames_applyListing (members : Members) (dialed : String)
    (rows : List (List Value)) : DistinctNames (applyListing members dialed rows) := by
  intro ep ep' m m' name hm hm' hname hname'
  rw [← nameHolder_of_member hm hname, ← nameHolder_of_member hm' hname']

/-- **Nodes are counted once.** From members without names no listings make two members
with the same name. -/
theorem listings_distinctNames (members members' : Members)
    (hfresh : ∀ ep m, members.get? ep = some m → m.canonical = none)
    (hrun : Run listStep (fun _ _ => True) members members') : DistinctNames members' := by
  refine Run.invariant (I := DistinctNames) (fun M c _ _ => ?_) hrun ?_
  · exact distinctNames_applyListing M c.1 c.2
  · intro ep ep' m m' name hm _ hname _
    rw [hfresh ep m hm] at hname
    cases hname

/-- Two configured endpoints of one node are one member once both have answered. -/
theorem listings_distinctNames_twoSeeds :
    DistinctNames (listStep (listStep twoSeeds ("a", sameNodeRows)) ("b", sameNodeRows)) := by
  refine listings_distinctNames twoSeeds _ (fun ep m hm => ?_)
    (.tail (.tail .refl trivial) trivial)
  rcases List.mem_cons.mp (OrdMap.mem_of_get?_ofList hm) with heq | hmem
  · rw [(Prod.mk.inj heq).2]
    rfl
  · rw [(Prod.mk.inj (List.mem_singleton.mp hmem)).2]
    rfl

/-! ## The states of the rows -/

/-- The state of the last row for an endpoint. -/
def lastState (rows : List (List Value)) (endpoint : String) : Option MemberState :=
  ((rows.filterMap readRow).filter (·.1 == endpoint)).getLast?.map (·.2.1)

/-- A row gives its endpoint the state it reports and leaves the others' states as they were. -/
theorem mem_setState_iff {endpoint ep : String} {state s : MemberState}
    {listed : List (String × MemberState)} (hnodup : (listed.map Prod.fst).Nodup) :
    (ep, s) ∈ setState endpoint state listed ↔
      if ep = endpoint then s = state else (ep, s) ∈ listed := by
  induction listed with
  | nil => by_cases hep : ep = endpoint <;> simp [setState, hep]
  | cons e listed ih =>
    obtain ⟨hfresh, hnodup⟩ := List.nodup_cons.mp hnodup
    unfold setState
    split
    · next heq =>
      rw [beq_iff_eq] at heq
      by_cases hep : ep = endpoint
      · subst hep
        have hnot : (ep, s) ∉ listed := fun hmem => hfresh (heq ▸ List.mem_map_of_mem hmem)
        simp [heq, hnot]
      · have hne : ¬ (ep, s) = e := fun h => hep (heq ▸ congrArg Prod.fst h)
        simp [heq, hep, hne]
    · next hne =>
      rw [beq_iff_eq] at hne
      rw [List.mem_cons, ih hnodup]
      by_cases hep : ep = endpoint
      · have hne' : ¬ (ep, s) = e := fun h => hne (hep ▸ (congrArg Prod.fst h).symm)
        rw [if_pos hep, if_pos hep, or_iff_right hne']
      · simp [hep]

/-- Noting the state of an endpoint does not list it twice. -/
theorem nodup_setState {endpoint : String} {state : MemberState}
    {listed : List (String × MemberState)} (h : (listed.map Prod.fst).Nodup) :
    ((setState endpoint state listed).map Prod.fst).Nodup := by
  induction listed with
  | nil => simp [setState]
  | cons e listed ih =>
    obtain ⟨hfresh, hnodup⟩ := List.nodup_cons.mp h
    unfold setState
    split
    · exact h
    · next hne =>
      refine List.nodup_cons.mpr ⟨fun hmem => ?_, ih hnodup⟩
      rcases mem_setState.mp hmem with hmem | heq
      · exact hfresh hmem
      · exact hne (beq_iff_eq.mpr heq)

/-- An endpoint is listed with the state of its last row. -/
theorem mem_takeRows {members : Members} {dialed : String} {rows : List (List Value)}
    {ep : String} {s : MemberState} :
    (ep, s) ∈ (takeRows members dialed rows).1 ↔ lastState rows ep = some s := by
  have hnodup (rows : List (List Value)) :
      ((rows.foldl (takeRow dialed) ([], members)).1.map Prod.fst).Nodup := by
    induction rows using List.reverseRecOn with
    | nil => simp
    | append_singleton rows row ih =>
      rw [List.foldl_append, List.foldl_cons, List.foldl_nil, takeRow]
      split
      · exact ih
      · exact nodup_setState ih
  unfold takeRows lastState
  induction rows using List.reverseRecOn with
  | nil => simp
  | append_singleton rows row ih =>
    rw [List.foldl_append, List.foldl_cons, List.foldl_nil, takeRow]
    cases hrow : readRow row with
    | none => simpa [hrow] using ih
    | some entry =>
      obtain ⟨endpoint, state, self⟩ := entry
      rw [mem_setState_iff (hnodup rows)]
      by_cases hep : ep = endpoint
      · simp [hrow, hep, eq_comm]
      · rw [if_neg hep]
        simpa [hrow, Ne.symm hep] using ih

/-! ## What a listing says of the members -/

/-- The members show the rows: each listed endpoint is the name of one member, which has the
state of its last row, a member that is not configured has a listed name, and a configured
one whose name is not listed is unlisted. -/
structure Reflects (members : Members) (rows : List (List Value)) : Prop where
  /-- A listed endpoint is one member, with its state. -/
  listed : ∀ name, ListedIn rows name → ∃ ep m, members.get? ep = some m ∧
    m.canonical = some name ∧ lastState rows name = some m.listed ∧
      ∀ ep' m', members.get? ep' = some m' → m'.canonical = some name → ep' = ep
  /-- A member that is not configured is listed. -/
  discovered : ∀ ep m, members.get? ep = some m → m.seed = false →
    ∃ name, m.canonical = some name ∧ ListedIn rows name
  /-- A configured member that is not listed is unlisted. -/
  configured : ∀ ep m name, members.get? ep = some m → m.seed = true →
    m.canonical = some name → ¬ ListedIn rows name → m.listed = .unlisted

section Clash

variable (members : Members) (dialed : String) (rows : List (List Value))

/-- The endpoint has the name once the rows are read, and every other endpoint that has it
comes after it: a configured one comes before a discovered one, the last one first, and of
discovered ones the first. -/
def StandsFor (ep name : String) : Prop :=
  Named members dialed rows ep name ∧ ∀ other, Named members dialed rows other name →
    other ≠ ep →
      (IsSeed members other → IsSeed members ep ∧ compare (utf8 other) (utf8 ep) = .lt) ∧
        (¬ IsSeed members other → IsSeed members ep ∨ compare (utf8 ep) (utf8 other) = .lt)

/-- A listed name stands for an endpoint that is itself listed and is the name of no
member. -/
def Clash : Prop :=
  ∃ name ep, StandsFor members dialed rows ep name ∧ ListedIn rows name ∧ ListedIn rows ep ∧
    ∀ other, ¬ Named members dialed rows other ep

end Clash

section Reflected

variable {members : Members} {dialed : String} {rows : List (List Value)}

/-- A member of the named ones is configured when it is one of the members. -/
theorem isSeed_iff_of_named {ep : String} {m : Member}
    (h : (namedMembers members dialed rows).get? ep = some m) :
    IsSeed members ep ↔ m.seed = true := by
  have hsame : IsSeed (namedMembers members dialed rows) ep ↔ IsSeed members ep :=
    isSeed_namedMembers
  rw [← hsame, IsSeed]
  constructor
  · rintro ⟨m', hm', hseed⟩
    obtain rfl := Option.some.inj (h.symm.trans hm')
    exact hseed
  · exact fun hseed => ⟨m, h, hseed⟩

/-- The table of names holds the endpoints that stand for them. -/
theorem get?_byName_iff {ep name : String} :
    (byName (namedMembers members dialed rows)).get? name = some ep ↔
      StandsFor members dialed rows ep name := by
  have hpreferred {ep other : String} {m mo : Member}
      (hm : (namedMembers members dialed rows).get? ep = some m)
      (hmo : (namedMembers members dialed rows).get? other = some mo) :
      ((IsSeed members other → IsSeed members ep ∧ compare (utf8 other) (utf8 ep) = .lt) ∧
        (¬ IsSeed members other → IsSeed members ep ∨ compare (utf8 ep) (utf8 other) = .lt)) ↔
        Preferred (ep, m) (other, mo) := by
    simp only [Preferred, isSeed_iff_of_named hm, isSeed_iff_of_named hmo, Bool.not_eq_true]
  constructor
  · intro h
    obtain ⟨m, hm, hname, hall⟩ := get?_byName h
    refine ⟨named_iff.mpr ⟨m, hm, hname⟩, fun other hother hne => ?_⟩
    obtain ⟨mo, hmo, honame⟩ := named_iff.mp hother
    exact (hpreferred hm hmo).mpr (hall other mo hmo honame hne)
  · rintro ⟨hnamed, hall⟩
    obtain ⟨m, hm, hname⟩ := named_iff.mp hnamed
    cases htable : (byName (namedMembers members dialed rows)).get? name with
    | none => exact absurd hname (get?_byName_eq_none.mp htable ep m hm)
    | some ep' =>
      obtain ⟨m', hm', hname', hall'⟩ := get?_byName htable
      by_contra hne
      have hne' : ep' ≠ ep := fun h => hne (congrArg some h)
      refine ((hpreferred hm hm').mp (hall ep' (named_iff.mpr ⟨m', hm', hname'⟩) hne')).asymm ?_
      exact hall' ep m hm hname (Ne.symm hne')

/-- No member has the name when it is not in the table. -/
theorem get?_byName_eq_none_iff {name : String} :
    (byName (namedMembers members dialed rows)).get? name = none ↔
      ∀ other, ¬ Named members dialed rows other name := by
  rw [get?_byName_eq_none]
  simp only [named_iff, not_exists, not_and, ne_eq]

/-- The member of a listed endpoint: the one that stands for it, or one of its own when no
member has the name. -/
theorem nameHolder_cases (members : Members) (dialed : String) (rows : List (List Value))
    (name : String) :
    StandsFor members dialed rows (nameHolder members dialed rows name) name ∨
      nameHolder members dialed rows name = name ∧
        ∀ other, ¬ Named members dialed rows other name := by
  unfold nameHolder holder
  cases htable : (byName (namedMembers members dialed rows)).get? name with
  | none => exact .inr ⟨rfl, get?_byName_eq_none_iff.mp htable⟩
  | some ep => exact .inl (get?_byName_iff.mp htable)

/-- Unless the listing clashes with the names learned so far, different listed endpoints stand for
different members. -/
theorem nameHolder_inj (h : ¬ Clash members dialed rows) {name other : String}
    (hname : ListedIn rows name) (hother : ListedIn rows other)
    (heq : nameHolder members dialed rows other = nameHolder members dialed rows name) :
    other = name := by
  rcases nameHolder_cases members dialed rows name with hstands | ⟨hself, hfree⟩
  · rcases nameHolder_cases members dialed rows other with hstands' | ⟨hself', hfree'⟩
    · rw [heq] at hstands'
      obtain ⟨m, hm, hmname⟩ := named_iff.mp hstands.1
      obtain ⟨m', hm', hmname'⟩ := named_iff.mp hstands'.1
      obtain rfl := Option.some.inj (hm.symm.trans hm')
      exact Option.some.inj (hmname'.symm.trans hmname)
    · rw [← heq, hself'] at hstands
      exact absurd ⟨name, other, hstands, hname, hother, hfree'⟩ h
  · rcases nameHolder_cases members dialed rows other with hstands' | ⟨hself', -⟩
    · rw [heq, hself] at hstands'
      exact absurd ⟨other, name, hstands', hother, hname, hfree⟩ h
    · rw [← hself', heq, hself]

/-- The name of the member of a listed endpoint unless it clashes. -/
theorem canonical_nameHolder (h : ¬ Clash members dialed rows) {name : String}
    (hlisted : ListedIn rows name) {m : Member} (hm : (foldedMembers members dialed rows).1.get?
      (nameHolder members dialed rows name) = some m) :
    m.canonical = some name := by
  rw [(matched_foldedMembers members dialed rows).named _ m hm]
  rcases nameHolder_cases members dialed rows name with hstands | ⟨hself, hfree⟩
  · rw [if_neg]
    · obtain ⟨old, hold, hname⟩ := distinct_of_get?_byName (get?_byName_iff.mpr hstands)
      rw [hold]
      exact hname
    · rintro ⟨hholder, hfree⟩
      exact h ⟨name, _, hstands, hlisted, mem_listedEndpoints.mp hholder,
        get?_byName_eq_none_iff.mp hfree⟩
  · rw [hself, if_pos ⟨mem_listedEndpoints.mpr hlisted, get?_byName_eq_none_iff.mpr hfree⟩]

/-- A listed endpoint is the name of its member afterwards, with the state of its last row. -/
theorem listed_of_not_clash (h : ¬ Clash members dialed rows) {name : String}
    (hlisted : ListedIn rows name) :
    ∃ m, (applyListing members dialed rows).get? (nameHolder members dialed rows name) = some m ∧
      m.canonical = some name ∧ lastState rows name = some m.listed := by
  have hmatched := matched_foldedMembers members dialed rows
  have hmem : name ∈ listedEndpoints members dialed rows := mem_listedEndpoints.mpr hlisted
  obtain ⟨⟨name, s⟩, hrow, rfl⟩ := List.mem_map.mp hmem
  have hlast : lastState rows name = some s := mem_takeRows.mp hrow
  have hunique : ∀ e ∈ (takeRows members dialed rows).1,
      nameHolder members dialed rows e.1 = nameHolder members dialed rows name → e = (name, s) := by
    rintro ⟨other, s'⟩ hother heq
    have hin : ListedIn rows other := mem_listedEndpoints.mp (List.mem_map_of_mem hother)
    obtain rfl : other = name := nameHolder_inj h hlisted hin heq
    have hs : lastState rows other = some s' := mem_takeRows.mp hother
    rw [Option.some.inj (hs.symm.trans hlast)]
  obtain ⟨m, hm, hstate⟩ := hmatched.states (name, s) hrow hunique
  have hseen : nameHolder members dialed rows name ∈ (foldedMembers members dialed rows).2 :=
    (hmatched.seen _).mpr ⟨(name, s), hrow, rfl⟩
  refine ⟨m, get?_applyListing_of_seen hm hseen, canonical_nameHolder h hlisted hm, ?_⟩
  rw [hlast, hstate]

/-- A listed endpoint whose member takes another name is the name of no member. -/
theorem not_clash_of_listed (h : Reflects (applyListing members dialed rows) rows) :
    ¬ Clash members dialed rows := by
  rintro ⟨name, ep, hstands, hname, hep, hfree⟩
  obtain ⟨ep', m, hm, hcanonical, -⟩ := h.listed name hname
  have htable := get?_byName_iff.mpr hstands
  have hholder : nameHolder members dialed rows name = ep := by
    simp [nameHolder, holder, htable]
  obtain rfl : ep = ep' := hholder.symm.trans (nameHolder_of_member hm hcanonical)
  obtain ⟨old, hold, hsame, -⟩ := applyListing_member hm
  have hown : old.canonical = some ep := by
    rw [(matched_foldedMembers members dialed rows).named ep old hold,
      if_pos ⟨mem_listedEndpoints.mpr hep, get?_byName_eq_none_iff.mpr hfree⟩]
  obtain rfl : name = ep := Option.some.inj (hcanonical.symm.trans (hsame.trans hown))
  exact hfree name hstands.1

/-- A member that is not configured has a listed name after a listing. -/
theorem listed_of_discovered {ep : String} {m : Member}
    (hm : (applyListing members dialed rows).get? ep = some m) (hseed : m.seed = false) :
    ∃ name, m.canonical = some name ∧ ListedIn rows name := by
  obtain ⟨old, hold, -, ⟨rfl, hseen | ⟨hconfigured, -⟩⟩ | ⟨hconfigured, -⟩⟩ :=
    applyListing_member hm
  · obtain ⟨name, hname, hlisted⟩ := exists_listed_of_seen hold hseen
    exact ⟨name, hname, mem_listedEndpoints.mp hlisted⟩
  · exact absurd (hseed.symm.trans hconfigured) (by simp)
  · exact absurd (hseed.symm.trans hconfigured) (by simp)

/-- A member whose name is not listed is unlisted after a listing. -/
theorem unlisted_of_not_listed {ep name : String} {m : Member}
    (hm : (applyListing members dialed rows).get? ep = some m) (hname : m.canonical = some name)
    (hunlisted : ¬ ListedIn rows name) : m.listed = .unlisted := by
  obtain ⟨old, hold, -, ⟨rfl, hseen | ⟨-, hnone⟩⟩ | ⟨-, hstate⟩⟩ := applyListing_member hm
  · obtain ⟨name', hname', hlisted⟩ := exists_listed_of_seen hold hseen
    obtain rfl := Option.some.inj (hname.symm.trans hname')
    exact absurd (mem_listedEndpoints.mp hlisted) hunlisted
  · rw [hname] at hnone
    cases hnone
  · exact hstate

/-- **Listings are shown.** The members show the rows after a listing exactly when no listed
name stands for an endpoint that is listed itself and is the name of no member: such an
endpoint takes its own name, and the node it stood for is no member. -/
theorem applyListing_reflects_iff (members : Members) (dialed : String)
    (rows : List (List Value)) :
    Reflects (applyListing members dialed rows) rows ↔ ¬ Clash members dialed rows := by
  constructor
  · exact not_clash_of_listed
  · intro h
    constructor
    · intro name hlisted
      obtain ⟨m, hm, hname, hstate⟩ := listed_of_not_clash h hlisted
      refine ⟨_, m, hm, hname, hstate, fun ep' m' hm' hname' => ?_⟩
      exact (nameHolder_of_member hm' hname').symm
    · intro ep m hm hseed
      exact listed_of_discovered hm hseed
    · intro ep m name hm _ hname hunlisted
      exact unlisted_of_not_listed hm hname hunlisted

end Reflected

/-- The members of an example with one configured endpoint. -/
def oneSeed : Members := OrdMap.ofList utf8 [("b", Member.new true)]

/-- The member that answers is the node `x`, and another node has the name `b`. -/
def clashingRows : List (List Value) :=
  [[⟨.string "x", trivial⟩, ⟨.string "ready", trivial⟩, ⟨.bool true, trivial⟩],
    [⟨.string "b", trivial⟩, ⟨.string "ready", trivial⟩, ⟨.bool false, trivial⟩]]

/-- A node answers at an endpoint that is the name of another one: no member has its name
after the listing. -/
theorem applyListing_loses_node :
    (∀ ep m, oneSeed.get? ep = some m → m.canonical = none) ∧ ListedIn clashingRows "x" ∧
      (∀ ep m, (applyListing oneSeed "b" clashingRows).get? ep = some m →
        m.canonical ≠ some "x") ∧
      ¬ Reflects (applyListing oneSeed "b" clashingRows) clashingRows := by
  have hlisted : ListedIn clashingRows "x" := ⟨_, List.mem_cons_self, .ready, true, by decide⟩
  have hnames : (applyListing oneSeed "b" clashingRows).entries.map (·.2.canonical) =
      [some "b"] := by rfl
  have hlost : ∀ ep m, (applyListing oneSeed "b" clashingRows).get? ep = some m →
      m.canonical ≠ some "x" := by
    intro ep m hm hx
    have hmem : m.canonical ∈ [some "b"] :=
      hnames ▸ List.mem_map_of_mem (f := (·.2.canonical)) (OrdMap.mem_entries.mpr hm)
    rw [hx] at hmem
    exact absurd hmem (by decide)
  refine ⟨fun ep m hm => ?_, hlisted, hlost, fun h => ?_⟩
  · rw [(Prod.mk.inj (List.mem_singleton.mp (OrdMap.mem_of_get?_ofList hm))).2]
    rfl
  · obtain ⟨ep, m, hm, hx, -⟩ := h.listed "x" hlisted
    exact hlost ep m hm hx

end Skaidb
