import Skaidb.Pool.Member

/-!
# Discovery

`apply_listing` folds the rows of `SHOW ENDPOINTS` into the members of a pool. A row says the
name and state of a member, and one of them is the member that answers. Members are
matched to rows by the names learned so far, so a configured endpoint and the name the
servers report for it are one member.
-/

namespace Skaidb

/-! ## Reading the rows -/

/-- The state of a row; a state this driver does not know reads as ready. -/
def rowState : String → MemberState
  | "resyncing" => .resyncing
  | "unreachable" => .unreachable
  | _ => .ready

/-- The endpoint and the state of a row and whether it is the member that answers; other
rows are passed over. -/
def readRow (row : List Value) : Option (String × MemberState × Bool) :=
  match row[0]?.map Value.raw, row[1]?.map Value.raw with
  | some (.string endpoint), some (.string state) =>
    let self := match row[2]?.map Value.raw with
      | some (.bool true) => true
      | _ => false
    some (endpoint, rowState state, self)
  | _, _ => none

/-- Set the state of an endpoint, at the end when it is not listed yet. -/
def setState (endpoint : String) (state : MemberState) :
    List (String × MemberState) → List (String × MemberState)
  | [] => [(endpoint, state)]
  | e :: listed =>
    if e.1 == endpoint then (e.1, state) :: listed else e :: setState endpoint state listed

/-- One row: the endpoint is listed, and the member that answers gets its name. -/
def takeRow (dialed : String) (acc : List (String × MemberState) × Members) (row : List Value) :
    List (String × MemberState) × Members :=
  match readRow row with
  | none => acc
  | some (endpoint, state, self) =>
    (setState endpoint state acc.1,
      if self then acc.2.modify dialed fun me => { me with canonical := some endpoint }
      else acc.2)

/-- The listed endpoints, and the members after the member at `dialed` has its name. -/
def takeRows (members : Members) (dialed : String) (rows : List (List Value)) :
    List (String × MemberState) × Members :=
  rows.foldl (takeRow dialed) ([], members)

/-! ## Folding them in -/

/-- The endpoint that stands for a name: a later configured one before an earlier one, and
either before a discovered one. -/
def nameMember (names : OrdMap utf8 String) (e : String × Member) : OrdMap utf8 String :=
  match e.2.canonical with
  | some name =>
    if e.2.seed || (names.get? name).isNone then names.insert name e.1 else names
  | none => names

/-- The endpoints by the names learned so far. -/
def byName (members : Members) : OrdMap utf8 String :=
  members.entries.foldl nameMember (OrdMap.ofList utf8 [])

/-- A member whose name stands for another endpoint goes. -/
def dropDuplicates (names : OrdMap utf8 String) (members : Members) : Members :=
  members.alter fun ep m =>
    match m.canonical with
    | some name => if names.get? name = some ep then some m else none
    | none => some m

/-- The member is listed with a state; back to ready it is measured afresh. -/
def Member.list (state : MemberState) (m : Member) : Member :=
  let m := if state = .ready ∧ m.listed ≠ .ready then { m.resetLatency with errors := 0 } else m
  { m with listed := state }

/-- The member with an endpoint, added when there is none, carries the endpoint as its
name. -/
def addMember (members : Members) (endpoint : String) : Members :=
  let members := match members.get? endpoint with
    | some _ => members
    | none => members.insert endpoint (Member.new false)
  members.modify endpoint fun m => { m with canonical := some endpoint }

/-- One listed endpoint: it is the member of that name, or a member of its own. -/
def listMember (names : OrdMap utf8 String) (acc : Members × List String)
    (e : String × MemberState) : Members × List String :=
  let (ep, members) := match names.get? e.1 with
    | some ep => (ep, acc.1)
    | none => (e.1, addMember acc.1 e.1)
  match members.get? ep with
  | some _ => (members.modify ep (Member.list e.2), acc.2 ++ [ep])
  | none => (members, acc.2)

/-- Configured members stay, unlisted if they have a name; others that were not seen go. -/
def keepSeen (seen : List String) (members : Members) : Members :=
  members.alter fun ep m =>
    if seen.contains ep || (m.seed && m.canonical.isNone) then some m
    else if m.seed then some { m with listed := .unlisted }
    else none

/-- Fold the rows answered by the member at `dialed` into the members. -/
def applyListing (members : Members) (dialed : String) (rows : List (List Value)) : Members :=
  let (listed, members) := takeRows members dialed rows
  let names := byName members
  let (members, seen) := listed.foldl (listMember names) (dropDuplicates names members, [])
  keepSeen seen members

/-! ## What a listing does to the records -/

/-- The members after the rows are read: the one that answers has its name. -/
def namedMembers (members : Members) (dialed : String) (rows : List (List Value)) : Members :=
  (takeRows members dialed rows).2

/-- The endpoints that the rows of a listing name, each one once. -/
def listedEndpoints (members : Members) (dialed : String) (rows : List (List Value)) :
    List String :=
  (takeRows members dialed rows).1.map Prod.fst

/-- The members that are left when those with a canonical name in common are dropped. -/
def distinctMembers (members : Members) (dialed : String) (rows : List (List Value)) : Members :=
  dropDuplicates (byName (namedMembers members dialed rows)) (namedMembers members dialed rows)

/-- The listing adds a record for the endpoint: it is listed, it is not the name of a member
and no member that stays has it. -/
def Adds (members : Members) (dialed : String) (rows : List (List Value)) (ep : String) : Prop :=
  ep ∈ listedEndpoints members dialed rows ∧
    (byName (namedMembers members dialed rows)).get? ep = none ∧
      (distinctMembers members dialed rows).get? ep = none

instance (members : Members) (dialed : String) (rows : List (List Value)) (ep : String) :
    Decidable (Adds members dialed rows ep) := inferInstanceAs (Decidable (_ ∧ _ ∧ _))

/-- The state of a listing leaves the rest of the record. -/
theorem Member.continues_list (m : Member) (state : MemberState) : m.Continues (m.list state) := by
  unfold Member.list
  split <;> exact ⟨rfl, rfl, rfl, rfl, rfl, rfl⟩

/-- Learning the canonical name of a member leaves the rest of its record as it is. -/
theorem Member.continues_canonical (m : Member) (name : Option String) :
    m.Continues { m with canonical := name } := ⟨rfl, rfl, rfl, rfl, rfl, rfl⟩

/-- Changing one record to one that continues it leaves every record continuing what it was before
the listing. -/
theorem rel_modify {origin : String → Option Member} {members : Members} {key : String}
    {f : Member → Member} (hf : ∀ m : Member, m.Continues (f m))
    (h : ∀ ep, Option.Rel Member.Continues (origin ep) (members.get? ep)) (ep : String) :
    Option.Rel Member.Continues (origin ep) ((members.modify key f).get? ep) := by
  rw [OrdMap.get?_modify]
  have hep := h ep
  generalize origin ep = old, members.get? ep = value at hep
  split
  · cases hep with
    | none => exact Option.Rel.none
    | some hm => exact Option.Rel.some (hm.trans (hf _))
  · exact hep

/-- Every record stays and continues when the rows are read. -/
theorem namedMembers_relates (members : Members) (dialed : String) (rows : List (List Value)) :
    OrdMap.Relates Member.Continues members (namedMembers members dialed rows) := by
  have hfold : ∀ acc : List (String × MemberState) × Members,
      OrdMap.Relates Member.Continues members acc.2 →
        OrdMap.Relates Member.Continues members (rows.foldl (takeRow dialed) acc).2 := by
    induction rows with
    | nil => exact fun _ h => h
    | cons row rows ih =>
      intro acc hacc
      refine ih _ ?_
      unfold takeRow
      split
      · exact hacc
      · dsimp only
        split
        · refine hacc.trans (fun _ _ _ => Member.Continues.trans) ?_
          exact OrdMap.relates_modify Member.Continues.refl (fun m => m.continues_canonical _) _
        · exact hacc
  exact hfold _ (OrdMap.Relates.refl Member.Continues.refl _)

/-- Adding an endpoint of its own makes it a member that is named like its endpoint, and leaves the
others. -/
theorem get?_addMember (members : Members) (endpoint ep : String) :
    (addMember members endpoint).get? ep =
      if ep = endpoint then some { (members.get? ep).getD (Member.new false) with
        canonical := some endpoint }
      else members.get? ep := by
  unfold addMember
  rw [OrdMap.get?_modify]
  by_cases hep : ep = endpoint
  · subst hep
    cases hm : members.get? ep with
    | none => simp
    | some m => simp [hm]
  · cases members.get? endpoint with
    | none => simp [hep]
    | some m => simp [hep]

section Fold

variable (names : OrdMap utf8 String) (members : Members)

/-- The record an endpoint has when the endpoints in `done` are listed: the one it had, or a
new one when it is listed and is no name. -/
def origin (done : List (String × MemberState)) (ep : String) : Option Member :=
  (members.get? ep).or
    (if ep ∈ done.map Prod.fst ∧ names.get? ep = none then some (Member.new false) else none)

/-- What is known after listing the endpoints in `done`. -/
structure Folded (done : List (String × MemberState)) (acc : Members × List String) : Prop where
  /-- Every record continues its origin. -/
  records : ∀ ep, Option.Rel Member.Continues (origin names members done ep) (acc.1.get? ep)
  /-- An endpoint that is no name has been seen. -/
  seen : ∀ ep, ep ∈ done.map Prod.fst → names.get? ep = none → ep ∈ acc.2

variable {names members}

/-- An endpoint listed under a name does not make another one listed under none. -/
theorem listed_append_iff {done : List (String × MemberState)} {e : String × MemberState}
    {ep : String} (h : ¬ (ep = e.1 ∧ names.get? ep = none)) :
    (ep ∈ (done ++ [e]).map Prod.fst ∧ names.get? ep = none) ↔
      (ep ∈ done.map Prod.fst ∧ names.get? ep = none) := by
  simp only [List.map_append, List.mem_append, List.map_cons, List.map_nil, List.mem_singleton]
  constructor
  · rintro ⟨hmem | heq, hnone⟩
    · exact ⟨hmem, hnone⟩
    · exact absurd ⟨heq, hnone⟩ h
  · exact fun hmem => ⟨.inl hmem.1, hmem.2⟩

/-- An endpoint listed under a name has the origin it had. -/
theorem origin_of_name {done : List (String × MemberState)} {e : String × MemberState}
    {ep : String} (h : ¬ (ep = e.1 ∧ names.get? ep = none)) :
    origin names members (done ++ [e]) ep = origin names members done ep := by
  unfold origin
  simp only [listed_append_iff h]

/-- The record with an endpoint continues its origin; a new one stands for none. -/
theorem continues_getD {done : List (String × MemberState)} {ep : String} {value : Option Member}
    (h : Option.Rel Member.Continues (origin names members done ep) value) :
    ((members.get? ep).getD (Member.new false)).Continues (value.getD (Member.new false)) := by
  unfold origin at h
  generalize members.get? ep = old at h ⊢
  cases old with
  | some m =>
    cases h with
    | some hm => exact hm
  | none =>
    rw [Option.none_or] at h
    split at h
    · cases h with
      | some hm => exact hm
    · cases h with
      | none => exact Member.Continues.refl _

/-- A listed endpoint that is a member's canonical name only gives that member its state. -/
theorem listMember_of_name {e : String × MemberState} {ep₀ : String}
    (hname : names.get? e.1 = some ep₀) (acc : Members × List String) :
    (∀ ep, (listMember names acc e).1.get? ep = (acc.1.modify ep₀ (Member.list e.2)).get? ep) ∧
      acc.2 ⊆ (listMember names acc e).2 := by
  unfold listMember
  simp only [hname]
  cases hm : acc.1.get? ep₀ with
  | some m => exact ⟨fun _ => rfl, List.subset_append_left _ _⟩
  | none =>
    refine ⟨fun ep => ?_, fun _ h => h⟩
    by_cases hep : ep = ep₀
    · subst hep
      simp [hm]
    · simp [hep]

/-- A listed endpoint that is nobody's canonical name is added as a member and gets its state. -/
theorem listMember_of_none {e : String × MemberState} (hname : names.get? e.1 = none)
    (acc : Members × List String) :
    listMember names acc e =
      ((addMember acc.1 e.1).modify e.1 (Member.list e.2), acc.2 ++ [e.1]) := by
  unfold listMember
  simp only [hname, get?_addMember, if_true]

/-- What holds of the members once some endpoints are folded in holds once one more is. -/
theorem Folded.step {done : List (String × MemberState)} {acc : Members × List String}
    (h : Folded names members done acc) (e : String × MemberState) :
    Folded names members (done ++ [e]) (listMember names acc e) := by
  cases hname : names.get? e.1 with
  | some ep₀ =>
    obtain ⟨hget, hsub⟩ := listMember_of_name hname acc
    have hne {ep : String} : ¬ (ep = e.1 ∧ names.get? ep = none) := by
      rintro ⟨rfl, hnone⟩
      rw [hname] at hnone
      cases hnone
    constructor
    · intro ep
      rw [origin_of_name hne, hget]
      exact rel_modify (fun m => m.continues_list e.2) h.records ep
    · intro ep hep hnone
      rw [List.map_append, List.mem_append] at hep
      rcases hep with hep | hep
      · exact hsub (h.seen ep hep hnone)
      · exact absurd ⟨List.mem_singleton.mp hep, hnone⟩ hne
  | none =>
    rw [listMember_of_none hname]
    constructor
    · refine rel_modify (fun m => m.continues_list e.2) fun ep => ?_
      rw [get?_addMember]
      by_cases hep : ep = e.1
      · have hold := h.records ep
        rw [if_pos hep]
        have horigin : origin names members (done ++ [e]) ep =
            some ((members.get? ep).getD (Member.new false)) := by
          subst hep
          unfold origin
          cases members.get? e.1 <;> simp [hname]
        rw [horigin]
        refine Option.Rel.some (Member.Continues.trans ?_ (Member.continues_canonical _ _))
        exact continues_getD hold
      · rw [if_neg hep, origin_of_name fun h => hep h.1]
        exact h.records ep
    · intro ep hep hnone
      rw [List.map_append, List.mem_append] at hep
      rw [List.mem_append]
      exact hep.imp (fun hep => h.seen ep hep hnone) id

/-- What holds of the members once all listed endpoints are folded in, as `listMember` does one by
one. -/
theorem folded (names : OrdMap utf8 String) (members : Members)
    (listed : List (String × MemberState)) :
    Folded names members listed (listed.foldl (listMember names) (members, [])) := by
  induction listed using List.reverseRecOn with
  | nil =>
    refine ⟨fun ep => ?_, fun _ h => absurd h List.not_mem_nil⟩
    have horigin : origin names members [] ep = members.get? ep := by simp [origin]
    rw [horigin]
    exact OrdMap.Relates.refl Member.Continues.refl members ep
  | append_singleton listed e ih =>
    rw [List.foldl_append]
    exact ih.step e

end Fold

section Apply

variable (members : Members) (dialed : String) (rows : List (List Value))

/-- The members and the endpoints seen after all listed endpoints are folded in. -/
def foldedMembers : Members × List String :=
  (takeRows members dialed rows).1.foldl
    (listMember (byName (namedMembers members dialed rows)))
    (distinctMembers members dialed rows, [])

/-- `applyListing` by its stages: the endpoints are folded in, and members that were not seen are
dropped. -/
theorem applyListing_eq : applyListing members dialed rows =
    keepSeen (foldedMembers members dialed rows).2 (foldedMembers members dialed rows).1 := rfl

/-- What becomes of an endpoint that is not dropped as a duplicate or is added. -/
theorem foldedMembers_rel (ep : String) :
    Option.Rel Member.Continues
      (((distinctMembers members dialed rows).get? ep).or
        (if Adds members dialed rows ep then some (Member.new false) else none))
      ((foldedMembers members dialed rows).1.get? ep) := by
  have h := (folded (byName (namedMembers members dialed rows))
    (distinctMembers members dialed rows) (takeRows members dialed rows).1).records ep
  unfold origin at h
  rcases Option.eq_none_or_eq_some ((distinctMembers members dialed rows).get? ep) with hm | ⟨m, hm⟩
  · rw [hm, Option.none_or] at h ⊢
    simpa only [Adds, listedEndpoints, foldedMembers, hm, and_true] using h
  · rw [hm, Option.some_or] at h ⊢
    exact h

variable {members dialed rows}

/-- A record that stays as no duplicate continues the one before the listing. -/
theorem distinctMembers_continues {ep : String} {m : Member}
    (h : (distinctMembers members dialed rows).get? ep = some m) :
    ∃ old, members.get? ep = some old ∧ old.Continues m := by
  rw [distinctMembers, dropDuplicates, OrdMap.get?_alter, Option.bind_eq_some_iff] at h
  obtain ⟨named, hnamed, hkeep⟩ := h
  have hm : named = m := by
    split at hkeep
    · split at hkeep
      · exact Option.some.inj hkeep
      · cases hkeep
    · exact Option.some.inj hkeep
  subst hm
  exact (namedMembers_relates members dialed rows).origin hnamed

/-- **Records after a listing.** A member after a listing continues the one with its endpoint
before it, or is a new one that the listing adds. -/
theorem applyListing_record {ep : String} {m' : Member}
    (h : (applyListing members dialed rows).get? ep = some m') :
    (∃ m, members.get? ep = some m ∧ m.Continues m' ∧ ¬ Adds members dialed rows ep) ∨
      (Adds members dialed rows ep ∧ (Member.new false).Continues m') := by
  rw [applyListing_eq, keepSeen, OrdMap.get?_alter, Option.bind_eq_some_iff] at h
  obtain ⟨m, hm, hkeep⟩ := h
  have hstay : m.Continues m' := by
    split at hkeep
    · obtain rfl := Option.some.inj hkeep
      exact Member.Continues.refl m
    · split at hkeep
      · obtain rfl := Option.some.inj hkeep
        exact ⟨rfl, rfl, rfl, rfl, rfl, rfl⟩
      · cases hkeep
  have hrel := foldedMembers_rel members dialed rows ep
  rw [hm] at hrel
  cases hold : (distinctMembers members dialed rows).get? ep with
  | some old =>
    rw [hold, Option.some_or] at hrel
    cases hrel with
    | some hcont =>
      obtain ⟨first, hfirst, hcont'⟩ := distinctMembers_continues hold
      refine .inl ⟨first, hfirst, (hcont'.trans hcont).trans hstay, fun hadds => ?_⟩
      rw [hadds.2.2] at hold
      cases hold
  | none =>
    rw [hold, Option.none_or] at hrel
    split at hrel
    · next hadds =>
      cases hrel with
      | some hcont => exact .inr ⟨hadds, hcont.trans hstay⟩
    · cases hrel

/-- An endpoint that a listing adds is a new member after it. -/
theorem get?_applyListing_of_adds {ep : String} (h : Adds members dialed rows ep) :
    ∃ m, (applyListing members dialed rows).get? ep = some m ∧ (Member.new false).Continues m := by
  have hrel := foldedMembers_rel members dialed rows ep
  rw [h.2.2, Option.none_or, if_pos h] at hrel
  generalize hfolded : (foldedMembers members dialed rows).1.get? ep = value at hrel
  cases hrel with
  | @some _ m hm =>
    have hseen : ep ∈ (foldedMembers members dialed rows).2 := (folded _ _ _).seen ep h.1 h.2.1
    refine ⟨m, ?_, hm⟩
    rw [applyListing_eq, keepSeen, OrdMap.get?_alter, hfolded, Option.bind_some]
    simp [hseen]

end Apply

end Skaidb
