import Skaidb.Auth.Rbac
import Skaidb.Codec.Text

/-!
# The listing of grants

Every grant of a role is listed as a row of three texts: the role, the privilege and the
object. An object other than a table is written with a mark of its kind in front of its name,
a table by its bare name, and nothing is escaped. Two objects are written alike when the name
of a table spells the other object, or when the separator between the names of a table and a
column also occurs inside one of them.
-/

namespace Skaidb

/-- `privilege_name`: the name by which the listing of grants shows a privilege. -/
def privilegeName : Privilege → String
  | .select => "select"
  | .insert => "insert"
  | .update => "update"
  | .delete => "delete"
  | .create => "create"
  | .drop => "drop"
  | .grant => "grant"
  | .monitor => "monitor"
  | .advisor => "advisor"
  | .publish => "publish"
  | .subscribe => "subscribe"
  | .execute => "execute"
  | .bi => "bi"
  | .admin => "admin"

/-- A privilege is told by the name under which it is listed. -/
theorem privilegeName_injective : Function.Injective privilegeName := by
  intro p q h
  cases p <;> cases q <;> first | rfl | exact absurd h (by decide)

/-- No privilege has the name that marks inheritance. -/
theorem privilegeName_ne_role (p : Privilege) : privilegeName p ≠ "ROLE" := by
  cases p <;> decide

/-- The mark between the names of a table and a column. -/
def columnMark : String := "\x1e"

/-- The text of an object in a listing: its kind, where the kind needs a mark, and its name. -/
def Object.text : Object → String
  | .global => "*"
  | .table t => t
  | .database d => "db:" ++ d
  | .mqttTopic f => "topic:" ++ f
  | .procedure p => "proc:" ++ p
  | .column t c => "col:" ++ t ++ columnMark ++ c

/-! ## Objects that are listed alike -/

/-- Two different objects with the same text: a table named like the text of the other object,
or two columns of which a table's name goes on into the name of the column of the other. -/
inductive Object.Alike : Object → Object → Prop
  | global : Alike (.table "*") .global
  | database (d : String) : Alike (.table ("db:" ++ d)) (.database d)
  | mqttTopic (f : String) : Alike (.table ("topic:" ++ f)) (.mqttTopic f)
  | procedure (p : String) : Alike (.table ("proc:" ++ p)) (.procedure p)
  | column (t c : String) : Alike (.table ("col:" ++ t ++ columnMark ++ c)) (.column t c)
  | columns (t m c : String) :
      Alike (.column (t ++ columnMark ++ m) c) (.column t (m ++ columnMark ++ c))

namespace Object

/-- Objects that are alike have the same text, so a listing cannot tell them apart. -/
theorem Alike.text_eq {o o' : Object} (h : Alike o o') : o.text = o'.text := by
  cases h with
  | columns t m c => simp only [text, String.append_assoc]
  | _ => rfl

/-- Two objects that the listing shows alike are not the same object. -/
theorem Alike.ne {o o' : Object} (h : Alike o o') : o ≠ o' := by
  cases h with
  | columns t m c =>
    intro heq
    have hlength := congrArg String.length (Object.column.inj heq).1
    simp only [String.length_append, columnMark] at hlength
    have hmark : ("\x1e" : String).length = 1 := rfl
    omega
  | _ =>
    intro heq
    cases heq

/-- Columns with the same text are the same or alike. -/
theorem column_text_eq {t c t' c' : String}
    (h : (Object.column t c).text = (Object.column t' c').text) :
    Object.column t c = .column t' c' ∨ Alike (.column t c) (.column t' c') ∨
      Alike (.column t' c') (.column t c) := by
  have hmark : columnMark.toList = ['\x1e'] := rfl
  have hlists : t.toList ++ '\x1e' :: c.toList = t'.toList ++ '\x1e' :: c'.toList := by
    have := congrArg String.toList h
    simpa [text, String.toList_append, hmark] using this
  have hjoin {a b : String} {m : List Char} (hab : a.toList = b.toList ++ '\x1e' :: m) :
      a = b ++ columnMark ++ String.ofList m := by
    apply String.toList_injective
    simpa [String.toList_append, hmark] using hab
  have hjoin' {a b : String} {m : List Char} (hab : a.toList = m ++ '\x1e' :: b.toList) :
      a = String.ofList m ++ columnMark ++ b := by
    apply String.toList_injective
    simpa [String.toList_append, hmark] using hab
  rcases Codec.append_separator_inj hlists with ⟨ht, hc⟩ | ⟨m, ht, hc⟩ | ⟨m, ht, hc⟩
  · left
    rw [String.toList_injective ht, String.toList_injective hc]
  · right; right
    rw [hjoin ht, hjoin' hc]
    exact Alike.columns t (String.ofList m) c'
  · right; left
    rw [hjoin ht, hjoin' hc]
    exact Alike.columns t' (String.ofList m) c

/-- A table that is named like the text of another object is alike to it in the listing. -/
theorem alike_table {o : Object} (h : ∀ t, o ≠ .table t) : Alike (.table o.text) o := by
  cases o with
  | global => exact Alike.global
  | table t => exact absurd rfl (h t)
  | database d => exact Alike.database d
  | mqttTopic f => exact Alike.mqttTopic f
  | procedure p => exact Alike.procedure p
  | column t c => exact Alike.column t c

/-- The character that the text of an object other than a table starts with. -/
def lead : Object → Char
  | .global => '*'
  | .table _ => ' '
  | .database _ => 'd'
  | .mqttTopic _ => 't'
  | .procedure _ => 'p'
  | .column _ _ => 'c'

/-- The text of an object other than a table tells its kind. -/
theorem head?_text {o : Object} (h : ∀ t, o ≠ .table t) : o.text.toList.head? = some o.lead := by
  cases o with
  | table t => exact absurd rfl (h t)
  | _ => simp [text, lead, String.toList_append]

/-- Objects of one kind with the same text are the same or alike. -/
theorem eq_or_alike_of_lead {o o' : Object} (hlead : o.lead = o'.lead) (h : o.text = o'.text) :
    o = o' ∨ Alike o o' ∨ Alike o' o := by
  cases o with
  | global =>
    cases o' with
    | global => exact Or.inl rfl
    | _ => simp [lead] at hlead
  | table t =>
    cases o' with
    | table t' => exact Or.inl (congrArg Object.table h)
    | _ => simp [lead] at hlead
  | database d =>
    cases o' with
    | database d' => exact Or.inl (congrArg Object.database ((String.append_right_inj _).mp h))
    | _ => simp [lead] at hlead
  | mqttTopic f =>
    cases o' with
    | mqttTopic f' => exact Or.inl (congrArg Object.mqttTopic ((String.append_right_inj _).mp h))
    | _ => simp [lead] at hlead
  | procedure p =>
    cases o' with
    | procedure p' => exact Or.inl (congrArg Object.procedure ((String.append_right_inj _).mp h))
    | _ => simp [lead] at hlead
  | column t c =>
    cases o' with
    | column t' c' => exact column_text_eq h
    | _ => simp [lead] at hlead

/-- **What the text of an object says.** Different objects have the same text exactly when
they are alike. -/
theorem text_eq_iff {o o' : Object} : o.text = o'.text ↔ o = o' ∨ Alike o o' ∨ Alike o' o := by
  constructor
  · intro h
    by_cases ho : ∃ t, o = .table t
    · obtain ⟨t, rfl⟩ := ho
      obtain rfl : t = o'.text := h
      by_cases ho' : ∃ t', o' = .table t'
      · obtain ⟨t', rfl⟩ := ho'
        exact Or.inl rfl
      · exact Or.inr (Or.inl (alike_table (not_exists.mp ho')))
    · by_cases ho' : ∃ t', o' = .table t'
      · obtain ⟨t', rfl⟩ := ho'
        obtain rfl : o.text = t' := h
        exact Or.inr (Or.inr (alike_table (not_exists.mp ho)))
      · have hlead : some o.lead = some o'.lead := by
          rw [← head?_text (not_exists.mp ho), ← head?_text (not_exists.mp ho'), h]
        exact eq_or_alike_of_lead (Option.some.inj hlead) h
  · rintro (rfl | h | h)
    · rfl
    · exact h.text_eq
    · exact h.text_eq.symm

end Object

/-! ## The listing -/

/-- What a role holds: a privilege on an object, or the membership in another role. -/
inductive Holding where
  | privilege (privilege : Privilege) (object : Object)
  | membership (parent : String)
  deriving DecidableEq

/-- The row in which a listing shows that a role holds something. -/
def Holding.row (role : String) : Holding → String × String × String
  | .privilege p object => (role, privilegeName p, object.text)
  | .membership parent => (role, "ROLE", parent)

/-- The role holds this itself, and not through a role that it inherits from. -/
def Role.Holds (r : Role) : Holding → Prop
  | .privilege p object => RoleStore.grantsContains r.grants object p = true
  | .membership parent => r.inherits.contains parent = true

namespace RoleStore

/-- The rows of a listing about one role: one for each privilege it has on an object and one for
each membership. -/
def grantsOf (name : String) (r : Role) : List (String × String × String) :=
  (r.grants.entries.flatMap fun (object, privs) =>
    privs.toList.map fun p => (name, privilegeName p, object.text)) ++
  r.inherits.toList.map fun parent => (name, "ROLE", parent)

/-- Every grant and every inheritance edge, of one role or of all of them. -/
def grants (s : RoleStore) (only : Option String) : List (String × String × String) :=
  s.roles.entries.flatMap fun (name, r) =>
    if only.any fun o => o != name then [] else grantsOf name r

/-- The rows of a role are those of what it holds. -/
theorem mem_grantsOf {name : String} {r : Role} {row : String × String × String} :
    row ∈ grantsOf name r ↔ ∃ e, r.Holds e ∧ row = e.row name := by
  unfold grantsOf
  simp only [List.mem_append, List.mem_flatMap, List.mem_map, OrdSet.mem_toList, Prod.exists,
    OrdMap.mem_entries]
  constructor
  · rintro (⟨object, privs, hprivs, p, hp, rfl⟩ | ⟨parent, hparent, rfl⟩)
    · refine ⟨.privilege p object, ?_, rfl⟩
      simpa [Role.Holds, grantsContains, hprivs] using hp
    · exact ⟨.membership parent, hparent, rfl⟩
  · rintro ⟨e, he, rfl⟩
    cases e with
    | privilege p object =>
      left
      simp only [Role.Holds, grantsContains] at he
      split at he
      · next privs hprivs => exact ⟨object, privs, hprivs, p, he, rfl⟩
      · cases he
    | membership parent => exact Or.inr ⟨parent, he, rfl⟩

/-- The listing has the rows of what the roles hold. -/
theorem mem_grants {s : RoleStore} {row : String × String × String} :
    row ∈ s.grants none ↔
      ∃ name r e, s.roles.get? name = some r ∧ r.Holds e ∧ row = e.row name := by
  simp only [grants, Option.any_none, Bool.false_eq_true, if_false, List.mem_flatMap, Prod.exists,
    OrdMap.mem_entries, mem_grantsOf]
  constructor
  · rintro ⟨name, r, hr, e, he, hrow⟩
    exact ⟨name, r, e, hr, he, hrow⟩
  · rintro ⟨name, r, e, hr, he, hrow⟩
    exact ⟨name, r, hr, e, he, hrow⟩

/-- Two holdings have the same row when they are the same, or the same privilege on objects
that are alike. -/
theorem row_eq_iff {name : String} {e e' : Holding} :
    e.row name = e'.row name ↔ e = e' ∨ ∃ p o o', e = .privilege p o ∧ e' = .privilege p o' ∧
      (Object.Alike o o' ∨ Object.Alike o' o) := by
  cases e with
  | privilege p o =>
    cases e' with
    | privilege p' o' =>
      simp only [Holding.row, Prod.mk.injEq, true_and, Object.text_eq_iff,
        privilegeName_injective.eq_iff, Holding.privilege.injEq]
      constructor
      · rintro ⟨rfl, rfl | halike⟩
        · exact Or.inl ⟨rfl, rfl⟩
        · exact Or.inr ⟨p, o, o', ⟨rfl, rfl⟩, ⟨rfl, rfl⟩, halike⟩
      · rintro (⟨rfl, rfl⟩ | ⟨q, x, x', ⟨rfl, rfl⟩, ⟨rfl, rfl⟩, halike⟩)
        · exact ⟨rfl, Or.inl rfl⟩
        · exact ⟨rfl, Or.inr halike⟩
    | membership parent => simp [Holding.row, privilegeName_ne_role]
  | membership parent =>
    cases e' with
    | privilege p' o' => simp [Holding.row, (privilegeName_ne_role _).symm]
    | membership parent' => simp [Holding.row]

/-! ## What the listing tells apart -/

/-- Different holdings of the role are listed as different rows. -/
def TellsApart (s : RoleStore) (role : String) : Prop :=
  ∀ r, s.roles.get? role = some r → ∀ e e', r.Holds e → r.Holds e' → e ≠ e' →
    e.row role ∈ s.grants none ∧ e'.row role ∈ s.grants none ∧ e.row role ≠ e'.row role

/-- The role holds no privilege on two objects that are alike. -/
def HoldsNoneAlike (s : RoleStore) (role : String) : Prop :=
  ∀ r, s.roles.get? role = some r → ∀ p o o', grantsContains r.grants o p = true →
    grantsContains r.grants o' p = true → ¬ Object.Alike o o'

/-- The holdings of a role are told apart exactly when no two objects of a privilege are
alike. -/
theorem tellsApart_iff {s : RoleStore} {role : String} :
    s.TellsApart role ↔ s.HoldsNoneAlike role := by
  constructor
  · intro h r hr p o o' ho ho' halike
    have hne : Holding.privilege p o ≠ .privilege p o' :=
      fun heq => halike.ne (Holding.privilege.inj heq).2
    exact (h r hr (.privilege p o) (.privilege p o') ho ho' hne).2.2
      (row_eq_iff.mpr (Or.inr ⟨p, o, o', rfl, rfl, Or.inl halike⟩))
  · intro h r hr e e' he he' hne
    refine ⟨mem_grants.mpr ⟨role, r, e, hr, he, rfl⟩, mem_grants.mpr ⟨role, r, e', hr, he', rfl⟩,
      fun hrow => ?_⟩
    rcases row_eq_iff.mp hrow with heq | ⟨p, o, o', rfl, rfl, halike | halike⟩
    · exact hne heq
    · exact h r hr p o o' he he' halike
    · exact h r hr p o' o he' he halike

/-- Stores with the same roles and the same listing give the same answers. -/
def ListingDecides (s s' : RoleStore) : Prop :=
  (∀ name, (s.roles.get? name).isSome = (s'.roles.get? name).isSome) →
    s.grants none = s'.grants none → ∀ role privilege object,
      s.hasPrivilege role privilege object = s'.hasPrivilege role privilege object

/-- All grants of the store are on objects of a kind. -/
def GrantsOn (kind : Object → Prop) (s : RoleStore) : Prop :=
  ∀ role r, s.roles.get? role = some r → ∀ p o, grantsContains r.grants o p = true → kind o

section Decides

variable {kind : Object → Prop} {s s' : RoleStore}

/-- What a role holds in one store it holds in another with the same listing. -/
theorem holds_of_grants (hkind : ∀ o o', kind o → kind o' → ¬ Object.Alike o o')
    (hs : GrantsOn kind s) (hs' : GrantsOn kind s') (hlist : s.grants none = s'.grants none)
    {role : String} {r : Role} (hr : s.roles.get? role = some r) {e : Holding} (he : r.Holds e) :
    ∃ r', s'.roles.get? role = some r' ∧ r'.Holds e := by
  have hrow : e.row role ∈ s.grants none := mem_grants.mpr ⟨role, r, e, hr, he, rfl⟩
  rw [hlist] at hrow
  obtain ⟨role', r', e', hr', he', heq⟩ := mem_grants.mp hrow
  have hrole : ∀ (x : Holding) name, (x.row name).1 = name := fun x name => by cases x <;> rfl
  obtain rfl : role = role' := by rw [← hrole e role, heq, hrole]
  refine ⟨r', hr', ?_⟩
  rcases row_eq_iff.mp heq with rfl | ⟨p, o, o', rfl, rfl, halike | halike⟩
  · exact he'
  · exact absurd halike (hkind o o' (hs role r hr p o he) (hs' role r' hr' p o' he'))
  · exact absurd halike (hkind o' o (hs' role r' hr' p o' he') (hs role r hr p o he))

/-- What is allowed in one store is allowed in another with the same listing. -/
theorem allows_of_grants (hkind : ∀ o o', kind o → kind o' → ¬ Object.Alike o o')
    (hs : GrantsOn kind s) (hs' : GrantsOn kind s') (hlist : s.grants none = s'.grants none)
    {role : String} {privilege : Privilege} {object : Object}
    (h : s.Allows role privilege object) : s'.Allows role privilege object := by
  obtain ⟨name, r, hreach, hr, hhold⟩ := h
  have hreach' : s'.Reaches role name := by
    refine Relation.ReflTransGen.mono (fun member parent hedge => ?_) _ _ hreach
    obtain ⟨m, hm, hparent⟩ := hedge
    exact holds_of_grants hkind hs hs' hlist hm (show m.Holds (.membership parent) from hparent)
  have hgrant {p : Privilege} {o : Object} (hp : grantsContains r.grants o p = true) :
      ∃ r', s'.roles.get? name = some r' ∧ grantsContains r'.grants o p = true :=
    holds_of_grants hkind hs hs' hlist hr (show r.Holds (.privilege p o) from hp)
  unfold Grants.Hold at hhold
  rcases hhold with hp | hp | hp | hp
  · obtain ⟨r', hr', hp'⟩ := hgrant hp
    exact ⟨name, r', hreach', hr', Or.inl hp'⟩
  · obtain ⟨r', hr', hp'⟩ := hgrant hp
    exact ⟨name, r', hreach', hr', Or.inr (Or.inl hp')⟩
  · obtain ⟨r', hr', hp'⟩ := hgrant hp
    exact ⟨name, r', hreach', hr', Or.inr (Or.inr (Or.inl hp'))⟩
  · obtain ⟨r', hr', hp'⟩ := hgrant hp
    exact ⟨name, r', hreach', hr', Or.inr (Or.inr (Or.inr hp'))⟩

/-- Among objects that are not alike the listing decides. -/
theorem listingDecides (hkind : ∀ o o', kind o → kind o' → ¬ Object.Alike o o')
    (hs : GrantsOn kind s) (hs' : GrantsOn kind s') : ListingDecides s s' := by
  intro _ hlist role privilege object
  rw [Bool.eq_iff_iff, hasPrivilege_iff_allows, hasPrivilege_iff_allows]
  exact ⟨allows_of_grants hkind hs hs' hlist, allows_of_grants hkind hs' hs hlist.symm⟩

end Decides

/-! ## Stores that are listed alike -/

/-- A store with one role that is granted `select` on the objects. -/
def reader (objects : List Object) : Except RbacError RoleStore := do
  let s ← RoleStore.new.createRole "reader"
  objects.foldlM (fun s object => s.grant "reader" .select object) s

/-- The role that is granted `select` on the objects. -/
def readerRole (objects : List Object) : Role :=
  ⟨objects.foldl (fun grants object => addGrant grants object .select) Role.default.grants,
    OrdSet.empty utf8⟩

/-- The role of the example may read its objects and has no other privilege. -/
theorem grantsContains_readerRole {objects : List Object} {o : Object} {p : Privilege} :
    grantsContains (readerRole objects).grants o p = true ↔ o ∈ objects ∧ p = .select := by
  have hadd (grants : Grants) (object : Object) :
      grantsContains (addGrant grants object .select) o p = true ↔
        grantsContains grants o p = true ∨ (o = object ∧ p = .select) := by
    by_cases ho : o = object
    · subst ho
      cases hset : grants.get? o with
      | none =>
        have hempty : (OrdSet.empty Privilege.rank).contains p = false := rfl
        simp [grantsContains, addGrant, hset, hempty]
      | some set => simp [grantsContains, addGrant, hset, or_comm]
    · simp [grantsContains, addGrant, ho]
  have hfold (grants : Grants) :
      grantsContains (objects.foldl (fun g object => addGrant g object .select) grants) o p = true ↔
        grantsContains grants o p = true ∨ (o ∈ objects ∧ p = .select) := by
    induction objects generalizing grants with
    | nil => simp
    | cons object objects ih =>
      rw [List.foldl_cons, ih, hadd, or_assoc, List.mem_cons, or_and_right]
  rw [readerRole, hfold]
  exact or_iff_right fun h => by cases h

/-- Creating the reader's store succeeds, and the reader is the one role in it. -/
theorem reader_eq (objects : List Object) :
    ∃ s, reader objects = .ok s ∧ ∀ name,
      s.roles.get? name = if name == "reader" then some (readerRole objects) else none := by
  have hfold (objects : List Object) (s : RoleStore) (grants : Grants)
      (hs : ∀ name, s.roles.get? name =
        if name == "reader" then some ⟨grants, OrdSet.empty utf8⟩ else none) :
      ∃ s', objects.foldlM (fun s object => s.grant "reader" .select object) s = .ok s' ∧
        ∀ name, s'.roles.get? name = if name == "reader" then
          some ⟨objects.foldl (fun g object => addGrant g object .select) grants,
            OrdSet.empty utf8⟩ else none := by
    induction objects generalizing s grants with
    | nil => exact ⟨s, rfl, hs⟩
    | cons object objects ih =>
      have hgrant : s.grant "reader" .select object = .ok ⟨s.roles.modify "reader" fun r =>
          { r with grants := addGrant r.grants object .select }⟩ := by
        simp [grant, hs]
      rw [List.foldlM_cons, hgrant]
      refine ih _ (addGrant grants object .select) fun name => ?_
      by_cases hname : name = "reader" <;> simp [hs, hname]
  exact hfold objects _ Role.default.grants fun name => by
    rw [OrdMap.get?_insert]
    rfl

/-- The listing of a store with one role and one grant has the row of that grant alone. -/
theorem grants_reader_singleton (o : Object) :
    ∃ s, reader [o] = .ok s ∧ s.grants none = [("reader", "select", o.text)] := ⟨_, rfl, rfl⟩

/-- The store built for the objects has its grants on these objects only, so what holds of them
holds of its grants. -/
theorem grantsOn_reader {objects : List Object} {s : RoleStore} (h : reader objects = .ok s)
    {kind : Object → Prop} (hkind : ∀ o ∈ objects, kind o) : GrantsOn kind s := by
  obtain ⟨s', hs', hroles⟩ := reader_eq objects
  obtain rfl := Except.ok.inj (h.symm.trans hs')
  intro role r hr p o ho
  rw [hroles] at hr
  split at hr
  · obtain rfl := Option.some.inj hr
    exact hkind o (grantsContains_readerRole.mp ho).1
  · cases hr

/-- The reader may select from the objects it was granted, and from all when that was granted. -/
theorem hasPrivilege_reader {objects : List Object} {s : RoleStore} (h : reader objects = .ok s)
    (object : Object) :
    s.hasPrivilege "reader" .select object = true ↔ object ∈ objects ∨ .global ∈ objects := by
  obtain ⟨s', hs', hroles⟩ := reader_eq objects
  obtain rfl := Except.ok.inj (h.symm.trans hs')
  have hreader : s.roles.get? "reader" = some (readerRole objects) := by rw [hroles]; rfl
  rw [hasPrivilege_iff_allows]
  constructor
  · rintro ⟨name, r, -, hr, hhold⟩
    rw [hroles] at hr
    split at hr
    · obtain rfl := Option.some.inj hr
      unfold Grants.Hold at hhold
      simp only [grantsContains_readerRole, reduceCtorEq, and_false, and_true, false_or,
        or_false] at hhold
      exact hhold
    · cases hr
  · intro hor
    refine ⟨"reader", readerRole objects, Relation.ReflTransGen.refl, hreader, ?_⟩
    unfold Grants.Hold
    simp only [grantsContains_readerRole, reduceCtorEq, and_false, and_true, false_or, or_false]
    exact hor

/-- A role that is granted `select` on objects that are alike. -/
theorem not_tellsApart_reader {o o' : Object} (halike : Object.Alike o o') :
    ∃ s, reader [o, o'] = .ok s ∧ ¬ s.TellsApart "reader" := by
  obtain ⟨s, hs, hroles⟩ := reader_eq [o, o']
  refine ⟨s, hs, fun h => ?_⟩
  exact tellsApart_iff.mp h (readerRole [o, o']) (by rw [hroles]; rfl) .select o o'
    (grantsContains_readerRole.mpr (by simp)) (grantsContains_readerRole.mpr (by simp)) halike

/-- Stores with a grant on one of two objects that are alike each. -/
theorem not_listingDecides_reader {o o' : Object} (halike : Object.Alike o o') :
    ∃ s s', reader [o] = .ok s ∧ reader [o'] = .ok s' ∧ ¬ ListingDecides s s' := by
  obtain ⟨s, hs, hlist⟩ := grants_reader_singleton o
  obtain ⟨s', hs', hlist'⟩ := grants_reader_singleton o'
  obtain ⟨t, ht, hroles⟩ := reader_eq [o]
  obtain ⟨t', ht', hroles'⟩ := reader_eq [o']
  obtain rfl := Except.ok.inj (hs.symm.trans ht)
  obtain rfl := Except.ok.inj (hs'.symm.trans ht')
  refine ⟨s, s', hs, hs', fun h => ?_⟩
  have hsame := h (fun name => by rw [hroles, hroles']; split <;> rfl)
    (by rw [hlist, hlist', halike.text_eq]) "reader" .select
  have hiff (object : Object) : object = o ∨ .global = o ↔ object = o' ∨ .global = o' := by
    have hobject := hsame object
    rw [Bool.eq_iff_iff, hasPrivilege_reader hs, hasPrivilege_reader hs'] at hobject
    simpa only [List.mem_singleton] using hobject
  have hglobal : Object.global ≠ o := by
    rintro rfl
    cases halike
  have ho' : o = o' ∨ .global = o' := (hiff o).mp (Or.inl rfl)
  have hcluster : Object.global = o' := ho'.resolve_left halike.ne
  exact hglobal (((hiff .global).mpr (Or.inl hcluster)).elim id id)

/-- A role that is granted `select` on the whole cluster and on a table named `*` has two
grants with one row, and a grant on the one or on the other gives two stores with the same
listing and different answers. -/
theorem grants_cluster_or_star :
    (∃ s, reader [.table "*", .global] = .ok s ∧ ¬ s.TellsApart "reader") ∧
      ∃ s s', reader [.table "*"] = .ok s ∧ reader [.global] = .ok s' ∧ ¬ ListingDecides s s' :=
  ⟨not_tellsApart_reader .global, not_listingDecides_reader .global⟩

/-- **When the listing tells grants apart.** For every store and role, different holdings are
listed as different rows exactly when the role holds no privilege on two objects that are
alike. Over a kind of objects, stores with the same roles and the same listing always give
the same answers exactly when no two objects of the kind are alike. -/
theorem grants_decide_iff (s : RoleStore) (role : String) (kind : Object → Prop) :
    (s.TellsApart role ↔ s.HoldsNoneAlike role) ∧
    ((∀ s s', GrantsOn kind s → GrantsOn kind s' → ListingDecides s s') ↔
      ∀ o o', kind o → kind o' → ¬ Object.Alike o o') := by
  refine ⟨tellsApart_iff, fun h o o' ho ho' halike => ?_, fun hkind s s' => listingDecides hkind⟩
  obtain ⟨s, s', hs, hs', hnot⟩ := not_listingDecides_reader halike
  exact hnot (h s s' (grantsOn_reader hs (by simpa using ho))
    (grantsOn_reader hs' (by simpa using ho')))

end RoleStore

end Skaidb
