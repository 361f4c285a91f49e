import Skaidb.Auth.Rbac
import Skaidb.Data.Collect
import Skaidb.Data.Distinct

/-!
# Grants on columns and topics

A role may hold a privilege on single columns of a table or on topic filters. The columns
and the filters of a role are collected from it and from every role it inherits from, with
the roles entered so far marked. The graph of roles may be cyclic and may have missing roles.
-/

namespace Skaidb

namespace RoleStore

/-! ## Collecting -/

/-- Go through the grants of a role and of the roles it inherits from, at most `depth` roles
deep; `visited` are the roles entered so far and `take` is what is done with each grant. -/
def collectGrants {α : Type} (s : RoleStore) (take : Object → OrdSet Privilege.rank → α → α) :
    ℕ → String → OrdSet utf8 × α → Option (OrdSet utf8 × α)
  | 0, _, _ => none
  | depth + 1, role, (visited, out) =>
    if visited.contains role then some (visited, out)
    else
      let visited := OrdSet.insert visited role
      match s.roles.get? role with
      | none => some (visited, out)
      | some r =>
        let out := r.grants.entries.foldl (fun out grant => take grant.1 grant.2 out) out
        r.inherits.toList.foldlM
          (fun state parent => collectGrants s take depth parent state) (visited, out)

/-- Keep the column of a grant on a column of the table. -/
def takeColumn (privilege : Privilege) (table : String) (object : Object)
    (privs : OrdSet Privilege.rank) (out : OrdSet utf8) : OrdSet utf8 :=
  match object with
  | .column t column =>
    if t == table && privs.contains privilege then OrdSet.insert out column else out
  | _ => out

/-- `collect_columns`: gather the columns of the table along the inheritance of a role. -/
def collectColumns (s : RoleStore) (privilege : Privilege) (table : String) :
    ℕ → String → OrdSet utf8 × OrdSet utf8 → Option (OrdSet utf8 × OrdSet utf8) :=
  s.collectGrants (takeColumn privilege table)

/-- Keep the filter of a grant on a topic. -/
def takeMqttFilter (privilege : Privilege) (object : Object) (privs : OrdSet Privilege.rank)
    (out : List String) : List String :=
  match object with
  | .mqttTopic f => if privs.contains privilege then out ++ [f] else out
  | _ => out

/-- Collect the topic filters that a role holds the privilege for, from its own grants and then from
those of the roles it inherits. -/
def collectMqttFilters (s : RoleStore) (privilege : Privilege) :
    ℕ → String → OrdSet utf8 × List String → Option (OrdSet utf8 × List String) :=
  s.collectGrants (takeMqttFilter privilege)

/-- Every column of the table on which the role holds the privilege by a grant on the column,
directly or inherited. -/
def columns (s : RoleStore) (role : String) (privilege : Privilege) (table : String) :
    OrdSet utf8 :=
  match s.collectColumns privilege table (s.roles.entries.length + 1) role
    (OrdSet.empty utf8, OrdSet.empty utf8) with
  | some (_, out) => out
  | none => OrdSet.empty utf8

/-- Every topic filter granted to the role for the privilege, directly or inherited. -/
def mqttFilters (s : RoleStore) (role : String) (privilege : Privilege) : List String :=
  match s.collectMqttFilters privilege (s.roles.entries.length + 1) role
    (OrdSet.empty utf8, []) with
  | some (_, out) => Distinct.dedup (Distinct.sort utf8 out)
  | none => []

/-! ## What is collected -/

/-- Some existing role that can be reached is itself granted the privilege on the object. -/
def HoldsAlong (s : RoleStore) (role : String) (privilege : Privilege) (object : Object) : Prop :=
  ∃ name r, s.Reaches role name ∧ s.roles.get? name = some r ∧
    grantsContains r.grants object privilege = true

section Collect

variable {α : Type} (s : RoleStore) (take : Object → OrdSet Privilege.rank → α → α)

/-- What a role's own grants add to what has been gathered from other roles. -/
def takeGrants (role : String) (out : α) : α :=
  match s.roles.get? role with
  | some r => r.grants.entries.foldl (fun out grant => take grant.1 grant.2 out) out
  | none => out

/-- Gathering grants is the general walk along the edges of inheritance. -/
theorem collectGrants_eq_collect (depth : ℕ) (role : String) (state : OrdSet utf8 × α) :
    s.collectGrants take depth role state =
      Search.collect s.parents (s.takeGrants take) depth role state := by
  induction depth generalizing role state with
  | zero => rfl
  | succ depth ih =>
    obtain ⟨visited, out⟩ := state
    have hrec : (fun (state : OrdSet utf8 × α) parent => s.collectGrants take depth parent state) =
        fun state parent => Search.collect s.parents (s.takeGrants take) depth parent state := by
      funext state parent
      exact ih parent state
    unfold collectGrants Search.collect
    split
    · rfl
    · cases hrole : s.roles.get? role with
      | none => simp [parents, hrole]
      | some r => simp only [parents, takeGrants, hrole, Option.map_some, hrec]

variable {s take} {β : Type} (mem : β → α → Prop) {object : β → Object} {privilege : Privilege}

/-- A pass over grants adds what the grants are on. -/
theorem mem_foldl_take
    (htake : ∀ b o privs out, mem b (take o privs out) ↔
      mem b out ∨ (o = object b ∧ privs.contains privilege = true))
    (entries : List (Object × OrdSet Privilege.rank)) (b : β) (out : α) :
    mem b (entries.foldl (fun out grant => take grant.1 grant.2 out) out) ↔
      mem b out ∨ ∃ privs, (object b, privs) ∈ entries ∧ privs.contains privilege = true := by
  induction entries generalizing out with
  | nil => simp
  | cons e entries ih =>
    rw [List.foldl_cons, ih, htake, or_assoc]
    refine or_congr_right ⟨?_, ?_⟩
    · rintro (⟨he, hprivs⟩ | ⟨privs, hmem, hprivs⟩)
      · exact ⟨e.2, by rw [← he]; exact List.mem_cons_self, hprivs⟩
      · exact ⟨privs, List.mem_cons_of_mem e hmem, hprivs⟩
    · rintro ⟨privs, hmem, hprivs⟩
      rcases List.mem_cons.mp hmem with rfl | hmem
      · exact Or.inl ⟨rfl, hprivs⟩
      · exact Or.inr ⟨privs, hmem, hprivs⟩

/-- A role adds what it is granted the privilege on. -/
theorem mem_takeGrants
    (htake : ∀ b o privs out, mem b (take o privs out) ↔
      mem b out ∨ (o = object b ∧ privs.contains privilege = true))
    (role : String) (b : β) (out : α) :
    mem b (s.takeGrants take role out) ↔ mem b out ∨
      ∃ r, s.roles.get? role = some r ∧ grantsContains r.grants (object b) privilege = true := by
  unfold takeGrants
  cases hrole : s.roles.get? role with
  | none => simp
  | some r =>
    rw [mem_foldl_take mem htake]
    refine or_congr_right ?_
    simp only [OrdMap.mem_entries, Option.some.injEq, exists_eq_left']
    unfold grantsContains
    cases r.grants.get? (object b) with
    | none => simp
    | some privs => simp

/-- A pass over roles adds what any of them is granted the privilege on. -/
theorem mem_gatherAll
    (htake : ∀ b o privs out, mem b (take o privs out) ↔
      mem b out ∨ (o = object b ∧ privs.contains privilege = true))
    (order : List String) (b : β) (out : α) :
    mem b (Search.gatherAll (s.takeGrants take) order out) ↔ mem b out ∨ ∃ name ∈ order,
      ∃ r, s.roles.get? name = some r ∧ grantsContains r.grants (object b) privilege = true := by
  induction order generalizing out with
  | nil => simp [Search.gatherAll]
  | cons name order ih =>
    have hcons : Search.gatherAll (s.takeGrants take) (name :: order) out =
        Search.gatherAll (s.takeGrants take) order (s.takeGrants take name out) := rfl
    rw [hcons, ih, mem_takeGrants mem htake, or_assoc, List.exists_mem_cons_iff]

/-- **Collected grants.** Deeper than the number of roles the collection comes to an end, and
it adds what some role that can be reached is granted the privilege on. -/
theorem collectGrants_mem
    (htake : ∀ b o privs out, mem b (take o privs out) ↔
      mem b out ∨ (o = object b ∧ privs.contains privilege = true))
    {depth : ℕ} (h : s.roles.entries.length < depth) (role : String) (out : α) :
    ∃ visited out', s.collectGrants take depth role (OrdSet.empty utf8, out) =
      some (visited, out') ∧
        ∀ b, mem b out' ↔ mem b out ∨ s.HoldsAlong role privilege (object b) := by
  have hkeys : (s.roles.entries.map Prod.fst).length < depth := by simpa using h
  obtain ⟨visited, order, hcollect, horder⟩ : ∃ (visited : OrdSet utf8) (order : List String),
      Search.collect s.parents (s.takeGrants take) depth role (OrdSet.empty utf8, out) =
        some (visited, Search.gatherAll (s.takeGrants take) order out) ∧
      ∀ name, name ∈ order ↔ s.parents name ≠ none ∧
        Relation.ReflTransGen (Search.Edge s.parents) role name :=
    Search.collect_eq (fun _ => mem_keys_of_parents) hkeys role out
  have hedge : Search.Edge s.parents = s.Inherits := by
    funext a b
    exact propext edge_parents
  rw [collectGrants_eq_collect, hcollect]
  refine ⟨visited, _, rfl, fun b => (mem_gatherAll mem htake order b out).trans (or_congr_right ?_)⟩
  constructor
  · rintro ⟨name, hname, r, hr, hheld⟩
    have hreach := ((horder name).mp hname).2
    rw [hedge] at hreach
    exact ⟨name, r, hreach, hr, hheld⟩
  · rintro ⟨name, r, hreach, hr, hheld⟩
    refine ⟨name, (horder name).mpr ⟨by simp [parents, hr], ?_⟩, r, hr, hheld⟩
    rwa [hedge]

end Collect

section Views

variable (privilege : Privilege)

/-- What `takeColumn` makes of a grant: the column is among those collected when it was before or
the grant is of this privilege on it. -/
theorem mem_takeColumn (table c : String) (o : Object) (privs : OrdSet Privilege.rank)
    (out : OrdSet utf8) :
    (takeColumn privilege table o privs out).contains c = true ↔
      out.contains c = true ∨ (o = .column table c ∧ privs.contains privilege = true) := by
  unfold takeColumn
  cases o with
  | column t column =>
    dsimp only
    split
    · next h =>
      obtain ⟨ht, hprivs⟩ := (Bool.and_eq_true _ _).mp h
      simp only [OrdSet.contains_insert, Bool.or_eq_true, beq_iff_eq, Object.column.injEq,
        eq_of_beq ht, hprivs, true_and, and_true]
      exact or_comm.trans (or_congr_right eq_comm)
    · next h =>
      simp only [Bool.and_eq_true, beq_iff_eq] at h
      simp only [Object.column.injEq, and_assoc]
      have hnone : ¬ (t = table ∧ column = c ∧ privs.contains privilege = true) := by
        rintro ⟨ht, -, hprivs⟩
        exact h ⟨ht, hprivs⟩
      exact ⟨Or.inl, fun hor => hor.resolve_right hnone⟩
  | _ => simp

/-- What `takeMqttFilter` makes of a grant: the filter is among those collected when it was before
or the grant is of this privilege on it. -/
theorem mem_takeMqttFilter (f : String) (o : Object) (privs : OrdSet Privilege.rank)
    (out : List String) :
    f ∈ takeMqttFilter privilege o privs out ↔
      f ∈ out ∨ (o = .mqttTopic f ∧ privs.contains privilege = true) := by
  unfold takeMqttFilter
  cases o with
  | mqttTopic g =>
    dsimp only
    split
    · next h => simp [h, eq_comm]
    · next h => simp [h]
  | _ => simp

variable {s s' : RoleStore} {depth : ℕ} (role table : String)

/-- With a depth above the number of roles, the walk ends with exactly the columns held along
inheritance. -/
theorem collectColumns_of_depth (h : s.roles.entries.length < depth) :
    ∃ visited out, s.collectColumns privilege table depth role
        (OrdSet.empty utf8, OrdSet.empty utf8) = some (visited, out) ∧
      ∀ c, out.contains c = true ↔ s.HoldsAlong role privilege (.column table c) := by
  obtain ⟨visited, out, hcollect, hmem⟩ :=
    collectGrants_mem (fun c (out : OrdSet utf8) => out.contains c = true)
      (mem_takeColumn privilege table) h role (OrdSet.empty utf8)
  have hempty : ∀ c, ¬ (OrdSet.empty utf8).contains c = true := fun c hc => by cases hc
  exact ⟨visited, out, hcollect, fun c => (hmem c).trans (or_iff_right (hempty c))⟩

/-- With a depth above the number of roles, the walk ends with exactly the filters held along
inheritance. -/
theorem collectMqttFilters_of_depth (h : s.roles.entries.length < depth) :
    ∃ visited out, s.collectMqttFilters privilege depth role (OrdSet.empty utf8, []) =
        some (visited, out) ∧
      ∀ f, f ∈ out ↔ s.HoldsAlong role privilege (.mqttTopic f) := by
  obtain ⟨visited, out, hcollect, hmem⟩ :=
    collectGrants_mem (fun f (out : List String) => f ∈ out) (mem_takeMqttFilter privilege) h
      role []
  exact ⟨visited, out, hcollect, fun f => (hmem f).trans (or_iff_right List.not_mem_nil)⟩

/-- The columns are those that some role that can be reached is granted. -/
theorem contains_columns (c : String) :
    (s.columns role privilege table).contains c = true ↔
      s.HoldsAlong role privilege (.column table c) := by
  obtain ⟨visited, out, hcollect, hmem⟩ :=
    collectColumns_of_depth privilege role table (Nat.lt_succ_self s.roles.entries.length)
  rw [columns, hcollect]
  exact hmem c

/-- The filters are those that some role that can be reached is granted. -/
theorem mem_mqttFilters (f : String) :
    f ∈ s.mqttFilters role privilege ↔ s.HoldsAlong role privilege (.mqttTopic f) := by
  obtain ⟨visited, out, hcollect, hmem⟩ :=
    collectMqttFilters_of_depth privilege role (Nat.lt_succ_self s.roles.entries.length)
  rw [mqttFilters, hcollect]
  exact (Distinct.mem_dedup_sort utf8).trans (hmem f)

/-- `mqttFilters` returns the filters in ascending order and each of them once. -/
theorem pairwise_mqttFilters :
    (s.mqttFilters role privilege).Pairwise fun f g => compare (utf8 f) (utf8 g) = .lt := by
  unfold mqttFilters
  split
  · exact Distinct.pairwise_dedup_sort utf8 _
  · exact List.Pairwise.nil

end Views

/-! ## Grants on other objects -/

/-- The stores have the same roles with the same inheritance, and every role has the same
grants on the objects of a kind. -/
def AgreeOn (kind : Object → Prop) (s s' : RoleStore) : Prop :=
  OrdMap.Relates (fun r r' => r.inherits = r'.inherits ∧
    ∀ object, kind object → r.grants.get? object = r'.grants.get? object) s.roles s'.roles

section Agree

variable {kind : Object → Prop} {s s' : RoleStore}

/-- Two stores that agree on the grants of one kind do so whichever is named first. -/
theorem AgreeOn.symm (h : AgreeOn kind s s') : AgreeOn kind s' s := by
  intro name
  have hname := h name
  generalize s.roles.get? name = x, s'.roles.get? name = y at hname
  cases hname with
  | none => exact Option.Rel.none
  | some hr => exact Option.Rel.some ⟨hr.1.symm, fun o ho => (hr.2 o ho).symm⟩

/-- What can be reached in one store can be reached in the other. -/
theorem AgreeOn.reaches (h : AgreeOn kind s s') {role name : String}
    (hreach : s.Reaches role name) : s'.Reaches role name := by
  refine Relation.ReflTransGen.mono (fun member parent hedge => ?_) _ _ hreach
  obtain ⟨r, hr, hparent⟩ := hedge
  obtain ⟨r', hr', hinherits, -⟩ := h.value hr
  exact ⟨r', hr', by rwa [← hinherits]⟩

/-- What is held in one store is held in the other. -/
theorem AgreeOn.holdsAlong (h : AgreeOn kind s s') {role : String} {privilege : Privilege}
    {object : Object} (hkind : kind object) (hholds : s.HoldsAlong role privilege object) :
    s'.HoldsAlong role privilege object := by
  obtain ⟨name, r, hreach, hr, hheld⟩ := hholds
  obtain ⟨r', hr', -, hgrants⟩ := h.value hr
  refine ⟨name, r', h.reaches hreach, hr', ?_⟩
  unfold grantsContains at hheld ⊢
  rwa [← hgrants object hkind]

/-- Stores that agree on a kind of object hold the same privileges on objects of that kind. -/
theorem AgreeOn.holdsAlong_iff (h : AgreeOn kind s s') {role : String} {privilege : Privilege}
    {object : Object} (hkind : kind object) :
    s.HoldsAlong role privilege object ↔ s'.HoldsAlong role privilege object :=
  ⟨h.holdsAlong hkind, h.symm.holdsAlong hkind⟩

/-- A privilege granted on another object changes nothing on objects of the kind. -/
theorem agreeOn_grant {role : String} {privilege : Privilege} {object : Object}
    (hobject : ¬ kind object) (h : s.grant role privilege object = .ok s') :
    AgreeOn kind s s' := by
  unfold grant at h
  split at h
  · cases h
    refine OrdMap.relates_modify (fun r => ⟨rfl, fun _ _ => rfl⟩) (fun r => ⟨rfl, fun o ho => ?_⟩) _
    have hne : o ≠ object := fun heq => hobject (heq ▸ ho)
    simp [addGrant, hne]
  · cases h

/-- A privilege revoked on another object changes nothing on objects of the kind. -/
theorem agreeOn_revoke {role : String} {privilege : Privilege} {object : Object}
    (hobject : ¬ kind object) (h : s.revoke role privilege object = .ok s') :
    AgreeOn kind s s' := by
  unfold revoke at h
  split at h
  · cases h
    refine OrdMap.relates_modify (fun r => ⟨rfl, fun _ _ => rfl⟩) (fun r => ⟨rfl, fun o ho => ?_⟩) _
    have hne : o ≠ object := fun heq => hobject (heq ▸ ho)
    simp [hne]
  · cases h

/-- The columns depend on the grants on columns of the table alone. -/
theorem AgreeOn.columns_eq {table : String} (h : AgreeOn (fun o => ∃ c, o = .column table c) s s')
    (role : String) (privilege : Privilege) :
    s'.columns role privilege table = s.columns role privilege table := by
  refine OrdSet.ext_contains fun c => ?_
  rw [Bool.eq_iff_iff, contains_columns, contains_columns]
  exact (h.holdsAlong_iff ⟨c, rfl⟩).symm

/-- The filters depend on the grants on topics alone. -/
theorem AgreeOn.mqttFilters_eq (h : AgreeOn (fun o => ∃ f, o = .mqttTopic f) s s')
    (role : String) (privilege : Privilege) :
    s'.mqttFilters role privilege = s.mqttFilters role privilege := by
  refine Distinct.eq_of_mem_iff utf8 (pairwise_mqttFilters privilege role)
    (pairwise_mqttFilters privilege role) fun f => ?_
  rw [mem_mqttFilters, mem_mqttFilters]
  exact (h.holdsAlong_iff ⟨f, rfl⟩).symm

end Agree

/-- **Columns and topic filters.** For every graph of roles both collections come to an end,
however deep they may go beyond the number of roles. The columns of a table are exactly those
that some existing role that can be reached is itself granted the privilege on, the filters
are the ascending list of those that some such role is granted, and neither changes when
privileges on other objects are granted or revoked. -/
theorem columns_mqttFilters_correct (s : RoleStore) (role : String) (privilege : Privilege) :
    (∀ table,
      (∀ depth, s.roles.entries.length < depth → ∃ visited,
        s.collectColumns privilege table depth role (OrdSet.empty utf8, OrdSet.empty utf8) =
          some (visited, s.columns role privilege table)) ∧
      (∀ c, (s.columns role privilege table).contains c = true ↔
        ∃ name r, s.Reaches role name ∧ s.roles.get? name = some r ∧
          grantsContains r.grants (.column table c) privilege = true) ∧
      ∀ s', AgreeOn (fun o => ∃ c, o = .column table c) s s' →
        s'.columns role privilege table = s.columns role privilege table) ∧
    (∀ depth, s.roles.entries.length < depth → ∃ visited out,
      s.collectMqttFilters privilege depth role (OrdSet.empty utf8, []) = some (visited, out) ∧
        s.mqttFilters role privilege = Distinct.dedup (Distinct.sort utf8 out)) ∧
    ((s.mqttFilters role privilege).Pairwise fun f g => compare (utf8 f) (utf8 g) = .lt) ∧
    (∀ f, f ∈ s.mqttFilters role privilege ↔
      ∃ name r, s.Reaches role name ∧ s.roles.get? name = some r ∧
        grantsContains r.grants (.mqttTopic f) privilege = true) ∧
    (∀ s', AgreeOn (fun o => ∃ f, o = .mqttTopic f) s s' →
      s'.mqttFilters role privilege = s.mqttFilters role privilege) ∧
    (∀ kind : Object → Prop, ∀ s' member q object, ¬ kind object →
      s.grant member q object = .ok s' ∨ s.revoke member q object = .ok s' →
        AgreeOn kind s s') := by
  refine ⟨fun table => ⟨fun depth hdepth => ?_, contains_columns privilege role table,
    fun s' h => h.columns_eq role privilege⟩, fun depth hdepth => ?_,
    pairwise_mqttFilters privilege role, mem_mqttFilters privilege role,
    fun s' h => h.mqttFilters_eq role privilege, fun kind s' member q object hobject hop => ?_⟩
  · obtain ⟨visited, out, hcollect, hmem⟩ :=
      collectColumns_of_depth privilege role table hdepth
    have hout : out = s.columns role privilege table := OrdSet.ext_contains fun c => by
      rw [Bool.eq_iff_iff, hmem, contains_columns]
    exact ⟨visited, hout ▸ hcollect⟩
  · obtain ⟨visited, out, hcollect, hmem⟩ := collectMqttFilters_of_depth privilege role hdepth
    refine ⟨visited, out, hcollect, ?_⟩
    refine Distinct.eq_of_mem_iff utf8 (pairwise_mqttFilters privilege role)
      (Distinct.pairwise_dedup_sort utf8 out) fun f => ?_
    rw [mem_mqttFilters, Distinct.mem_dedup_sort, hmem]
  · rcases hop with hop | hop
    · exact agreeOn_grant hobject hop
    · exact agreeOn_revoke hobject hop

end RoleStore

end Skaidb
