import Skaidb.Auth.Rbac
import Skaidb.Logic.Program

/-!
# Membership over the life of a role

Inheritance is stored by name in the member and is left there when the parent is dropped. A
role created under the name later is then the parent again. Membership ends with the parent
exactly as far as no member still names it when the name is taken anew.
-/

namespace Skaidb

open Program

/-- The operations that change a store of roles, as the steps of a run. -/
inductive RoleOp where
  | createRole (name : String)
  | createSuperuser (name : String)
  | dropRole (name : String)
  | grant (role : String) (privilege : Privilege) (object : Object)
  | revoke (role : String) (privilege : Privilege) (object : Object)
  | grantRole (member parent : String)
  | revokeRole (member parent : String)
  deriving DecidableEq

/-- The operation creates a role when there is none with its name. -/
def RoleOp.Creates (op : RoleOp) (name : String) : Prop :=
  op = .createRole name ∨ op = .createSuperuser name

namespace RoleStore

/-- The store after an operation, which is the store before it when the operation fails. -/
def after (s : RoleStore) (result : Except RbacError RoleStore) : RoleStore :=
  match result with
  | .ok s' => s'
  | .error _ => s

/-- Carry out one operation; one that the store refuses changes nothing. -/
def step (s : RoleStore) : RoleOp → RoleStore
  | .createRole name => s.after (s.createRole name)
  | .createSuperuser name => s.createSuperuser name
  | .dropRole name => s.after (s.dropRole name)
  | .grant role privilege object => s.after (s.grant role privilege object)
  | .revoke role privilege object => s.after (s.revoke role privilege object)
  | .grantRole member parent => s.after (s.grantRole member parent)
  | .revokeRole member parent => s.revokeRole member parent

/-! ## What an operation does to the roles -/

section Records

variable (s : RoleStore)

/-- A grant changes the role, if there is one. -/
theorem step_grant (role : String) (privilege : Privilege) (object : Object) :
    s.step (.grant role privilege object) = ⟨s.roles.modify role fun r =>
      { r with grants := addGrant r.grants object privilege }⟩ := by
  simp only [step, grant]
  split
  · rfl
  · next hnone =>
    rw [OrdMap.modify_of_none hnone]
    rfl

/-- A revocation changes the role, if there is one. -/
theorem step_revoke (role : String) (privilege : Privilege) (object : Object) :
    s.step (.revoke role privilege object) = ⟨s.roles.modify role fun r =>
      { r with grants := r.grants.modify object fun set => OrdMap.erase set privilege }⟩ := by
  simp only [step, revoke]
  split
  · rfl
  · next hnone =>
    rw [OrdMap.modify_of_none hnone]
    rfl

/-- After a role is dropped it is gone, and the other roles are what they were. -/
theorem get?_step_dropRole (name k : String) :
    (s.step (.dropRole name)).roles.get? k = if k = name then none else s.roles.get? k := by
  simp only [step, dropRole]
  split
  · simp [after]
  · next hnone =>
    by_cases hk : k = name
    · simp [after, hk, hnone]
    · simp [after, hk]

/-- The roles after a list of them is dropped. -/
theorem get?_drops (names : List String) (k : String) :
    ((names.map RoleOp.dropRole).foldl step s).roles.get? k =
      if k ∈ names then none else s.roles.get? k := by
  induction names generalizing s with
  | nil => simp
  | cons name names ih =>
    rw [List.map_cons, List.foldl_cons, ih, get?_step_dropRole]
    by_cases hk : k = name <;> simp [hk]

end Records

/-! ## What an operation does to inheritance -/

section Inherits

variable {s : RoleStore} {a b : String}

/-- A role that has just been created inherits from no other role. -/
theorem not_inherits_default {parent : String} :
    OrdSet.contains Role.default.inherits parent = false := rfl

/-- A change of one role that leaves what it inherits from. -/
theorem inherits_modify {role : String} {f : Role → Role}
    (hf : ∀ r, (f r).inherits = r.inherits) :
    Inherits ⟨s.roles.modify role f⟩ a b ↔ s.Inherits a b := by
  unfold Inherits
  rw [OrdMap.get?_modify]
  split
  · cases s.roles.get? a with
    | none => simp
    | some r => simp [hf]
  · rfl

/-- After an edge of inheritance is removed, all others are left and no new one is there. -/
theorem inherits_revokeRole {member parent : String} :
    (s.revokeRole member parent).Inherits a b ↔
      s.Inherits a b ∧ ¬ (a = member ∧ b = parent) := by
  unfold Inherits revokeRole
  rw [OrdMap.get?_modify]
  by_cases ha : a = member
  · cases s.roles.get? a with
    | none => simp
    | some r => simp [ha]
  · simp [ha]

/-- **New edges.** An operation gives a role a parent only by granting it. -/
theorem inherits_of_step {op : RoleOp} (h : (s.step op).Inherits a b) :
    s.Inherits a b ∨ op = .grantRole a b := by
  cases op with
  | createRole name =>
    simp only [step, createRole] at h
    split at h
    · exact .inl h
    · obtain ⟨r, hr, hb⟩ := h
      simp only [after, OrdMap.get?_insert] at hr
      split at hr
      · obtain rfl := Option.some.inj hr
        exact absurd (not_inherits_default.symm.trans hb) (by simp)
      · exact .inl ⟨r, hr, hb⟩
  | createSuperuser name =>
    obtain ⟨r, hr, hb⟩ := h
    simp only [step, createSuperuser, OrdMap.get?_insert] at hr
    split at hr
    · next heq =>
      rw [beq_iff_eq] at heq
      subst heq
      obtain rfl := Option.some.inj hr
      cases hrole : s.roles.get? a with
      | none =>
        rw [hrole] at hb
        exact absurd (not_inherits_default.symm.trans hb) (by simp)
      | some r =>
        rw [hrole] at hb
        exact .inl ⟨r, hrole, hb⟩
    · exact .inl ⟨r, hr, hb⟩
  | dropRole name =>
    obtain ⟨r, hr, hb⟩ := h
    rw [get?_step_dropRole] at hr
    split at hr
    · cases hr
    · exact .inl ⟨r, hr, hb⟩
  | grant role privilege object =>
    rw [step_grant] at h
    left
    apply (inherits_modify _).mp h
    exact fun _ => rfl
  | revoke role privilege object =>
    rw [step_revoke] at h
    left
    apply (inherits_modify _).mp h
    exact fun _ => rfl
  | grantRole member parent =>
    simp only [step, grantRole] at h
    split at h
    · exact .inl h
    · split at h
      · obtain ⟨r, hr, hb⟩ := h
        simp only [after, OrdMap.get?_modify] at hr
        split at hr
        · next heq =>
          rw [beq_iff_eq] at heq
          subst heq
          obtain ⟨old, hold, rfl⟩ := Option.map_eq_some_iff.mp hr
          rw [OrdSet.contains_insert, Bool.or_eq_true, beq_iff_eq] at hb
          rcases hb with rfl | hb
          · exact .inr rfl
          · exact .inl ⟨old, hold, hb⟩
        · exact .inl ⟨r, hr, hb⟩
      · exact .inl h
  | revokeRole member parent => exact .inl (inherits_revokeRole.mp h).1

end Inherits

/-! ## Privileges without an edge -/

/-- A removed edge leaves the grants of the roles. -/
theorem get?_revokeRole (s : RoleStore) (member parent name : String) :
    ((s.revokeRole member parent).roles.get? name).map Role.grants =
      (s.roles.get? name).map Role.grants := by
  unfold revokeRole
  rw [OrdMap.get?_modify]
  split
  · cases s.roles.get? name <;> rfl
  · rfl

/-- Removing an edge that is not there changes no privilege. -/
theorem hasPrivilege_revokeRole {s : RoleStore} {member parent : String}
    (h : ¬ s.Inherits member parent) (role : String) (privilege : Privilege) (object : Object) :
    (s.revokeRole member parent).hasPrivilege role privilege object =
      s.hasPrivilege role privilege object := by
  have hedges : (s.revokeRole member parent).Inherits = s.Inherits := by
    funext a b
    refine propext (inherits_revokeRole.trans (and_iff_left_of_imp fun hab => ?_))
    rintro ⟨rfl, rfl⟩
    exact h hab
  rw [Bool.eq_iff_iff, hasPrivilege_iff_allows, hasPrivilege_iff_allows]
  unfold Allows Reaches
  rw [hedges]
  have hgrants (name : String) :
      (∃ r, (s.revokeRole member parent).roles.get? name = some r ∧
        Grants.Hold r.grants privilege object) ↔
      ∃ r, s.roles.get? name = some r ∧ Grants.Hold r.grants privilege object := by
    have hsame := get?_revokeRole s member parent name
    generalize (s.revokeRole member parent).roles.get? name = x, s.roles.get? name = y at hsame ⊢
    cases x <;> cases y <;> simp_all
  refine exists_congr fun name => ?_
  simpa only [exists_and_left] using and_congr_right fun _ => hgrants name

/-! ## What an operation does to the grants -/

/-- A privilege that has just been granted on an object is among the grants. -/
theorem grantsContains_addGrant (grants : Grants) (object : Object) (privilege : Privilege) :
    grantsContains (addGrant grants object privilege) object privilege = true := by
  simp [grantsContains, addGrant]

/-- After a privilege is revoked on an object, that one is gone and all others are as before. -/
theorem grantsContains_revoke (grants : Grants) (object o : Object) (privilege p : Privilege) :
    grantsContains (grants.modify object fun set => OrdMap.erase set privilege) o p =
      (grantsContains grants o p && !(o == object && p == privilege)) := by
  unfold grantsContains
  rw [OrdMap.get?_modify]
  by_cases ho : o = object
  · subst ho
    cases grants.get? o with
    | none => simp
    | some set => simp
  · cases grants.get? o with
    | none => simp [ho]
    | some set => simp [ho]

/-! ## Taking over a name -/

section Takeover

variable (s : RoleStore) (m x : String)

/-- The other roles are dropped, the member loses what it holds on the whole cluster, and the
role `x` is granted a privilege there. -/
def takeover : List RoleOp :=
  ((s.roles.entries.map Prod.fst).filter fun name => name ≠ m ∧ name ≠ x).map .dropRole ++
    [.revoke m .admin .global, .revoke m .select .global, .grant x .select .global]

/-- The grants that the member is left with once its administration and its right to read are
revoked. -/
def strip (grants : Grants) : Grants :=
  (grants.modify .global fun set => OrdMap.erase set .admin).modify .global
    fun set => OrdMap.erase set .select

/-- The roles once `takeover` is over: `x` may read everything, `m` has lost this privilege and the
administration, and all other roles are dropped. -/
theorem get?_takeover (hne : m ≠ x) (k : String) :
    ((s.takeover m x).foldl step s).roles.get? k =
      if k = x then (s.roles.get? x).map fun r =>
        { r with grants := addGrant r.grants .global .select }
      else if k = m then (s.roles.get? m).map fun r => { r with grants := strip r.grants }
      else none := by
  rw [takeover, List.foldl_append]
  simp only [List.foldl_cons, List.foldl_nil, step_grant, step_revoke, OrdMap.get?_modify,
    get?_drops, beq_iff_eq]
  by_cases hx : k = x
  · subst hx
    simp [hne.symm]
  · by_cases hm : k = m
    · subst hm
      cases s.roles.get? k <;> simp [hx, strip]
    · simp only [hx, hm, if_false]
      split
      · rfl
      · next hkept =>
        cases hk : s.roles.get? k with
        | none => rfl
        | some r =>
          have hkey : k ∈ s.roles.entries.map Prod.fst :=
            List.mem_map_of_mem (OrdMap.mem_entries.mpr hk)
          exact absurd (List.mem_filter.mpr ⟨hkey, by simp [hx, hm]⟩) hkept

variable {s m x}

/-- A stripped role holds nothing on the whole cluster. -/
theorem not_hold_strip (grants : Grants) : ¬ Grants.Hold (strip grants) .select .global := by
  simp [Grants.Hold, strip, grantsContains_revoke]

/-- After a takeover the member has the privilege through `x` only. -/
theorem hasPrivilege_takeover (hm : s.Inherits m x) (hne : m ≠ x) (hx : s.roles.get? x ≠ none) :
    ((s.takeover m x).foldl step s).hasPrivilege m .select .global = true ∧
      (((s.takeover m x).foldl step s).revokeRole m x).hasPrivilege m .select .global = false := by
  generalize hs' : (s.takeover m x).foldl step s = s'
  have hget (k : String) := hs' ▸ get?_takeover s m x hne k
  obtain ⟨rm, hrm, hedge⟩ := hm
  obtain ⟨rx, hrx⟩ := Option.ne_none_iff_exists'.mp hx
  have hgetx := hget x
  have hgetm := hget m
  simp only [if_true, hrx, Option.map_some] at hgetx
  simp only [if_neg hne, if_true, hrm, Option.map_some] at hgetm
  constructor
  · rw [hasPrivilege_iff_allows]
    refine ⟨x, _, .single ⟨_, hgetm, hedge⟩, hgetx, .inr (.inl ?_)⟩
    exact grantsContains_addGrant _ _ _
  · rw [← Bool.not_eq_true, hasPrivilege_iff_allows]
    rintro ⟨name, r, hreach, hname, hhold⟩
    -- Nothing but the member can be entered without the edge to `x`.
    have honly : name = m ∨ s'.roles.get? name = none := by
      clear hname
      induction hreach with
      | refl => exact .inl rfl
      | @tail a b _ hlast ih =>
        obtain ⟨⟨ra, hra, -⟩, hcut⟩ := inherits_revokeRole.mp hlast
        rcases ih with rfl | hnone
        · by_cases hb : b = a
          · exact .inl hb
          · refine .inr ?_
            rw [hget, if_neg fun h => hcut ⟨rfl, h⟩, if_neg hb]
        · rw [hnone] at hra
          cases hra
    have hgrants := get?_revokeRole s' m x name
    rcases honly with rfl | hnone
    · rw [hname, hgetm, Option.map_some, Option.map_some] at hgrants
      rw [Option.some.inj hgrants] at hhold
      exact not_hold_strip rm.grants hhold
    · rw [hname, hnone] at hgrants
      cases hgrants

end Takeover

/-! ## Dropped and created again -/

/-- No role regains a parent in a run in which nobody grants it that parent. -/
theorem not_inherits_of_run {m x : String} {s s' : RoleStore}
    (h : Run step (fun _ op => op ≠ .grantRole m x) s s') (hs : ¬ s.Inherits m x) :
    ¬ s'.Inherits m x := by
  refine Run.invariant (I := fun s => ¬ s.Inherits m x) (fun s op hop hold hnew => ?_) h hs
  rcases inherits_of_step hnew with hkept | hgranted
  · exact hold hkept
  · exact hop hgranted

/-- A role that is created changes the inheritance of no other role. -/
theorem inherits_step_creates {s : RoleStore} {m x : String} {op : RoleOp} (hop : op.Creates x)
    (habsent : s.roles.get? x = none) (hne : m ≠ x) :
    ((s.step op).Inherits m x ↔ s.Inherits m x) ∧ (s.step op).roles.get? x ≠ none := by
  unfold Inherits
  rcases hop with rfl | rfl
  · simp [step, createRole, habsent, after, hne]
  · simp [step, createSuperuser, hne]

/-- **Memberships of a dropped role.** Let there be no role `x` in a store, because it was
dropped, and let it be created again. The privileges of `m` are those it has without
inheriting from `x`, in every state reached as long as `x` is not granted to `m`, exactly
when `m` did not name `x` any more when the role was created. -/
theorem membership_ends_iff (m x : String) (s : RoleStore) (op : RoleOp)
    (habsent : s.roles.get? x = none) (hcreates : op.Creates x) :
    (∀ s', Run step (fun _ op => op ≠ .grantRole m x) (s.step op) s' →
      ∀ privilege object, s'.hasPrivilege m privilege object =
        (s'.revokeRole m x).hasPrivilege m privilege object) ↔ ¬ s.Inherits m x := by
  constructor
  · intro h hold
    have hne : m ≠ x := by
      rintro rfl
      obtain ⟨r, hr, -⟩ := hold
      rw [habsent] at hr
      cases hr
    obtain ⟨hsame, hcreated⟩ := inherits_step_creates hcreates habsent hne
    obtain ⟨hgained, hcut⟩ := hasPrivilege_takeover (hsame.mpr hold) hne hcreated
    have hrun : Run step (fun _ op => op ≠ .grantRole m x) (s.step op)
        (((s.step op).takeover m x).foldl step (s.step op)) := by
      refine Run.ofForall _ fun c hc _ => ?_
      rintro rfl
      simp [takeover] at hc
    rw [h _ hrun, hcut] at hgained
    cases hgained
  · intro hold s' hrun privilege object
    have hcreated : ¬ (s.step op).Inherits m x := by
      intro hnew
      rcases inherits_of_step hnew with hkept | rfl
      · exact hold hkept
      · rcases hcreates with h | h <;> cases h
    have hend := not_inherits_of_run hrun hcreated
    exact (hasPrivilege_revokeRole hend m privilege object).symm

/-- The member gives up the role before it is dropped. -/
def givenUp : List RoleOp :=
  [.createRole "m", .createRole "x", .grantRole "m" "x", .revokeRole "m" "x", .dropRole "x"]

/-- A member that gave up the role has nothing from the one created again. -/
theorem membership_ends_givenUp :
    (((givenUp.foldl step new).step (.createRole "x")).step
        (.grant "x" .select (.table "t"))).hasPrivilege "m" .select (.table "t") = false := by
  have hiff := membership_ends_iff "m" "x" (givenUp.foldl step new) (.createRole "x") rfl
    (.inl rfl)
  have hgone : ¬ (givenUp.foldl step new).Inherits "m" "x" := by
    rintro ⟨r, hr, hx⟩
    have hnone : ((givenUp.foldl step new).roles.get? "m").map
        (fun r => OrdSet.contains r.inherits "x") = some false := by decide
    rw [hr, Option.map_some, hx] at hnone
    cases hnone
  rw [hiff.mpr hgone _ (.tail .refl (by decide))]
  decide

/-- A run in which the name of a dropped role is taken for a new role while it still has a
member. -/
def reused : List RoleOp :=
  [.createRole "m", .createRole "x", .grantRole "m" "x", .dropRole "x", .createRole "x",
    .grant "x" .select (.table "t")]

/-- A role dropped and created again gives its new privileges to the members of the old one. -/
theorem recreated_role_grants_old_member :
    (∀ op ∈ reused.drop 4, op ≠ .grantRole "m" "x") ∧
      (reused.foldl step new).hasPrivilege "m" .select (.table "t") = true ∧
      ((reused.foldl step new).revokeRole "m" "x").hasPrivilege "m" .select (.table "t") =
        false := by
  decide

end RoleStore

end Skaidb
