import Skaidb.Data.Search
import Skaidb.Types.Document

/-!
# Roles and privileges

Privileges are granted to roles on objects, and roles inherit the privileges of roles granted
to them. Inheritance is stored by name in the member, so it may be cyclic and may name a
role that does not exist. A privilege check follows it with the roles it has entered marked.
-/

namespace Skaidb

/-- The privileges that can be granted on an object. -/
inductive Privilege where
  | select
  | insert
  | update
  | delete
  | create
  | drop
  | grant
  | monitor
  | advisor
  | publish
  | subscribe
  | execute
  | bi
  | admin
  deriving DecidableEq

/-- The place of a privilege in their order. -/
def Privilege.rank (p : Privilege) : ℕ := p.ctorIdx

instance rankedPrivilege : Ranked Privilege.rank where
  injective p q h := by
    rw [← Privilege.ofNat_ctorIdx p, ← Privilege.ofNat_ctorIdx q]
    exact congrArg Privilege.ofNat h

/-- `Object`: what a privilege applies to, from everything down to one column or topic. -/
inductive Object where
  /-- The whole cluster, which covers every other object. -/
  | global
  | table (name : String)
  | database (name : String)
  | mqttTopic (filter : String)
  | procedure (name : String)
  | column (table column : String)
  deriving DecidableEq

/-- Objects are ordered by their kind first, then by their names. -/
def Object.rank : Object → List (List UInt8)
  | .global => [[0]]
  | .table name => [[1], utf8 name]
  | .database name => [[2], utf8 name]
  | .mqttTopic filter => [[3], utf8 filter]
  | .procedure name => [[4], utf8 name]
  | .column t c => [[5], utf8 t, utf8 c]

instance rankedObject : Ranked Object.rank where
  injective := by
    intro a b h
    cases a <;> cases b <;> simp_all [Object.rank, utf8_inj.eq_iff]

/-- The privileges that a role has been granted, object by object. -/
abbrev Grants := OrdMap Object.rank (OrdSet Privilege.rank)

/-- A role: what is granted to it and the roles it inherits from. -/
structure Role where
  /-- The privileges on each object. -/
  grants : Grants
  /-- The names of the roles granted to it. -/
  inherits : OrdSet utf8

/-- A role that has just been created: it holds no grants and inherits from no role. -/
def Role.default : Role := ⟨OrdMap.ofList Object.rank [], OrdSet.empty utf8⟩

/-- `RbacError`: why an operation on roles is refused. -/
inductive RbacError where
  | noSuchRole (name : String)
  | roleExists (name : String)
  deriving DecidableEq

/-- `RoleStore`: the roles by name, each with its grants and the roles it inherits from. -/
structure RoleStore where
  /-- The roles by name. -/
  roles : OrdMap utf8 Role

namespace RoleStore

/-- `RoleStore::new`: a store that has no roles yet. -/
def new : RoleStore := ⟨OrdMap.ofList utf8 []⟩

/-! ## Operations -/

/-- Add a privilege to those granted on an object, as `grant` and `create_superuser` do. -/
def addGrant (grants : Grants) (object : Object) (privilege : Privilege) : Grants :=
  grants.insert object
    (OrdSet.insert ((grants.get? object).getD (OrdSet.empty Privilege.rank)) privilege)

/-- Create a role with no grants, unless there is one with this name. -/
def createRole (s : RoleStore) (name : String) : Except RbacError RoleStore :=
  match s.roles.get? name with
  | some _ => .error (.roleExists name)
  | none => .ok { s with roles := s.roles.insert name Role.default }

/-- Create a role that holds `admin` on the whole cluster. -/
def createSuperuser (s : RoleStore) (name : String) : RoleStore :=
  let role := (s.roles.get? name).getD Role.default
  { s with roles :=
      s.roles.insert name { role with grants := addGrant role.grants .global .admin } }

/-- Remove a role; what inherits from it is left as it is. -/
def dropRole (s : RoleStore) (name : String) : Except RbacError RoleStore :=
  match s.roles.get? name with
  | some _ => .ok { s with roles := s.roles.erase name }
  | none => .error (.noSuchRole name)

/-- Grant a privilege on an object to a role. -/
def grant (s : RoleStore) (role : String) (privilege : Privilege) (object : Object) :
    Except RbacError RoleStore :=
  match s.roles.get? role with
  | some _ => .ok { s with roles := s.roles.modify role fun r =>
      { r with grants := addGrant r.grants object privilege } }
  | none => .error (.noSuchRole role)

/-- Revoke a privilege on an object from a role. -/
def revoke (s : RoleStore) (role : String) (privilege : Privilege) (object : Object) :
    Except RbacError RoleStore :=
  match s.roles.get? role with
  | some _ => .ok { s with roles := s.roles.modify role fun r =>
      { r with grants := r.grants.modify object fun set => OrdMap.erase set privilege } }
  | none => .error (.noSuchRole role)

/-- `grant_role`: the member inherits from the parent from now on, unless one of them is unknown. -/
def grantRole (s : RoleStore) (member parent : String) : Except RbacError RoleStore :=
  match s.roles.get? parent with
  | none => .error (.noSuchRole parent)
  | some _ =>
    match s.roles.get? member with
    | some _ => .ok { s with roles := s.roles.modify member fun m =>
        { m with inherits := OrdSet.insert m.inherits parent } }
    | none => .error (.noSuchRole member)

/-- The member no longer inherits from the parent. -/
def revokeRole (s : RoleStore) (member parent : String) : RoleStore :=
  { s with roles := s.roles.modify member fun m =>
      { m with inherits := OrdMap.erase m.inherits parent } }

/-! ## The check -/

/-- `grants_contains`: the privilege is among those granted on the object. -/
def grantsContains (grants : Grants) (object : Object) (privilege : Privilege) : Bool :=
  match grants.get? object with
  | some set => OrdSet.contains set privilege
  | none => false

/-- Whether a role or one it inherits from holds the privilege, at most `depth` roles deep;
`visited` are the roles entered so far. -/
def check (s : RoleStore) (privilege : Privilege) (object : Object) :
    ℕ → String → OrdSet utf8 → Option (Bool × OrdSet utf8)
  | 0, _, _ => none
  | depth + 1, role, visited =>
    if visited.contains role then some (false, visited) -- cycle guard
    else
      let visited := OrdSet.insert visited role
      match s.roles.get? role with
      | none => some (false, visited)
      | some r =>
        -- Superuser: `admin` on the whole cluster grants everything.
        if grantsContains r.grants .global .admin then some (true, visited)
        -- On the object, or the same privilege on the whole cluster.
        else if grantsContains r.grants object privilege ||
            grantsContains r.grants .global privilege then some (true, visited)
        -- `admin` on the object implies the privilege.
        else if grantsContains r.grants object .admin then some (true, visited)
        else Search.firstOf (check s privilege object depth) r.inherits.toList visited

/-- Whether a role may use the privilege on the object. No path of roles is longer than
their number, so the depth is enough. -/
def hasPrivilege (s : RoleStore) (role : String) (privilege : Privilege) (object : Object) :
    Bool :=
  match check s privilege object (s.roles.entries.length + 1) role (OrdSet.empty utf8) with
  | some (found, _) => found
  | none => false

/-! ## What the check finds -/

/-- The role inherits directly from another one, whether that one exists or not. -/
def Inherits (s : RoleStore) (member parent : String) : Prop :=
  ∃ r, s.roles.get? member = some r ∧ r.inherits.contains parent = true

/-- The second role can be reached along inheritance through existing roles. -/
def Reaches (s : RoleStore) : String → String → Prop := Relation.ReflTransGen s.Inherits

/-- The role is granted the privilege itself: `admin` on the whole cluster, the privilege on
the object or on the whole cluster, or `admin` on the object. -/
def Grants.Hold (grants : Grants) (privilege : Privilege) (object : Object) : Prop :=
  grantsContains grants .global .admin = true ∨ grantsContains grants object privilege = true ∨
    grantsContains grants .global privilege = true ∨ grantsContains grants object .admin = true

instance decidableHold (grants : Grants) (privilege : Privilege) (object : Object) :
    Decidable (Grants.Hold grants privilege object) := inferInstanceAs (Decidable (_ ∨ _ ∨ _ ∨ _))

/-- Some role that can be reached is granted the privilege. -/
def Allows (s : RoleStore) (role : String) (privilege : Privilege) (object : Object) : Prop :=
  ∃ name r, s.Reaches role name ∧ s.roles.get? name = some r ∧
    Grants.Hold r.grants privilege object

section Check

variable (s : RoleStore) (privilege : Privilege) (object : Object)

/-- The roles a role inherits from, if it exists. -/
def parents (role : String) : Option (List String) :=
  (s.roles.get? role).map fun r => r.inherits.toList

/-- The role exists and is granted the privilege itself. -/
def holds (role : String) : Bool :=
  match s.roles.get? role with
  | some r => Grants.Hold r.grants privilege object
  | none => false

/-- The check is a search for a role that is granted the privilege. -/
theorem check_eq_search (depth : ℕ) (role : String) (visited : OrdSet utf8) :
    check s privilege object depth role visited =
      Search.search s.parents (s.holds privilege object) depth role visited := by
  induction depth generalizing role visited with
  | zero => rfl
  | succ depth ih =>
    have hrec : check s privilege object depth =
        Search.search s.parents (s.holds privilege object) depth := by
      funext role visited
      exact ih role visited
    unfold check Search.search
    split
    · rfl
    · cases hrole : s.roles.get? role with
      | none => simp [parents, hrole]
      | some r =>
        simp only [parents, holds, hrole, Option.map_some, hrec, Grants.Hold, Bool.or_eq_true]
        split_ifs <;> simp_all

variable {s}

/-- The edges that the search follows are those of direct inheritance. -/
theorem edge_parents {member parent : String} :
    Search.Edge s.parents member parent ↔ s.Inherits member parent := by
  unfold Search.Edge Inherits parents
  cases s.roles.get? member with
  | none => simp
  | some r => simp [OrdSet.mem_toList]

/-- The search has something to find exactly when the role is allowed the privilege. -/
theorem finds_iff_allows {role : String} :
    Search.Finds s.parents (s.holds privilege object) role ↔ s.Allows role privilege object := by
  have hedge : Search.Edge s.parents = s.Inherits := by
    funext a b
    exact propext edge_parents
  unfold Search.Finds Allows Reaches
  rw [hedge]
  refine exists_congr fun name => ?_
  unfold parents holds
  cases s.roles.get? name with
  | none => simp
  | some r => simp

/-- Roles that exist are entries of the store, so there are no more of them than entries to walk
through. -/
theorem mem_keys_of_parents {role : String} (h : s.parents role ≠ none) :
    role ∈ s.roles.entries.map Prod.fst := by
  unfold parents at h
  cases hrole : s.roles.get? role with
  | none => simp [hrole] at h
  | some r => exact List.mem_map_of_mem (OrdMap.mem_entries.mpr hrole)

/-- A check deeper than the number of roles comes to an end with the right answer. -/
theorem check_iff {depth : ℕ} (h : s.roles.entries.length < depth) (role : String) :
    ∃ found visited, check s privilege object depth role (OrdSet.empty utf8) =
      some (found, visited) ∧ (found = true ↔ s.Allows role privilege object) := by
  have hkeys : (s.roles.entries.map Prod.fst).length < depth := by simpa using h
  have hsearch : ∃ found visited, Search.search s.parents (s.holds privilege object) depth role
      (OrdSet.empty utf8) = some (found, visited) ∧
        (found = true ↔ Search.Finds s.parents (s.holds privilege object) role) :=
    Search.search_iff (fun _ => mem_keys_of_parents) hkeys role
  simpa only [check_eq_search, finds_iff_allows] using hsearch

/-- A role has a privilege when it is allowed by a role it can reach. -/
theorem hasPrivilege_iff_allows {role : String} :
    s.hasPrivilege role privilege object = true ↔ s.Allows role privilege object := by
  obtain ⟨found, visited, hcheck, hfound⟩ :=
    check_iff privilege object (Nat.lt_succ_self s.roles.entries.length) role
  rw [hasPrivilege, hcheck]
  exact hfound

/-- **The privilege check.** For every inheritance graph the check comes to an end, however
deep it may go beyond the number of roles, and it says yes exactly when some existing role
that can be reached along inheritance through existing roles is granted the privilege. -/
theorem hasPrivilege_correct (s : RoleStore) (role : String) (privilege : Privilege)
    (object : Object) :
    (∀ depth, s.roles.entries.length < depth → ∃ visited,
      check s privilege object depth role (OrdSet.empty utf8) =
        some (s.hasPrivilege role privilege object, visited)) ∧
    (s.hasPrivilege role privilege object = true ↔
      ∃ name r, s.Reaches role name ∧ s.roles.get? name = some r ∧
        Grants.Hold r.grants privilege object) := by
  refine ⟨fun depth hdepth => ?_, hasPrivilege_iff_allows privilege object⟩
  obtain ⟨found, visited, hcheck, hfound⟩ := check_iff privilege object hdepth role
  have heq : found = s.hasPrivilege role privilege object := by
    rw [Bool.eq_iff_iff, hfound, hasPrivilege_iff_allows]
  exact ⟨visited, heq ▸ hcheck⟩

end Check

end RoleStore

end Skaidb
