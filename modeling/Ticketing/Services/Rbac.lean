import Ticketing.Model.World
import Ticketing.Lib.Json
import Mathlib.Data.List.Dedup
import Mathlib.Data.List.Sort
import Mathlib.Data.String.Basic

/-!
# `services/rbac.py`

Permissions, roles, and the cache of permission snapshots.

* `PermissionCode` is the enumeration. A `frozenset` of codes is its list in the order of their
  values (`frozenset`), which is also the order a snapshot is written in.
* `dumpSnapshot` and `loadSnapshot` are what `_membership_permissions` writes to the cache and
  reads from it; `loadSnapshot_dumpSnapshot`: a snapshot reads back. What does not parse is
  deleted and read from the database again.
* `hasPermission`, `invalidatePermissions`, `assignRoles`, `listRoles`, `provisionDefaults` and
  `resetToRequester` are the methods of these names. `Db.permissionCodes` is the query of
  `permission_codes`: the codes of all roles of a membership.
* `Db.DefaultRoles` says that a tenant has its three roles with the permissions the code gives
  them by default.

`quiet_*` says of a method that it only reads, draws and uses the cache, and what it may raise.

Left out: `require`, which is `has_permission` and an exception, and the metrics of the cache.
-/

namespace Ticketing

open Lib (Json)
open Service (perform)

inductive PermissionCode
  | membersRead
  | membersInvite
  | rolesManage
  | customersRead
  | customersWrite
  | ticketsReadAll
  | ticketsUpdateAll
  | ticketsManageWorkflow
  | ticketsCommentInternal
  deriving DecidableEq, Repr

namespace PermissionCode

def value : PermissionCode → String
  | membersRead => "members.read"
  | membersInvite => "members.invite"
  | rolesManage => "roles.manage"
  | customersRead => "customers.read"
  | customersWrite => "customers.write"
  | ticketsReadAll => "tickets.read.all"
  | ticketsUpdateAll => "tickets.update.all"
  | ticketsManageWorkflow => "tickets.manage.workflow"
  | ticketsCommentInternal => "tickets.comment.internal"

/-- Every code, in the order of the class. -/
def members : List PermissionCode :=
  [membersRead, membersInvite, rolesManage, customersRead, customersWrite, ticketsReadAll,
    ticketsUpdateAll, ticketsManageWorkflow, ticketsCommentInternal]

/-- Every code, sorted by value. -/
def all : List PermissionCode :=
  [customersRead, customersWrite, membersInvite, membersRead, rolesManage, ticketsCommentInternal,
    ticketsManageWorkflow, ticketsReadAll, ticketsUpdateAll]

/-- `PermissionCode(text)`. -/
def ofValue (text : String) : Option PermissionCode := all.find? (·.value = text)

theorem mem_all (p : PermissionCode) : p ∈ all := by cases p <;> decide

theorem mem_members (p : PermissionCode) : p ∈ members := by cases p <;> decide

theorem ofValue_value (p : PermissionCode) : ofValue p.value = some p := by cases p <;> decide

theorem value_of_ofValue {text : String} {p : PermissionCode} (h : ofValue text = some p) :
    p.value = text := by
  have hp := List.find?_some (p := fun p : PermissionCode => decide (p.value = text)) h
  exact of_decide_eq_true hp

/-- `frozenset(codes)`. -/
def frozenset (codes : List PermissionCode) : List PermissionCode := all.filter (· ∈ codes)

@[simp] theorem mem_frozenset {p : PermissionCode} {codes : List PermissionCode} :
    p ∈ frozenset codes ↔ p ∈ codes := by simp [frozenset, mem_all]

@[simp] theorem frozenset_frozenset (codes : List PermissionCode) :
    frozenset (frozenset codes) = frozenset codes := by
  simp [frozenset, mem_all]

end PermissionCode

/-- `cache/keys.py`. -/
def permissionSnapshotKey (tenantId membershipId : UUID) : String :=
  "ticketing:v1:tenant:" ++ tenantId.str ++ ":membership:" ++ membershipId.str ++ ":permissions"

/-- `json.dumps(sorted(…), separators=(",", ":"))`. -/
def dumpSnapshot (permissions : List PermissionCode) : String :=
  Json.dumps true (.arr (permissions.map fun p => .str p.value))

/-- One item of a cached list. -/
def snapshotItem : Json → Option PermissionCode
  | .str s => PermissionCode.ofValue s
  | _ => none

/-- What a cached text says, `none` where reading it raises a `ValueError`. -/
def loadSnapshot (text : String) : Option (List PermissionCode) :=
  match Json.loads text with
  | some (.arr items) => (items.mapM snapshotItem).map PermissionCode.frozenset
  | _ => none

theorem loadSnapshot_dumpSnapshot (permissions : List PermissionCode) :
    loadSnapshot (dumpSnapshot permissions) = some (PermissionCode.frozenset permissions) := by
  have ht : Json.Textual (.arr (permissions.map fun p => .str p.value)) := by
    unfold Json.Textual
    induction permissions with
    | nil => trivial
    | cons p ps ih => exact ⟨trivial, ih⟩
  have hm : (permissions.map fun p => Json.str p.value).mapM snapshotItem = some permissions := by
    clear ht
    induction permissions with
    | nil => rfl
    | cons p ps ih => simp [snapshotItem, PermissionCode.ofValue_value, ih]
  rw [loadSnapshot, dumpSnapshot, Json.loads_dumps true ht]
  simp only [hm, Option.map_some]

namespace Db

/-- The codes a membership's roles give it in a tenant. -/
def permissionCodes (db : Db) (tenantId membershipId : UUID) : List String :=
  ((db .membershipRoles).filter (·.membershipId = membershipId)).flatMap fun assigned =>
    ((db .roles).filter fun r => r.id = assigned.roleId ∧ r.tenantId = tenantId).flatMap fun _ =>
      ((db .rolePermissions).filter (·.roleId = assigned.roleId)).flatMap fun granted =>
        ((db .permissions).filter (·.id = granted.permissionId)).map (·.code)

/-- The role has been granted the permission with the code `text`. -/
def Grants (db : Db) (roleId : UUID) (text : String) : Prop :=
  ∃ granted ∈ db .rolePermissions, granted.roleId = roleId ∧
    ∃ p ∈ db .permissions, p.id = granted.permissionId ∧ p.code = text

end Db

/-- The constructor's arguments; `cache` is false where no cache backend was given. -/
structure RBACService where
  cache : Bool := true
  cacheTtlSeconds : Nat := 300
  cacheTtlJitterSeconds : Nat := 30
  deriving DecidableEq, Repr

namespace RBACService

open PermissionCode (frozenset)

variable (S : RBACService)

/-- The second half of `_membership_permissions`: the database, then the cache. -/
def loadPermissions (membership : Membership) : Service (List PermissionCode) := do
  let values ← Service.select fun db => db.permissionCodes membership.tenantId membership.id
  match values.mapM PermissionCode.ofValue with
  | none => throw .valueError
  | some codes =>
    let permissions := frozenset codes
    if S.cache then
      let jitter ← perform (Op.randint S.cacheTtlJitterSeconds)
      perform (Op.cacheSet (permissionSnapshotKey membership.tenantId membership.id)
        (dumpSnapshot permissions) (S.cacheTtlSeconds + jitter))
    pure permissions

/-- `_membership_permissions`. -/
def membershipPermissions (membership : Membership) : Service (List PermissionCode) :=
  let cacheKey := permissionSnapshotKey membership.tenantId membership.id
  if S.cache then do
    match ← perform (Op.cacheGet cacheKey) with
    | some cached =>
      match loadSnapshot cached with
      | some permissions => pure permissions
      | none =>
        perform (Op.cacheDelete cacheKey)
        S.loadPermissions membership
    | none => S.loadPermissions membership
  else S.loadPermissions membership

def hasPermission (membership : Membership) (permission : PermissionCode) : Service Bool := do
  let permissions ← S.membershipPermissions membership
  pure (decide (permission ∈ permissions))

theorem quiet_loadPermissions {ρ : Exn → Prop} (hρ : ρ .valueError) (membership : Membership) :
    Service.Quiet ρ (S.loadPermissions membership) := by
  refine .bind (Service.quiet_select _) fun values => ?_
  cases values.mapM PermissionCode.ofValue with
  | none => exact hρ
  | some codes =>
    cases S.cache with
    | false => trivial
    | true => exact .bind (.perform trivial) fun _ => .bind (.perform trivial) fun _ => trivial

theorem quiet_hasPermission {ρ : Exn → Prop} (hρ : ρ .valueError) (membership : Membership)
    (permission : PermissionCode) : Service.Quiet ρ (S.hasPermission membership permission) := by
  have hload := S.quiet_loadPermissions hρ membership
  refine .bind ?_ fun _ => trivial
  unfold membershipPermissions
  cases S.cache with
  | false => exact hload
  | true =>
    refine .bind (.perform trivial) fun cached => ?_
    cases cached with
    | none => exact hload
    | some text =>
      cases hs : loadSnapshot text with
      | none => simp only [hs]; exact .bind (.perform trivial) fun _ => hload
      | some permissions => simp only [hs]; trivial

def invalidatePermissions (tenantId membershipId : UUID) : Service Unit :=
  if S.cache then perform (Op.cacheDelete (permissionSnapshotKey tenantId membershipId))
  else pure ()

theorem quiet_invalidatePermissions {ρ : Exn → Prop} (tenantId membershipId : UUID) :
    Service.Quiet ρ (S.invalidatePermissions tenantId membershipId) := by
  unfold invalidatePermissions
  split
  · exact .perform trivial
  · trivial

def listRoles (tenantId : UUID) : Service (List Role) :=
  Service.select fun db =>
    ((db .roles).filter (·.tenantId = tenantId)).insertionSort (·.name ≤ ·.name)

/-- The inserts of `add_all`, each with an id of its own. -/
def addMembershipRoles (membershipId : UUID) : List UUID → Service (List MembershipRole)
  | [] => pure []
  | roleId :: rest => do
    let id ← Service.uuid4
    let rows ← addMembershipRoles membershipId rest
    pure (⟨id, membershipId, roleId⟩ :: rows)

theorem quiet_addMembershipRoles {ρ : Exn → Prop} (membershipId : UUID) (roleIds : List UUID) :
    Service.Quiet ρ (addMembershipRoles membershipId roleIds) := by
  induction roleIds with
  | nil => trivial
  | cons roleId rest ih => exact .bind Service.quiet_uuid4 fun id => .bind ih fun _ => trivial

/-- The flush of several new objects of one table. -/
def insertAll (t : Table) : List t.Row → Service Unit
  | [] => pure ()
  | row :: rows => do
    Service.insert t row
    insertAll t rows

def assignRoles (tenantId membershipId : UUID) (roleIds : List UUID) : Service Unit := do
  let tenant ← Service.get .tenants tenantId
  let membership ← Service.get .memberships membershipId
  match tenant, membership with
  | some tenant, some membership =>
    if membership.tenantId ≠ tenantId then throw .roleNotFound
    let roles ← Service.select fun db =>
      (db .roles).filter fun r => r.tenantId = tenantId ∧ r.id ∈ roleIds
    if roles.length ≠ roleIds.dedup.length then throw .roleNotFound
    if membership.userId = tenant.ownerUserId ∧ ¬ roles.any (·.name = "tenant_admin") then
      throw .ownerAdminRoleRequired
    Service.delete .membershipRoles (·.membershipId = membershipId)
    let rows ← addMembershipRoles membershipId (roles.map (·.id))
    insertAll .membershipRoles rows
    Service.commit
    S.invalidatePermissions tenantId membershipId
  | _, _ => throw .roleNotFound

/-- The dictionary of `_permissions_by_code`; of two items with one code it has the later one. -/
def byCode (permissions : List Permission) : Except Exn (PermissionCode → Option Permission) :=
  match permissions.mapM fun item => PermissionCode.ofValue item.code with
  | none => .error .valueError
  | some _ =>
    let found := fun code : PermissionCode => permissions.reverse.find? (·.code = code.value)
    if PermissionCode.members.all fun code => (found code).isSome then .ok found
    else .error (.runtimeError "Required permissions have not been migrated")

/-- `_permissions_by_code`. -/
def permissionsByCode : Service (PermissionCode → Option Permission) := do
  match byCode (← Service.select fun db => db .permissions) with
  | .ok permissions => pure permissions
  | .error e => throw e

theorem quiet_permissionsByCode {ρ : Exn → Prop} (hvalue : ρ .valueError)
    (hruntime : ∀ message, ρ (.runtimeError message)) : Service.Quiet ρ permissionsByCode := by
  refine .bind (Service.quiet_select _) fun permissions => ?_
  unfold byCode
  split
  · trivial
  · rename_i e he
    split at he
    · cases he
      exact hvalue
    · dsimp only at he
      split at he <;> cases he
      exact hruntime _

/-- What an agent may do by default. -/
def agentCodes : List PermissionCode :=
  [.membersRead, .customersRead, .customersWrite, .ticketsReadAll, .ticketsUpdateAll,
    .ticketsManageWorkflow, .ticketsCommentInternal]

/-- What a role of that name may do by default. -/
def defaultCodes (name : String) : List PermissionCode :=
  if name = "tenant_admin" then PermissionCode.members
  else if name = "agent" then agentCodes
  else []

/-- New grants of the permissions `codes` to a role. -/
def grantAll (permissions : PermissionCode → Option Permission) (roleId : UUID) :
    List PermissionCode → Service (List RolePermission)
  | [] => pure []
  | code :: codes => do
    let id ← Service.uuid4
    match permissions code with
    | none => throw .keyError
    | some permission =>
      let rows ← grantAll permissions roleId codes
      pure (⟨id, roleId, permission.id⟩ :: rows)

theorem quiet_grantAll {ρ : Exn → Prop} (hkey : ρ .keyError)
    (permissions : PermissionCode → Option Permission) (roleId : UUID)
    (codes : List PermissionCode) : Service.Quiet ρ (grantAll permissions roleId codes) := by
  induction codes with
  | nil => trivial
  | cons code codes ih =>
    refine .bind Service.quiet_uuid4 fun id => ?_
    cases permissions code with
    | none => exact hkey
    | some permission => exact .bind ih fun _ => trivial

def newRole (id tenantId : UUID) (name : String) : Role where
  id
  tenantId
  name
  isSystem := true
  createdAt := 0
  updatedAt := 0

/-- `provision_defaults`: the owner's role and the grants are flushed by the caller's commit. -/
def provisionDefaults (tenant : Tenant) (ownerMembership : Membership) :
    Service (MembershipRole × List RolePermission) := do
  let permissions ← permissionsByCode
  let admin ← Service.uuid4
  let agent ← Service.uuid4
  let requester ← Service.uuid4
  insertAll .roles [newRole admin tenant.id "tenant_admin", newRole agent tenant.id "agent",
    newRole requester tenant.id "requester"]
  let adminGrants ← grantAll permissions admin (defaultCodes "tenant_admin")
  let agentGrants ← grantAll permissions agent (defaultCodes "agent")
  let id ← Service.uuid4
  pure (⟨id, ownerMembership.id, admin⟩, adminGrants ++ agentGrants)

/-- `reset_to_requester`: the new row is flushed by the caller's commit. -/
def resetToRequester (tenantId : UUID) (membership : Membership) : Service MembershipRole := do
  let role ← Service.select fun db =>
    (db .roles).find? fun r => r.tenantId = tenantId ∧ r.name = "requester"
  match role with
  | none => throw .roleNotFound
  | some role =>
    Service.delete .membershipRoles (·.membershipId = membership.id)
    let id ← Service.uuid4
    pure ⟨id, membership.id, role.id⟩

end RBACService

/-- The roles of a tenant are those of `provision_defaults`, with exactly their grants. -/
structure Db.DefaultRoles (db : Db) (tenantId : UUID) : Prop where
  roles : ((db .roles).filter (·.tenantId = tenantId)).map (fun r => (r.name, r.isSystem)) =
    [("tenant_admin", true), ("agent", true), ("requester", true)]
  grants : ∀ role ∈ db .roles, role.tenantId = tenantId → ∀ text, db.Grants role.id text ↔
    ∃ code ∈ RBACService.defaultCodes role.name, code.value = text

end Ticketing
