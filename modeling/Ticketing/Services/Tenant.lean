import Ticketing.Services.Rbac

/-!
# `services/tenant.py` and `services/customer.py`

Tenants and their memberships, and the customers of a tenant, with the queries of
`repositories/tenant.py`, `membership.py` and `customer.py` inlined or under their own names.

* `TenantService.create`, `invite`, `acceptInvitation`, `leave`, `resolveCurrent` and
  `listMembers` are the methods of these names. `invite`, `accept_invitation` and `leave` lock the
  membership's row before they look at its status.
* `CustomerService.create`, `get`, `list` and `update` are the methods of these names;
  `commitOrEmailConflict` is `_commit_or_email_conflict`, the handler of a lost race for an
  address. An update goes field by field (`Service.changeField`).
* `CurrentTenant` is the caller's membership and its tenant, as the request has resolved them.
  They are not read again: a call goes on with what it was given.
* `Db.HasMember` is what stays true of a membership while its status changes.
* `CurrentTenant.owner`, `Db.provisioned` and `Db.ticketed` are the caller and the rows that
  examples of runs start from.

Left out: `list_for_user`, which reads only, and the check of the permission in the endpoints of
customers and members. The texts of a request are validated by its schema
(`Schemas/Requests.lean`).
-/

namespace Ticketing

open Lib.Text (strip)

structure CurrentTenant where
  tenant : Tenant
  membership : Membership
  deriving DecidableEq, Repr

/-- A new tenant's owner. -/
def CurrentTenant.owner : CurrentTenant where
  tenant := { id := 1, name := "Acme", slug := "acme", ownerUserId := 1, isActive := true,
              createdAt := 0, updatedAt := 0 }
  membership := { id := 1, tenantId := 1, userId := 1, status := .active, joinedAt := some 0,
                  createdAt := 0, updatedAt := 0 }

/-- The database as `provision_defaults` leaves it for the owner, who has role 1 of the roles
`tenant_admin`, `agent` and `requester`. -/
def Db.provisioned : Db
  | .tenants => [CurrentTenant.owner.tenant]
  | .users => [{ id := 1, email := "owner@example.test", passwordHash := "", isActive := true,
                 createdAt := 0, updatedAt := 0 }]
  | .memberships => [CurrentTenant.owner.membership]
  | .permissions => PermissionCode.all.mapIdx fun n p => ⟨Fin.ofNat _ n, p.value, ""⟩
  | .roles => [⟨1, 1, "tenant_admin", true, 0, 0⟩, ⟨2, 1, "agent", true, 0, 0⟩,
      ⟨3, 1, "requester", true, 0, 0⟩]
  | .rolePermissions =>
    (PermissionCode.all.mapIdx fun n _ => ⟨Fin.ofNat _ n, 1, Fin.ofNat _ n⟩) ++
      [0, 1, 3, 5, 6, 7, 8].map fun n => ⟨Fin.ofNat _ (n + 9), 2, Fin.ofNat _ n⟩
  | .membershipRoles => [⟨1, 1, 1⟩]
  | _ => []

/-- `Db.provisioned` with one ticket of the owner. -/
def Db.ticketed : Db
  | .tickets => [{ id := 7, tenantId := 1, customerId := none, createdByMembershipId := 1,
                   assigneeMembershipId := none, subject := "Fire", description := "It burns",
                   status := .open, priority := .normal, createdAt := 0, updatedAt := 0 }]
  | t => Db.provisioned t

/-- `x` is the membership `m`, but for what changes of it. -/
def Membership.Same (m x : Membership) : Prop :=
  x.id = m.id ∧ x.tenantId = m.tenantId ∧ x.userId = m.userId

namespace Db

/-- The role assignments of a membership. -/
def rolesOf (db : Db) (membershipId : UUID) : List MembershipRole :=
  (db .membershipRoles).filter (·.membershipId = membershipId)

/-- A membership row for `m`. -/
def HasMember (db : Db) (m : Membership) : Prop := ∃ x ∈ db .memberships, m.Same x

/-- A membership row as a query found it is a member. -/
theorem hasMember_of_mem {db : Db} {m : Membership} (h : m ∈ db .memberships) : db.HasMember m :=
  ⟨m, h, rfl, rfl, rfl⟩

end Db

structure MemberSummary where
  membership : Membership
  user : User
  deriving DecidableEq, Repr

namespace TenantService

variable (P : Platform) (S : RBACService)

/-- `get_for_user_and_tenant`. -/
def findMembership (userId tenantId : UUID) (db : Db) : Option Membership :=
  (db .memberships).find? fun m => m.userId = userId ∧ m.tenantId = tenantId

def resolveCurrent (user : User) (tenantId : UUID) : Service CurrentTenant := do
  match ← Service.select (findMembership user.id tenantId) with
  | none => throw .tenantNotFound
  | some membership =>
    if membership.status ≠ .active then throw .tenantNotFound
    else
      match ← Service.get .tenants tenantId with
      | none => throw .tenantNotFound
      | some tenant =>
        if tenant.isActive then pure ⟨tenant, membership⟩ else throw .tenantNotFound

def newTenant (id ownerUserId : UUID) (name slug : String) : Tenant where
  id
  name
  slug
  ownerUserId
  isActive := true
  createdAt := 0
  updatedAt := 0

/-- The membership of a new tenant's owner. -/
def ownerMembership (id tenantId userId : UUID) (now : Time) : Membership where
  id
  tenantId
  userId
  status := .active
  joinedAt := some now
  createdAt := 0
  updatedAt := 0

def create (owner : User) (name slug : String) : Service CurrentTenant := do
  let normalizedSlug := P.lower (strip slug)
  let taken ← Service.select fun db => (db .tenants).find? (·.slug = normalizedSlug)
  if taken.isSome then throw .tenantSlugConflict
  let now ← Service.now
  let id ← Service.uuid4
  let tenant := newTenant id owner.id (strip name) normalizedSlug
  Service.exceptIntegrityError (Service.insert .tenants tenant)
    (do Service.rollback; throw .tenantSlugConflict)
  let id ← Service.uuid4
  let membership := ownerMembership id tenant.id owner.id now
  Service.insert .memberships membership
  let (assigned, grants) ← RBACService.provisionDefaults tenant membership
  Service.insert .membershipRoles assigned
  RBACService.insertAll .rolePermissions grants
  Service.commit
  let tenant ← Service.refresh .tenants tenant.id
  let membership ← Service.refresh .memberships membership.id
  pure ⟨tenant, membership⟩

/-- The membership `invite` adds. -/
def newMembership (tenantId userId id : UUID) : Membership where
  id
  tenantId
  userId
  status := .invited
  joinedAt := none
  createdAt := 0
  updatedAt := 0

def invite (context : CurrentTenant) (email : String) : Service Membership := do
  let tenant := context.tenant
  let address := P.lower (strip email)
  let targetUser ← Service.select fun db => (db .users).find? (·.email = address)
  match targetUser with
  | none => throw .invitedUserNotFound
  | some targetUser =>
    let existing ← Service.selectForUpdate .memberships (findMembership targetUser.id tenant.id)
    let membership ← match existing with
      | none => do
        let id ← Service.uuid4
        let membership := newMembership tenant.id targetUser.id id
        Service.insert .memberships membership
        pure membership
      | some loaded =>
        if loaded.status = .left then do
          let membership := { loaded with status := .invited, joinedAt := none }
          Service.update .memberships loaded membership
          pure membership
        else throw .invitationConflict
    let assigned ← RBACService.resetToRequester tenant.id membership
    Service.insert .membershipRoles assigned
    Service.commit
    S.invalidatePermissions tenant.id membership.id
    Service.refresh .memberships membership.id

def acceptInvitation (user : User) (tenantId : UUID) : Service CurrentTenant := do
  match ← Service.selectForUpdate .memberships (findMembership user.id tenantId) with
  | none => throw .tenantNotFound
  | some loaded =>
    if loaded.status ≠ .invited then throw .invitationNotPending
    match ← Service.get .tenants tenantId with
    | none => throw .tenantNotFound
    | some tenant =>
      if ¬ tenant.isActive then throw .tenantNotFound
      let now ← Service.now
      Service.update .memberships loaded { loaded with status := .active, joinedAt := some now }
      Service.commit
      S.invalidatePermissions tenantId loaded.id
      let membership ← Service.refresh .memberships loaded.id
      pure ⟨tenant, membership⟩

def leave (user : User) (tenantId : UUID) : Service Unit := do
  match ← Service.selectForUpdate .memberships (findMembership user.id tenantId) with
  | none => throw .membershipNotActive
  | some loaded =>
    if loaded.status ≠ .active then throw .membershipNotActive
    match ← Service.get .tenants tenantId with
    | none => throw .tenantNotFound
    | some tenant =>
      if ¬ tenant.isActive then throw .tenantNotFound
      if tenant.ownerUserId = user.id then throw .ownerCannotLeave
      Service.update .memberships loaded { loaded with status := .left }
      Service.commit
      S.invalidatePermissions tenantId loaded.id

def listMembers (context : CurrentTenant) : Service (List MemberSummary) := do
  let memberships ← Service.select fun db =>
    ((db .memberships).filter (·.tenantId = context.tenant.id)).insertionSort fun a b =>
      Db.createdOrder (a.createdAt, a.id) (b.createdAt, b.id)
  let userIds := memberships.map (·.userId)
  let users ← if userIds.isEmpty then pure [] else
    Service.select fun db => (db .users).filter (·.id ∈ userIds)
  pure (memberships.filterMap fun item =>
    (users.find? (·.id = item.userId)).map fun user => ⟨item, user⟩)

end TenantService

structure CustomerChanges where
  fields : List String
  name : Option String
  email : Option String
  phone : Option String
  isActive : Option Bool
  deriving DecidableEq, Repr

namespace Db

/-- `CustomerRepository.get_by_id`. -/
def customer (db : Db) (tenantId customerId : UUID) : Option Customer :=
  (db .customers).find? fun c => c.tenantId = tenantId ∧ c.id = customerId

/-- `CustomerRepository.get_by_email`. -/
def customerByEmail (db : Db) (tenantId : UUID) (email : String) : Option Customer :=
  (db .customers).find? fun c => c.tenantId = tenantId ∧ c.email = email

end Db

namespace CustomerService

variable (P : Platform)

def normalizePhone (phone : Option String) : Option String :=
  phone.bind fun p => if strip p = "" then none else some (strip p)

/-- `_commit_or_email_conflict`, with the statements its commit flushes. -/
def commitOrEmailConflict (flush : Service Unit) : Service Unit :=
  Service.exceptIntegrityError
    (do flush; Service.commit)
    (do Service.rollback; throw .customerEmailConflict)

def create (context : CurrentTenant) (name email : String) (phone : Option String) :
    Service Customer := do
  let normalizedEmail := P.lower (strip email)
  let existing ← Service.select fun db => db.customerByEmail context.tenant.id normalizedEmail
  if existing.isSome then throw .customerEmailConflict
  let id ← Service.uuid4
  commitOrEmailConflict (Service.insert .customers {
    id
    tenantId := context.tenant.id
    name := strip name
    email := normalizedEmail
    phone := normalizePhone phone
    isActive := true
    createdAt := 0
    updatedAt := 0 })
  Service.refresh .customers id

def get (context : CurrentTenant) (customerId : UUID) : Service Customer := do
  match ← Service.select fun db => db.customer context.tenant.id customerId with
  | some customer => pure customer
  | none => throw .customerNotFound

def list (context : CurrentTenant) (offset limit : Nat) : Service (List Customer) :=
  Service.select fun db =>
    ((((db .customers).filter (·.tenantId = context.tenant.id)).insertionSort fun a b =>
      Db.createdOrder (b.createdAt, a.id) (a.createdAt, b.id)).drop offset).take limit

/-- The address an update asks for, once nobody else in the tenant has it. -/
def changeEmail (context : CurrentTenant) (customer : Customer) (changes : CustomerChanges) :
    Service Customer :=
  Service.changeField changes.fields "email" changes.email customer fun email => do
    let normalizedEmail := P.lower (strip email)
    let existing ← Service.select fun db => db.customerByEmail context.tenant.id normalizedEmail
    if existing.any (·.id ≠ customer.id) then throw .customerEmailConflict
    pure { customer with email := normalizedEmail }

def changeName (customer : Customer) (changes : CustomerChanges) : Service Customer :=
  Service.changeField changes.fields "name" changes.name customer fun name =>
    pure { customer with name := strip name }

def changePhone (customer : Customer) (changes : CustomerChanges) : Customer :=
  if "phone" ∈ changes.fields then { customer with phone := normalizePhone changes.phone }
  else customer

def changeActive (customer : Customer) (changes : CustomerChanges) : Service Customer :=
  Service.changeField changes.fields "is_active" changes.isActive customer fun isActive =>
    pure { customer with isActive }

def update (context : CurrentTenant) (customerId : UUID) (changes : CustomerChanges) :
    Service Customer := do
  let loaded ← get context customerId
  let customer ← changeEmail P context loaded changes
  let customer ← changeName customer changes
  let customer ← changeActive (changePhone customer changes) changes
  commitOrEmailConflict (Service.update .customers loaded customer)
  Service.refresh .customers loaded.id

theorem quiet_get (context : CurrentTenant) (customerId : UUID) :
    Service.Quiet (· ≠ .integrityError) (get context customerId) := by
  refine .bind (Service.quiet_select _) fun found => ?_
  cases found with
  | none =>
    show _ ≠ _
    decide
  | some customer => trivial

theorem quiet_changeEmail (context : CurrentTenant) (customer : Customer)
    (changes : CustomerChanges) :
    Service.Quiet (· ≠ .integrityError) (changeEmail P context customer changes) := by
  refine Service.quiet_changeField (by decide) fun email => ?_
  refine .bind (Service.quiet_select _) fun existing => ?_
  split
  · show _ ≠ _
    decide
  · trivial

end CustomerService

end Ticketing
