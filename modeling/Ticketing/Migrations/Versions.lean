import Ticketing.Services.Rbac

/-!
# `alembic/versions`

The migrations from revision 0004 to 0010, as far as they change rows: `upgrade0004` to
`upgrade0010`, and `upgrade` for all that are due from a revision on.

* A `Migration` is a program over a `Draft`: the rows, and how many ids the server has drawn.
* `Server` is what `uuid4()` and `now()` answer.
* A table that a migration creates is empty then, and a column it adds is null.

Left out: columns, indexes and constraints, which are those of `Table.keys` from the start, and
`downgrade`.
-/

namespace Ticketing

/-- What the database server and `uuid4` give a migration. -/
structure Server where
  /-- The n-th `uuid4()`. -/
  uuid4 : Nat → UUID
  /-- `now()`. -/
  now : Time

/-- How far a migration has come. -/
structure Draft where
  db : Db
  /-- How many ids have been drawn. -/
  drawn : Nat

/-- A migration, in a transaction of its own. -/
abbrev Migration := ReaderT Server (StateT Draft (Except Exn))

namespace Migration

def uuid4 : Migration UUID := fun server s => .ok (server.uuid4 s.drawn, { s with drawn := s.drawn +
    1 })

/-- `connection.execute(sa.select(…))`. -/
def select {β : Type} (q : Db → β) : Migration β := fun _ s => .ok (q s.db, s)

/-- `op.create_table`. -/
def createTable (t : Table) : Migration Unit := fun _ s =>
  .ok ((), { s with db := Function.update s.db t [] })

/-- `op.add_column` of a nullable column. -/
def addColumn (t : Table) (null : t.Row → t.Row) : Migration Unit := fun _ s =>
  .ok ((), { s with db := Function.update s.db t ((s.db t).map null) })

def insert (t : Table) (row : t.Row) : Migration Unit := fun server s =>
  if (t.keys row).any fun k => s.db.present k then .error .integrityError
  else .ok ((), { s with db := (Write.insert t (t.stampInsert server.now row)).apply s.db })

/-- `op.bulk_insert`. -/
def bulkInsert (t : Table) : List t.Row → Migration Unit
  | [] => pure ()
  | row :: rows => do
    insert t row
    bulkInsert t rows

/-- One new row for each item, with an id of its own. -/
def draw {α β : Type} (row : UUID → α → β) : List α → Migration (List β)
  | [] => pure []
  | a :: as => do
    let id ← uuid4
    let rows ← draw row as
    pure (row id a :: rows)

/-- A dictionary of permission ids. -/
def lookup (permissionIds : List (String × UUID)) (code : String) : Migration UUID :=
  match permissionIds.lookup code with
  | some id => pure id
  | none => throw .keyError

/-! ## 0004: roles and permissions -/

def permissions0004 : List Permission :=
  [⟨0x10000000000000000000000000000001, "members.read", "Read tenant memberships"⟩,
    ⟨0x10000000000000000000000000000002, "members.invite", "Invite or reinvite tenant members"⟩,
    ⟨0x10000000000000000000000000000003, "roles.manage", "Assign tenant roles"⟩]

/-- The roles of one tenant, for its members as they are. -/
def provisionTenant (permissionIds : List (String × UUID)) (tenantId ownerUserId : UUID) :
    Migration Unit := do
  let admin ← uuid4
  let agent ← uuid4
  let requester ← uuid4
  bulkInsert .roles [RBACService.newRole admin tenantId "tenant_admin",
    RBACService.newRole agent tenantId "agent", RBACService.newRole requester tenantId "requester"]
  let read ← lookup permissionIds "members.read"
  let invite ← lookup permissionIds "members.invite"
  let manage ← lookup permissionIds "roles.manage"
  let grants ← draw (fun id (pair : UUID × UUID) => (⟨id, pair.1, pair.2⟩ : RolePermission))
    [(admin, read), (admin, invite), (admin, manage), (agent, read)]
  bulkInsert .rolePermissions grants
  let members ← select fun db => (db .memberships).filter (·.tenantId = tenantId)
  let assigned ← draw (fun id (m : Membership) =>
    (⟨id, m.id, if m.userId = ownerUserId then admin else requester⟩ : MembershipRole)) members
  bulkInsert .membershipRoles assigned

def provisionTenants (permissionIds : List (String × UUID)) : List Tenant → Migration Unit
  | [] => pure ()
  | tenant :: tenants => do
    provisionTenant permissionIds tenant.id tenant.ownerUserId
    provisionTenants permissionIds tenants

def upgrade0004 : Migration Unit := do
  createTable .permissions
  bulkInsert .permissions permissions0004
  createTable .roles
  createTable .rolePermissions
  createTable .membershipRoles
  let permissionIds ← select fun db => (db .permissions).map fun p => (p.code, p.id)
  let tenants ← select fun db => db .tenants
  provisionTenants permissionIds tenants

/-! ## 0005: customers and tickets -/

def permissions0005 : List Permission :=
  [⟨0x10000000000000000000000000000004, "customers.read", "Read tenant customers"⟩,
    ⟨0x10000000000000000000000000000005, "customers.write", "Create and update tenant customers"⟩,
    ⟨0x10000000000000000000000000000006, "tickets.read.all", "Read every ticket in a tenant"⟩,
    ⟨0x10000000000000000000000000000007, "tickets.update.all", "Update every ticket in a tenant"⟩]

/-- The existing administrators and agents get more permissions. -/
def grantToStaff (permissionIds : List UUID) : Migration Unit := do
  let roleIds ← select fun db =>
    ((db .roles).filter fun r => r.name ∈ ["tenant_admin", "agent"]).map (·.id)
  let grants ← draw (fun id (pair : UUID × UUID) => (⟨id, pair.1, pair.2⟩ : RolePermission))
    (roleIds.flatMap fun roleId => permissionIds.map fun permissionId => (roleId, permissionId))
  bulkInsert .rolePermissions grants

def upgrade0005 : Migration Unit := do
  bulkInsert .permissions permissions0005
  let permissionIds ← select fun db =>
    ((db .permissions).filter fun p => p.code ∈ permissions0005.map (·.code)).map (·.id)
  grantToStaff permissionIds
  createTable .customers
  createTable .tickets

/-! ## 0006: the ticket workflow -/

def workflowPermission : Permission :=
  ⟨0x10000000000000000000000000000008, "tickets.manage.workflow",
    "Claim, transfer, resolve, reopen, and close tenant tickets"⟩

/-- The event a ticket is given that was created before there were events. -/
def createdEvent (id : UUID) (ticket : Ticket) : TicketEvent where
  id
  tenantId := ticket.tenantId
  ticketId := ticket.id
  actorMembershipId := ticket.createdByMembershipId
  eventType := .created
  fromStatus := none
  toStatus := ticket.status
  fromAssigneeMembershipId := none
  toAssigneeMembershipId := ticket.assigneeMembershipId
  note := some "Backfilled during ticket workflow migration"
  createdAt := 0

def upgrade0006 : Migration Unit := do
  bulkInsert .permissions [workflowPermission]
  grantToStaff [workflowPermission.id]
  addColumn .tickets fun ticket => { ticket with assigneeMembershipId := none }
  createTable .ticketEvents
  let tickets ← select fun db => db .tickets
  let events ← draw createdEvent tickets
  bulkInsert .ticketEvents events

/-! ## 0007 to 0010 -/

/-- 0007 only changes indexes. -/
def upgrade0007 : Migration Unit := pure ()

def upgrade0008 : Migration Unit := createTable .ticketCreationKeys

def internalCommentPermission : Permission :=
  ⟨0x10000000000000000000000000000009, "tickets.comment.internal",
    "Create and read internal ticket comments"⟩

def upgrade0009 : Migration Unit := do
  bulkInsert .permissions [internalCommentPermission]
  let found ← select fun db =>
    ((db .permissions).filter (·.code = internalCommentPermission.code)).map (·.id)
  -- `scalar_one`
  match found with
  | [permissionId] =>
    grantToStaff [permissionId]
    createTable .ticketComments
    createTable .ticketAttachments
  | _ => throw .invalidRequest

def upgrade0010 : Migration Unit := do
  createTable .backgroundJobs
  createTable .outboxMessages
  createTable .notificationDeliveries

/-- `alembic upgrade` from revision 0003 on. -/
def upgrade : Migration Unit := do
  upgrade0004
  upgrade0005
  upgrade0006
  upgrade0007
  upgrade0008
  upgrade0009
  upgrade0010

end Migration

end Ticketing
