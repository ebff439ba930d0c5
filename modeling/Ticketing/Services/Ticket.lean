import Ticketing.Services.Tenant
import Ticketing.Services.TicketWorkflow

/-!
# `services/ticket.py`

Creation, the five workflow actions, reading and updating. What SQLAlchemy flushes at a commit
stands as explicit statements, in the order of the unit of work: a ticket before the rows that
refer to it.

* `create` replays a request whose idempotency key is taken (`replayCreation`) and refuses another
  request under the same key; where it loses the race for the key it looks the winner up
  (`replayRaced`). `creationRequestHash` is SHA-256 of the canonical JSON of the request.
* `claim`, `transfer`, `resolve`, `reopen` and `close` read the ticket under its row lock
  (`getLockedVisible`), check who may do it (`requireWorkflowPermission`,
  `requireAssigneeOrAdmin`) and that the status allows it (`nextStatus`), and write the row and
  its event in one transaction (`saveAction`). `resolve` and `close` are one body (`conclude`).
* `update` reads without a lock and writes the fields that changed.
* `get` and `listEvents` are the methods of these names; a ticket the caller may not see is not
  found (`requireAccess`, of which `canAccess` is `_can_access`).

`quiet_*` says of a method that it only reads, draws and uses the cache, and what it may raise.
`TicketService.list` has a module of its own (`Services/TicketList.lean`).
-/

namespace Ticketing

open Lib (Json)
open Lib.Text (strip)

structure TicketChanges where
  fields : List String
  subject : Option String
  description : Option String
  priority : Option TicketPriority
  deriving DecidableEq, Repr

structure TicketCreationResult where
  ticket : Ticket
  replayed : Bool
  deriving DecidableEq, Repr

/-- What `create` is asked for. -/
structure CreationRequest where
  customerId : Option UUID
  subject : String
  description : String
  priority : TicketPriority
  deriving DecidableEq, Repr

/-- The request as the hash sees it. -/
def CreationRequest.normalized (r : CreationRequest) : CreationRequest :=
  { r with subject := strip r.subject, description := strip r.description }

namespace Db

/-- `TicketRepository.get_by_id`. -/
def ticket (db : Db) (tenantId ticketId : UUID) : Option Ticket :=
  (db .tickets).find? fun t => t.tenantId = tenantId ∧ t.id = ticketId

/-- `TicketCreationKeyRepository.get`. -/
def creationKey (db : Db) (tenantId membershipId : UUID) (key : String) :
    Option TicketCreationKey :=
  (db .ticketCreationKeys).find? fun k =>
    k.tenantId = tenantId ∧ k.membershipId = membershipId ∧ k.key = key

/-- `MembershipRepository.get_by_id`. -/
def activeMembership (db : Db) (tenantId membershipId : UUID) : Option Membership :=
  (db .memberships).find? fun m =>
    m.tenantId = tenantId ∧ m.id = membershipId ∧ m.status = .active

/-- `TicketEventRepository.list_for_ticket`. -/
def ticketEventsOf (db : Db) (tenantId ticketId : UUID) : List TicketEvent :=
  ((db .ticketEvents).filter fun e => e.tenantId = tenantId ∧ e.ticketId = ticketId).insertionSort
    fun a b => createdOrder (a.createdAt, a.id) (b.createdAt, b.id)

end Db

namespace TicketService

variable (P : Platform) (S : RBACService)

/-- The dictionary `_creation_request_hash` dumps, its keys sorted. -/
def canonicalRequest (r : CreationRequest) : Json :=
  .obj [("customer_id", match r.customerId with
      | none => .null
      | some id => .str id.str),
    ("description", .str (strip r.description)),
    ("priority", .str r.priority.value),
    ("subject", .str (strip r.subject))]

/-- `_creation_request_hash`. -/
def creationRequestHash (r : CreationRequest) : String :=
  P.sha256Hex (Json.dumps false (canonicalRequest r)).toUTF8

/-- `_replay_creation`. -/
def replayCreation (record : TicketCreationKey) (requestHash : String) :
    Service TicketCreationResult :=
  if record.requestHash ≠ requestHash then throw .idempotencyKeyConflict
  else do
    match ← Service.select fun db => db.ticket record.tenantId record.ticketId with
    | none => throw .ticketNotFound
    | some ticket => pure ⟨ticket, true⟩

/-- The customer `create` is asked for is one the member may use. -/
def checkCustomer (context : CurrentTenant) : Option UUID → Service Unit
  | none => pure ()
  | some customerId => do
    let customer ← Service.select fun db => db.customer context.tenant.id customerId
    let canReadCustomers ← S.hasPermission context.membership .customersRead
    if customer.all (!·.isActive) || !canReadCustomers then throw .customerNotFound

/-- The ticket `create` adds. -/
def newTicket (context : CurrentTenant) (r : CreationRequest) (id : UUID) : Ticket where
  id
  tenantId := context.tenant.id
  customerId := r.customerId
  createdByMembershipId := context.membership.id
  assigneeMembershipId := none
  subject := strip r.subject
  description := strip r.description
  status := .open
  priority := r.priority
  createdAt := 0
  updatedAt := 0

/-- The event `create` adds. -/
def createdEvent (context : CurrentTenant) (ticketId id : UUID) : TicketEvent where
  id
  tenantId := context.tenant.id
  ticketId
  actorMembershipId := context.membership.id
  eventType := .created
  fromStatus := none
  toStatus := .open
  fromAssigneeMembershipId := none
  toAssigneeMembershipId := none
  note := none
  createdAt := 0

/-- The idempotency record `create` adds. -/
def newCreationKey (context : CurrentTenant) (idempotencyKey requestHash : String)
    (ticketId id : UUID) : TicketCreationKey where
  id
  tenantId := context.tenant.id
  membershipId := context.membership.id
  key := idempotencyKey
  requestHash
  ticketId
  createdAt := 0

/-- The flush of what `create` adds. -/
def insertTicket (context : CurrentTenant) (r : CreationRequest)
    (idempotencyKey requestHash : String) (ticketId eventId keyId : UUID) : Service Unit := do
  Service.insert .tickets (newTicket context r ticketId)
  Service.insert .ticketEvents (createdEvent context ticketId eventId)
  Service.insert .ticketCreationKeys
    (newCreationKey context idempotencyKey requestHash ticketId keyId)

/-- After a uniqueness race `create` reads the winner's key. -/
def replayRaced (context : CurrentTenant) (idempotencyKey requestHash : String) :
    Service TicketCreationResult := do
  Service.rollback
  match ← Service.select fun db =>
      db.creationKey context.tenant.id context.membership.id idempotencyKey with
  | none => throw .integrityError
  | some racedKey => replayCreation racedKey requestHash

def create (context : CurrentTenant) (r : CreationRequest) (idempotencyKey : String) :
    Service TicketCreationResult := do
  let requestHash := creationRequestHash P r
  match ← Service.select fun db =>
      db.creationKey context.tenant.id context.membership.id idempotencyKey with
  | some existingKey => replayCreation existingKey requestHash
  | none =>
    checkCustomer S context r.customerId
    let ticketId ← Service.uuid4
    let eventId ← Service.uuid4
    let keyId ← Service.uuid4
    Service.exceptIntegrityError
      (do
        insertTicket context r idempotencyKey requestHash ticketId eventId keyId
        Service.commit
        pure none)
      (do pure (some (← replayRaced context idempotencyKey requestHash))) >>= fun
    | some replayed => pure replayed
    | none => do
      let ticket ← Service.refresh .tickets ticketId
      pure ⟨ticket, false⟩

/-- `_can_access`. -/
def canAccess (context : CurrentTenant) (ticket : Ticket)
    (allRecordsPermission : PermissionCode) : Service Bool :=
  if ticket.createdByMembershipId = context.membership.id then pure true
  else S.hasPermission context.membership allRecordsPermission

/-- The ticket a query found, if the member may access it. -/
def requireAccess (context : CurrentTenant) (found : Option Ticket)
    (allRecordsPermission : PermissionCode) : Service Ticket := do
  match found with
  | none => throw .ticketNotFound
  | some ticket =>
    if ← canAccess S context ticket allRecordsPermission then pure ticket
    else throw .ticketNotFound

def get (context : CurrentTenant) (ticketId : UUID) : Service Ticket := do
  let found ← Service.select fun db => db.ticket context.tenant.id ticketId
  requireAccess S context found .ticketsReadAll

def listEvents (context : CurrentTenant) (ticketId : UUID) : Service (List TicketEvent) := do
  let _ ← get S context ticketId
  Service.select fun db => db.ticketEventsOf context.tenant.id ticketId

/-- `_get_locked_visible`. -/
def getLockedVisible (context : CurrentTenant) (ticketId : UUID) : Service Ticket := do
  let found ← Service.selectForUpdate .tickets fun db => db.ticket context.tenant.id ticketId
  requireAccess S context found .ticketsReadAll

/-- `_require_workflow_permission`. -/
def requireWorkflowPermission (context : CurrentTenant) : Service Unit := do
  if !(← S.hasPermission context.membership .ticketsManageWorkflow) then
    throw .ticketActionForbidden

/-- `_require_assignee_or_admin`. -/
def requireAssigneeOrAdmin (context : CurrentTenant) (ticket : Ticket) : Service Unit :=
  if ticket.assigneeMembershipId = some context.membership.id then pure ()
  else do
    if !(← S.hasPermission context.membership .rolesManage) then throw .ticketActionForbidden

theorem quiet_checkCustomer (context : CurrentTenant) (customerId : Option UUID) :
    Service.Quiet (· ≠ .integrityError) (checkCustomer S context customerId) := by
  cases customerId with
  | none => trivial
  | some id =>
    refine .bind (Service.quiet_select _) fun customer => ?_
    refine .bind (S.quiet_hasPermission (by decide) _ _) fun canRead => ?_
    split
    · show _ ≠ _
      decide
    · trivial

theorem quiet_replayCreation (record : TicketCreationKey) (requestHash : String) :
    Service.Quiet (· ≠ .integrityError) (replayCreation record requestHash) := by
  unfold replayCreation
  split
  · show _ ≠ _
    decide
  · refine .bind (Service.quiet_select _) fun ticket => ?_
    cases ticket with
    | none =>
      show _ ≠ _
      decide
    | some ticket => trivial

theorem quiet_requireAccess (context : CurrentTenant) (found : Option Ticket)
    (p : PermissionCode) :
    Service.Quiet (· ≠ .integrityError) (requireAccess S context found p) := by
  cases found with
  | none =>
    show _ ≠ _
    decide
  | some ticket =>
    refine .bind ?_ fun ok => ?_
    · unfold canAccess
      split
      · trivial
      · exact S.quiet_hasPermission (by decide) _ _
    · cases ok with
      | false =>
        show _ ≠ _
        decide
      | true => trivial

theorem quiet_get (context : CurrentTenant) (ticketId : UUID) :
    Service.Quiet (· ≠ .integrityError) (get S context ticketId) :=
  .bind (Service.quiet_select _) fun found => quiet_requireAccess S context found _

theorem quiet_getLockedVisible (context : CurrentTenant) (ticketId : UUID) :
    Service.Quiet (· ≠ .integrityError) (getLockedVisible S context ticketId) :=
  .bind (.perform trivial) fun found => quiet_requireAccess S context found _

theorem quiet_requireWorkflowPermission (context : CurrentTenant) :
    Service.Quiet (fun _ => True) (requireWorkflowPermission S context) := by
  refine .bind (S.quiet_hasPermission trivial _ _) fun ok => ?_
  split <;> trivial

theorem quiet_requireAssigneeOrAdmin (context : CurrentTenant) (ticket : Ticket) :
    Service.Quiet (fun _ => True) (requireAssigneeOrAdmin S context ticket) := by
  unfold requireAssigneeOrAdmin
  split
  · trivial
  · refine .bind (S.quiet_hasPermission trivial _ _) fun ok => ?_
    split <;> trivial

/-- `_next_status`. -/
def nextStatus (currentStatus : TicketStatus) (action : TicketAction) : Service TicketStatus :=
  match nextTicketStatus currentStatus action with
  | .ok next => pure next
  | .error e => throw e

theorem quiet_nextStatus (currentStatus : TicketStatus) (action : TicketAction) :
    Service.Quiet (fun _ => True) (nextStatus currentStatus action) := by
  unfold nextStatus
  split <;> trivial

/-- The event `_save_action` adds. -/
def actionEvent (context : CurrentTenant) (ticket : Ticket) (action : TicketAction)
    (nextStatus : TicketStatus) (nextAssigneeMembershipId : Option UUID) (note : Option String)
    (id : UUID) : TicketEvent where
  id
  tenantId := context.tenant.id
  ticketId := ticket.id
  actorMembershipId := context.membership.id
  eventType := eventTypes action
  fromStatus := some ticket.status
  toStatus := nextStatus
  fromAssigneeMembershipId := ticket.assigneeMembershipId
  toAssigneeMembershipId := nextAssigneeMembershipId
  note := note.map strip
  createdAt := 0

/-- The ticket as `_save_action` leaves it. -/
def withAction (ticket : Ticket) (nextStatus : TicketStatus)
    (nextAssigneeMembershipId : Option UUID) : Ticket :=
  { ticket with status := nextStatus, assigneeMembershipId := nextAssigneeMembershipId }

/-- `_save_action`. -/
def saveAction (context : CurrentTenant) (ticket : Ticket) (action : TicketAction)
    (nextStatus : TicketStatus) (nextAssigneeMembershipId : Option UUID) (note : Option String) :
    Service Ticket := do
  let eventId ← Service.uuid4
  Service.update .tickets ticket (withAction ticket nextStatus nextAssigneeMembershipId)
  Service.insert .ticketEvents
    (actionEvent context ticket action nextStatus nextAssigneeMembershipId note eventId)
  Service.commit
  Service.refresh .tickets ticket.id

def claim (context : CurrentTenant) (ticketId : UUID) (note : Option String) : Service Ticket := do
  let ticket ← getLockedVisible S context ticketId
  requireWorkflowPermission S context
  let next ← nextStatus ticket.status .claim
  if ticket.assigneeMembershipId.isSome then throw .ticketAssignmentConflict
  saveAction context ticket .claim next (some context.membership.id) note

def transfer (context : CurrentTenant) (ticketId assigneeMembershipId : UUID)
    (note : Option String) : Service Ticket := do
  let ticket ← getLockedVisible S context ticketId
  requireWorkflowPermission S context
  requireAssigneeOrAdmin S context ticket
  let next ← nextStatus ticket.status .transfer
  match ← Service.select fun db => db.activeMembership context.tenant.id assigneeMembershipId with
  | none => throw .ticketAssigneeNotFound
  | some target =>
    if !(← S.hasPermission target .ticketsManageWorkflow) then throw .ticketAssigneeNotFound
    if ticket.assigneeMembershipId = some target.id then throw .ticketAssignmentConflict
    saveAction context ticket .transfer next (some target.id) note

/-- The body of `resolve` and `close`: the ticket keeps its assignee. -/
def conclude (action : TicketAction) (context : CurrentTenant) (ticketId : UUID)
    (note : Option String) : Service Ticket := do
  let ticket ← getLockedVisible S context ticketId
  requireWorkflowPermission S context
  requireAssigneeOrAdmin S context ticket
  let next ← nextStatus ticket.status action
  saveAction context ticket action next ticket.assigneeMembershipId note

def resolve (context : CurrentTenant) (ticketId : UUID) (note : Option String) : Service Ticket :=
  conclude S .resolve context ticketId note

def reopen (context : CurrentTenant) (ticketId : UUID) (note : Option String) :
    Service Ticket := do
  let ticket ← getLockedVisible S context ticketId
  let hasWorkflowPermission ← S.hasPermission context.membership .ticketsManageWorkflow
  if ticket.createdByMembershipId ≠ context.membership.id && !hasWorkflowPermission then
    throw .ticketActionForbidden
  let next ← nextStatus ticket.status .reopen
  saveAction context ticket .reopen next none note

def close (context : CurrentTenant) (ticketId : UUID) (note : Option String) : Service Ticket :=
  conclude S .close context ticketId note

def changeSubject (ticket : Ticket) (changes : TicketChanges) : Service Ticket :=
  Service.changeField changes.fields "subject" changes.subject ticket fun subject =>
    pure { ticket with subject := strip subject }

def changeDescription (ticket : Ticket) (changes : TicketChanges) : Service Ticket :=
  Service.changeField changes.fields "description" changes.description ticket fun description =>
    pure { ticket with description := strip description }

def changePriority (ticket : Ticket) (changes : TicketChanges) : Service Ticket :=
  Service.changeField changes.fields "priority" changes.priority ticket fun priority =>
    pure { ticket with priority }

def update (context : CurrentTenant) (ticketId : UUID) (changes : TicketChanges) :
    Service Ticket := do
  let found ← Service.select fun db => db.ticket context.tenant.id ticketId
  let loaded ← requireAccess S context found .ticketsUpdateAll
  let ticket ← changeSubject loaded changes
  let ticket ← changeDescription ticket changes
  let ticket ← changePriority ticket changes
  Service.update .tickets loaded ticket
  Service.commit
  Service.refresh .tickets loaded.id

end TicketService

end Ticketing
