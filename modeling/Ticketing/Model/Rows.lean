import Ticketing.Model.Uuid
import Ticketing.Lib.Json

/-!
# The rows of the database

One structure per mapped class of `models/`, with its columns, and the enumerations with the text
each value is stored as (`value`, read back by `ofValue`).

* `Time` is an instant in microseconds since 0001-01-01T00:00 UTC, the first one a `datetime` can
  hold; `seconds` is a `timedelta`.
* The columns that a server default or an `onupdate` fills (`created_at`, `updated_at`,
  `available_at`) are zero in a row not yet written, and get the transaction's time when it is
  (`Model/Db.lean`).
* `JsonObject` is a JSON column. Every one of them holds a single level of keys over strings,
  integers and null (`Scalar`).

Out of scope: the lengths and check constraints of the columns, indexes and foreign keys. The
unique constraints are those of `Table.uniques`.
-/

namespace Ticketing

open Lib (Json)

abbrev Time := Nat

/-- `timedelta(seconds=n)`. -/
def seconds (n : Nat) : Nat := n * 1000000

inductive TicketStatus
  | «open»
  | inProgress
  | resolved
  | closed
  deriving DecidableEq, Repr

def TicketStatus.value : TicketStatus → String
  | .open => "open"
  | .inProgress => "in_progress"
  | .resolved => "resolved"
  | .closed => "closed"

/-- `TicketStatus(text)`. -/
def TicketStatus.ofValue (text : String) : Option TicketStatus :=
  [.open, .inProgress, .resolved, .closed].find? (·.value = text)

inductive TicketPriority
  | low
  | normal
  | high
  | urgent
  deriving DecidableEq, Repr

def TicketPriority.value : TicketPriority → String
  | .low => "low"
  | .normal => "normal"
  | .high => "high"
  | .urgent => "urgent"

/-- `TicketPriority(text)`. -/
def TicketPriority.ofValue (text : String) : Option TicketPriority :=
  [.low, .normal, .high, .urgent].find? (·.value = text)

theorem TicketStatus.ofValue_value (s : TicketStatus) : ofValue s.value = some s := by
  cases s <;> decide

theorem TicketPriority.ofValue_value (p : TicketPriority) : ofValue p.value = some p := by
  cases p <;> decide

inductive TicketEventType
  | created
  | claimed
  | transferred
  | resolved
  | reopened
  | closed
  deriving DecidableEq, Repr

inductive CommentVisibility
  | «public»
  | internal
  deriving DecidableEq, Repr

inductive BackgroundJobKind
  | emailNotification
  | ticketExport
  deriving DecidableEq, Repr

def BackgroundJobKind.value : BackgroundJobKind → String
  | .emailNotification => "email_notification"
  | .ticketExport => "ticket_export"

inductive BackgroundJobStatus
  | pending
  | running
  | retrying
  | succeeded
  | failed
  deriving DecidableEq, Repr

inductive OutboxStatus
  | pending
  | published
  deriving DecidableEq, Repr

inductive NotificationDeliveryStatus
  | sending
  | sent
  | retryableFailure
  | ambiguousFailure
  deriving DecidableEq, Repr

inductive MembershipStatus
  | invited
  | active
  | left
  deriving DecidableEq, Repr

/-- What a JSON column holds under one key. -/
inductive Scalar
  | null
  | int (n : Int)
  | str (s : String)
  deriving DecidableEq, Repr

abbrev JsonObject := List (String × Scalar)

/-- `object.get(key)`. -/
def JsonObject.get (o : JsonObject) (key : String) : Scalar := (o.lookup key).getD .null

def Scalar.toJson : Scalar → Json
  | null => .null
  | int n => .int n
  | str s => .str s

def JsonObject.toJson (o : JsonObject) : Json := .obj (o.map fun f => (f.1, f.2.toJson))

structure User where
  id : UUID
  email : String
  passwordHash : String
  isActive : Bool
  createdAt : Time
  updatedAt : Time
  deriving DecidableEq, Repr

structure RefreshToken where
  id : UUID
  userId : UUID
  tokenHash : String
  expiresAt : Time
  revokedAt : Option Time
  replacedById : Option UUID
  createdAt : Time
  updatedAt : Time
  deriving DecidableEq, Repr

/-- `user_id` matches and `revoked_at` is null. -/
def RefreshToken.isActive (t : RefreshToken) (userId : UUID) : Bool :=
  t.userId = userId && t.revokedAt.isNone

structure Tenant where
  id : UUID
  name : String
  slug : String
  ownerUserId : UUID
  isActive : Bool
  createdAt : Time
  updatedAt : Time
  deriving DecidableEq, Repr

structure Membership where
  id : UUID
  tenantId : UUID
  userId : UUID
  status : MembershipStatus
  joinedAt : Option Time
  createdAt : Time
  updatedAt : Time
  deriving DecidableEq, Repr

structure Permission where
  id : UUID
  code : String
  description : String
  deriving DecidableEq, Repr

structure Role where
  id : UUID
  tenantId : UUID
  name : String
  isSystem : Bool
  createdAt : Time
  updatedAt : Time
  deriving DecidableEq, Repr

structure RolePermission where
  id : UUID
  roleId : UUID
  permissionId : UUID
  deriving DecidableEq, Repr

structure MembershipRole where
  id : UUID
  membershipId : UUID
  roleId : UUID
  deriving DecidableEq, Repr

structure Customer where
  id : UUID
  tenantId : UUID
  name : String
  email : String
  phone : Option String
  isActive : Bool
  createdAt : Time
  updatedAt : Time
  deriving DecidableEq, Repr

structure Ticket where
  id : UUID
  tenantId : UUID
  customerId : Option UUID
  createdByMembershipId : UUID
  assigneeMembershipId : Option UUID
  subject : String
  description : String
  status : TicketStatus
  priority : TicketPriority
  createdAt : Time
  updatedAt : Time
  deriving DecidableEq, Repr

structure TicketEvent where
  id : UUID
  tenantId : UUID
  ticketId : UUID
  actorMembershipId : UUID
  eventType : TicketEventType
  fromStatus : Option TicketStatus
  toStatus : TicketStatus
  fromAssigneeMembershipId : Option UUID
  toAssigneeMembershipId : Option UUID
  note : Option String
  createdAt : Time
  deriving DecidableEq, Repr

structure TicketCreationKey where
  id : UUID
  tenantId : UUID
  membershipId : UUID
  key : String
  requestHash : String
  ticketId : UUID
  createdAt : Time
  deriving DecidableEq, Repr

structure TicketComment where
  id : UUID
  tenantId : UUID
  ticketId : UUID
  authorMembershipId : UUID
  visibility : CommentVisibility
  body : String
  createdAt : Time
  deriving DecidableEq, Repr

structure TicketAttachment where
  id : UUID
  tenantId : UUID
  ticketId : UUID
  uploaderMembershipId : UUID
  objectKey : String
  originalFilename : String
  contentType : String
  sizeBytes : Nat
  createdAt : Time
  deriving DecidableEq, Repr

structure BackgroundJob where
  id : UUID
  tenantId : UUID
  requestedByMembershipId : UUID
  kind : BackgroundJobKind
  status : BackgroundJobStatus
  idempotencyKey : String
  requestHash : String
  payload : JsonObject
  result : Option JsonObject
  attemptCount : Nat
  maxAttempts : Nat
  lastErrorCode : Option String
  lastErrorMessage : Option String
  startedAt : Option Time
  leaseExpiresAt : Option Time
  completedAt : Option Time
  createdAt : Time
  updatedAt : Time
  deriving DecidableEq, Repr

structure OutboxMessage where
  id : UUID
  tenantId : UUID
  jobId : UUID
  status : OutboxStatus
  taskName : String
  payload : JsonObject
  publishAttemptCount : Nat
  availableAt : Time
  publishedAt : Option Time
  lastError : Option String
  createdAt : Time
  updatedAt : Time
  deriving DecidableEq, Repr

structure NotificationDelivery where
  id : UUID
  tenantId : UUID
  jobId : UUID
  status : NotificationDeliveryStatus
  recipientEmail : String
  messageId : String
  attemptCount : Nat
  lastError : Option String
  deliveredAt : Option Time
  createdAt : Time
  updatedAt : Time
  deriving DecidableEq, Repr

end Ticketing
