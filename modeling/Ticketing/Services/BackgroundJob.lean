import Ticketing.Core.Config
import Ticketing.Services.Ticket
import Ticketing.Storage.Local
import Mathlib.Data.List.Sort

/-!
# `services/background_job.py`

Submitting jobs. A submission writes the job and the outbox message that is to start it in one
transaction, and is replayed for an idempotency key that was used before.

* `submitEmailNotification` and `submitTicketExport` derive the payload of a job from the rows
  they read (`emailPayload`, `exportPayload`) and go on in `submit`, which is `_submit`;
  `requestHash` is SHA-256 of the kind and the payload, `replay` is `_replay`, and `replayRaced`
  is the handler of a lost race for the key.
* `get` and `exportResultPath` are the methods of these names. The path of an export is joined to
  the storage's root and resolved, and has to lie under it (`exportCandidate`).
* `getOrCreateCorrelationId` is `core/context.py`: the id the request came with, or a new one.

Left out: that the root of the exports has been resolved before, and links in the file system.
-/

namespace Ticketing

open Lib (Json)

structure BackgroundJobSubmission where
  job : BackgroundJob
  replayed : Bool
  deriving DecidableEq, Repr

/-- The service of a request; `correlationId` is the context variable of that name. -/
structure BackgroundJobService where
  settings : Settings
  rbac : RBACService
  correlationId : Option String

/-- `BackgroundJobRepository.get_by_idempotency_key`. -/
def Db.jobByKey (db : Db) (tenantId membershipId : UUID) (key : String) : Option BackgroundJob :=
  (db .backgroundJobs).find? fun job => job.tenantId = tenantId ∧
    job.requestedByMembershipId = membershipId ∧ job.idempotencyKey = key

/-- `BackgroundJobRepository.get_job`. -/
def Db.job (db : Db) (tenantId jobId : UUID) : Option BackgroundJob :=
  (db .backgroundJobs).find? fun job => job.tenantId = tenantId ∧ job.id = jobId

namespace BackgroundJobService

variable (P : Platform) (S : BackgroundJobService)

def executeJobTask : String := "ticketing.execute_background_job"

/-- `_request_hash`: `json.dumps(…, sort_keys=True)`, hashed. -/
def requestHash (kind : BackgroundJobKind) (payload : JsonObject) : String :=
  P.sha256Hex (Json.dumps true (.obj [("kind", .str kind.value),
    ("payload", JsonObject.toJson (payload.insertionSort fun a b => a.1 ≤ b.1))])).toUTF8

/-- `_replay`. -/
def replay (job : BackgroundJob) (requestHash : String) : Service BackgroundJobSubmission :=
  if job.requestHash ≠ requestHash then throw .backgroundJobIdempotencyConflict
  else pure ⟨job, true⟩

/-- The job `_submit` adds. -/
def newJob (context : CurrentTenant) (kind : BackgroundJobKind) (payload : JsonObject)
    (idempotencyKey requestHash : String) (id : UUID) : BackgroundJob where
  id
  tenantId := context.tenant.id
  requestedByMembershipId := context.membership.id
  kind
  status := .pending
  idempotencyKey
  requestHash
  payload
  result := none
  attemptCount := 0
  maxAttempts := S.settings.backgroundJobMaxAttempts
  lastErrorCode := none
  lastErrorMessage := none
  startedAt := none
  leaseExpiresAt := none
  completedAt := none
  createdAt := 0
  updatedAt := 0

/-- The outbox message `_submit` adds. -/
def newOutboxMessage (context : CurrentTenant) (jobId id : UUID) (correlationId : String) :
    OutboxMessage where
  id
  tenantId := context.tenant.id
  jobId
  status := .pending
  taskName := executeJobTask
  payload := [("job_id", .str jobId.str), ("correlation_id", .str correlationId)]
  publishAttemptCount := 0
  availableAt := 0
  publishedAt := none
  lastError := none
  createdAt := 0
  updatedAt := 0

/-- `get_or_create_correlation_id`. -/
def getOrCreateCorrelationId : Service String :=
  match S.correlationId with
  | some correlationId => pure correlationId
  | none => do pure (← Service.uuid4).hex

/-- After a uniqueness race `_submit` reads the winner's job. -/
def replayRaced (context : CurrentTenant) (idempotencyKey requestHash : String) :
    Service BackgroundJobSubmission := do
  Service.rollback
  match ← Service.select fun db =>
      db.jobByKey context.tenant.id context.membership.id idempotencyKey with
  | none => throw .integrityError
  | some raced => replay raced requestHash

/-- `_submit`. -/
def submit (context : CurrentTenant) (kind : BackgroundJobKind) (payload : JsonObject)
    (idempotencyKey : String) : Service BackgroundJobSubmission := do
  let hash := requestHash P kind payload
  match ← Service.select fun db =>
      db.jobByKey context.tenant.id context.membership.id idempotencyKey with
  | some existing => replay existing hash
  | none =>
    let jobId ← Service.uuid4
    let messageId ← Service.uuid4
    let correlationId ← S.getOrCreateCorrelationId
    Service.exceptIntegrityError
      (do
        Service.insert .backgroundJobs
          (S.newJob context kind payload idempotencyKey hash jobId)
        Service.insert .outboxMessages (newOutboxMessage context jobId messageId correlationId)
        Service.commit
        pure none)
      (do pure (some (← replayRaced context idempotencyKey hash))) >>= fun
    | some replayed => pure replayed
    | none => do
      let job ← Service.refresh .backgroundJobs jobId
      pure ⟨job, false⟩

/-- The payload of a notification about a ticket. -/
def emailPayload (ticket : Ticket) (customer : Customer) : JsonObject :=
  [("ticket_id", .str ticket.id.str), ("recipient_email", .str customer.email),
    ("subject", .str ("Ticket update: " ++ ticket.subject)),
    ("body", .str ("Your ticket '" ++ ticket.subject ++ "' is currently " ++
      Lib.Text.replaceChar '_' ' ' ticket.status.value ++ "."))]

def submitEmailNotification (context : CurrentTenant) (ticketId : UUID) (idempotencyKey : String) :
    Service BackgroundJobSubmission := do
  let ticket ← TicketService.get S.rbac context ticketId
  match ticket.customerId with
  | none => throw .ticketNotificationRecipientNotFound
  | some customerId =>
    match ← Service.select fun db => db.customer context.tenant.id customerId with
    | none => throw .ticketNotificationRecipientNotFound
    | some customer =>
      if !customer.isActive then throw .ticketNotificationRecipientNotFound
      S.submit P context .emailNotification (emailPayload ticket customer) idempotencyKey

/-- The payload of an export. -/
def exportPayload (context : CurrentTenant) (status : Option TicketStatus)
    (priority : Option TicketPriority) (canReadAll : Bool) : JsonObject :=
  [("status", (status.map fun s => Scalar.str s.value).getD .null),
    ("priority", (priority.map fun p => Scalar.str p.value).getD .null),
    ("creator_membership_id", if canReadAll then .null else .str context.membership.id.str)]

def submitTicketExport (context : CurrentTenant) (status : Option TicketStatus)
    (priority : Option TicketPriority) (idempotencyKey : String) :
    Service BackgroundJobSubmission := do
  let canReadAll ← S.rbac.hasPermission context.membership .ticketsReadAll
  S.submit P context .ticketExport (exportPayload context status priority canReadAll) idempotencyKey

def get (context : CurrentTenant) (jobId : UUID) : Service BackgroundJob := do
  match ← Service.select fun db => db.job context.tenant.id jobId with
  | none => throw .backgroundJobNotFound
  | some job =>
    if job.requestedByMembershipId ≠ context.membership.id then throw .backgroundJobNotFound
    pure job

/-- `(root / object_key).resolve()`. -/
def exportCandidate (root : Lib.Path) (objectKey : String) : Lib.Path :=
  let path := (LocalAttachmentStorage.segments objectKey).reverse
  -- joined to a directory, an absolute path stays as it is
  resolve (if objectKey.toList.head? = some '/' then path else path ++ root)

/-- The object key a file under the root has been written with. -/
def exportKeyAt (root candidate : Lib.Path) : String :=
  String.intercalate "/" (candidate.take (candidate.length - root.length)).reverse

/-- `export_result_path`, for the resolved `export_storage_path`. -/
def exportResultPath (root : Lib.Path) (context : CurrentTenant) (jobId : UUID) :
    Service Lib.Path := do
  let job ← get context jobId
  if job.kind ≠ .ticketExport ∨ job.status ≠ .succeeded then throw .backgroundJobResultNotReady
  match job.result.map (JsonObject.get · "object_key") with
  | some (.str objectKey) =>
    let candidate := exportCandidate root objectKey
    if ¬ root.isSuffixOf candidate ∨ root = candidate then throw .backgroundJobResultNotReady
    if !(← Service.perform (Op.isExport (exportKeyAt root candidate))) then
      throw .backgroundJobResultNotReady
    pure candidate
  | _ => throw .backgroundJobResultNotReady

theorem quiet_replay {ρ : Exn → Prop} (hρ : ρ .backgroundJobIdempotencyConflict)
    (job : BackgroundJob) (hash : String) : Service.Quiet ρ (replay job hash) := by
  unfold replay
  split
  · exact hρ
  · trivial

theorem quiet_getOrCreateCorrelationId {ρ : Exn → Prop} :
    Service.Quiet ρ S.getOrCreateCorrelationId := by
  unfold getOrCreateCorrelationId
  split
  · trivial
  · exact .bind Service.quiet_uuid4 fun _ => trivial

end BackgroundJobService

end Ticketing
