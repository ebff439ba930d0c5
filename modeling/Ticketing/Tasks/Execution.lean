import Ticketing.Core.Config
import Ticketing.Lib.Datetime
import Ticketing.Model.World
import Mathlib.Data.List.Sort

/-!
# `tasks/execution.py`

`BackgroundJobExecutor.execute`: the claim of a job under its row lock, the work of its kind, and
the mark of how it ended.

* `claim` is `_claim`: it leaves a terminal job alone, raises for one whose lease has not expired,
  and fails one whose attempts are used up. `claimed`, `succeeded`, `failed`, `retrying` and the
  like say what becomes of the job's object; `markSucceeded`, `markFailed` and
  `markRetryableFailure` write it.
* `executeEmail` is `_execute_email`: the delivery is committed as `SENDING` before the mail is
  sent and with its outcome after it (`deliver`). `send` starts a mail thread and waits for it.
* `executeExport` is `_execute_export`; a file is written under a drawn name and put in its place
  at once (`writeExport`).
* `handleFailure` are the handlers of `execute`.

An object of the session is a value the program carries along, and a flush writes what changed
since the object was last flushed. Nothing expires an object, so what a later select of the
session returns for a row it already holds is that value; only the columns an added object was
added without, `last_error` and `delivered_at`, are taken from the row (`reload`).

Left out: the text of the log lines, and the CSV text that is made of the cells of an
`ExportFile`.
-/

namespace Ticketing

open Lib.Text (strip take)
open Lib.Datetime (isoformat)
open Service (perform)

namespace BackgroundJobStatus

/-- The states a claim leaves alone. -/
def terminal : BackgroundJobStatus → Bool
  | succeeded | failed => true
  | _ => false

end BackgroundJobStatus

/-- A worker holds the job: it runs, under a lease that has not expired. -/
def BackgroundJob.leased (job : BackgroundJob) (now : Time) : Option Time :=
  if job.status = .running then job.leaseExpiresAt.filter (now < ·) else none

/-- `_safe_error`, also of the outbox. -/
def safeError (P : Platform) (error : Exn) : String :=
  let message := strip (P.message error)
  take 2000 (if message.isEmpty then P.className error else message)

/-- `_retry_delay`, also of the outbox. -/
def retryDelay (C : Settings) (attemptCount : Nat) : Nat :=
  min (C.backgroundJobRetryBaseSeconds * 2 ^ (attemptCount - 1)) C.backgroundJobRetryMaxSeconds

namespace BackgroundJobExecutor

variable (P : Platform) (C : Settings)

/-! ## What happens to a job object -/

/-- `_claim` of a job whose attempts are used up. -/
def exhausted (job : BackgroundJob) (now : Time) : BackgroundJob :=
  { job with
    status := .failed
    lastErrorCode := some "background_job_attempts_exhausted"
    lastErrorMessage := some "Background job attempts were exhausted"
    completedAt := some now
    leaseExpiresAt := none }

/-- `_claim` of a job. -/
def claimed (job : BackgroundJob) (now : Time) : BackgroundJob :=
  { job with
    status := .running
    attemptCount := job.attemptCount + 1
    startedAt := some (job.startedAt.getD now)
    leaseExpiresAt := some (now + seconds C.backgroundJobLeaseSeconds)
    lastErrorCode := none
    lastErrorMessage := none }

def succeeded (job : BackgroundJob) (result : JsonObject) (now : Time) : BackgroundJob :=
  { job with
    status := .succeeded
    result := some result
    lastErrorCode := none
    lastErrorMessage := none
    completedAt := some now
    leaseExpiresAt := none }

def failed (job : BackgroundJob) (code message : String) (now : Time) : BackgroundJob :=
  { job with
    status := .failed
    lastErrorCode := some code
    lastErrorMessage := some (take 2000 message)
    completedAt := some now
    leaseExpiresAt := none }

/-- The error `_mark_retryable_failure` writes down. -/
def retryMessage (message : String) : String :=
  if (take 2000 message).isEmpty then "Background job execution failed" else take 2000 message

/-- `_mark_retryable_failure` of a job with attempts left. -/
def retrying (job : BackgroundJob) (code message : String) : BackgroundJob :=
  { job with
    status := .retrying
    lastErrorCode := some code
    lastErrorMessage := some (retryMessage message)
    leaseExpiresAt := none }

/-- `_mark_retryable_failure` of a job without. -/
def retriesExhausted (job : BackgroundJob) (code message : String) (now : Time) : BackgroundJob :=
  { job with
    status := .failed
    lastErrorCode := some code
    lastErrorMessage := some (retryMessage message)
    completedAt := some now
    leaseExpiresAt := none }

/-! ## Claiming and marking -/

/-- `_claim`. -/
def claim (jobId : UUID) : Service (Option BackgroundJob) := do
  let now ← Service.now
  match ← Service.selectForUpdate .backgroundJobs fun db => db.get .backgroundJobs jobId with
  | none =>
    Service.rollback
    pure none
  | some job =>
    if job.status.terminal then
      Service.rollback
      pure none
    else
      match job.leased now with
      | some expiry =>
        Service.rollback
        throw (.jobLeaseActive (max 1 ((expiry - now) / 1000000 + 1)))
      | none =>
        if job.maxAttempts ≤ job.attemptCount then
          Service.update .backgroundJobs job (exhausted job now)
          Service.commit
          pure none
        else
          Service.update .backgroundJobs job (claimed C job now)
          Service.commit
          pure (some (claimed C job now))

/-- `_mark_succeeded`; the flush takes the delivery with it where it changed, the job first. -/
def markSucceeded (job : BackgroundJob) (result : JsonObject)
    (delivery : Option (NotificationDelivery × NotificationDelivery)) : Service Unit := do
  let now ← Service.now
  Service.update .backgroundJobs job (succeeded job result now)
  match delivery with
  | none => pure ()
  | some (loaded, current) => Service.update .notificationDeliveries loaded current
  Service.commit

/-- `_mark_failed`. -/
def markFailed (job : BackgroundJob) (code message : String) : Service Unit := do
  let now ← Service.now
  Service.update .backgroundJobs job (failed job code message now)
  Service.commit

/-- `_mark_retryable_failure`. -/
def markRetryableFailure (job : BackgroundJob) (code message : String) : Service Bool := do
  if job.maxAttempts ≤ job.attemptCount then
    let now ← Service.now
    Service.update .backgroundJobs job (retriesExhausted job code message now)
    Service.commit
    pure false
  else
    Service.update .backgroundJobs job (retrying job code message)
    Service.commit
    pure true

/-! ## Email notifications -/

/-- `_payload_string`. -/
def payloadString (job : BackgroundJob) (key : String) : Service String :=
  match job.payload.get key with
  | .str value =>
    if value.isEmpty then
      throw (.permanentJob "invalid_job_payload" s!"Missing job payload field: {key}")
    else pure value
  | _ => throw (.permanentJob "invalid_job_payload" s!"Missing job payload field: {key}")

def messageId (jobId : UUID) : String := "<" ++ jobId.str ++ "@ticketing.local>"

/-- What `get_notification_delivery(…, for_update=True)` selects. -/
def findDelivery (jobId : UUID) (db : Db) : Option NotificationDelivery :=
  (db .notificationDeliveries).find? (·.jobId = jobId)

/-- What a select of row `row` returns to a session that holds `delivery`. An object the session has
`added` lacks the columns it was added without, and takes these from the row. -/
def reload (added : Bool) (delivery row : NotificationDelivery) : NotificationDelivery :=
  if row.id = delivery.id then
    if added then { delivery with lastError := row.lastError, deliveredAt := row.deliveredAt }
    else delivery
  else row

/-- A first delivery. -/
def newDelivery (job : BackgroundJob) (recipient : String) (id : UUID) : NotificationDelivery where
  id
  tenantId := job.tenantId
  jobId := job.id
  status := .sending
  recipientEmail := recipient
  messageId := messageId job.id
  attemptCount := 1
  lastError := none
  deliveredAt := none
  createdAt := 0
  updatedAt := 0

/-- A delivery that is tried again. -/
def resent (delivery : NotificationDelivery) : NotificationDelivery :=
  { delivery with
    status := .sending
    attemptCount := delivery.attemptCount + 1
    lastError := none }

def ambiguous (delivery : NotificationDelivery) : NotificationDelivery :=
  { delivery with
    status := .ambiguousFailure
    lastError := some "Previous worker stopped with an unknown delivery outcome" }

def undelivered (delivery : NotificationDelivery) (error : Exn) : NotificationDelivery :=
  { delivery with
    status := .retryableFailure
    lastError := some (safeError P error) }

def delivered (delivery : NotificationDelivery) (now : Time) : NotificationDelivery :=
  { delivery with
    status := .sent
    deliveredAt := some now
    lastError := none }

/-- The result of a notification that was sent. -/
def sentResult : JsonObject :=
  [("delivery", .str "sent"), ("backend", .str C.emailBackend.name)]

/-- `asyncio.to_thread(self._email_sender.send, message)`. -/
def send (message : EmailMessage) : Service Unit := do
  perform (Op.startSend message)
  perform Op.awaitSend

/-- What follows the commit of the state `SENDING`. -/
def deliver (job : BackgroundJob) (added : Bool) (delivery : NotificationDelivery)
    (message : EmailMessage) : Service Unit := do
  tryCatch (send message) fun e => do
    if e.isException then
      match ← Service.selectForUpdate .notificationDeliveries (findDelivery job.id) with
      | none => pure ()
      | some row =>
        let held := reload added delivery row
        Service.update .notificationDeliveries held (undelivered P held e)
      Service.commit
    throw e
  match ← Service.selectForUpdate .notificationDeliveries (findDelivery job.id) with
  | none =>
    throw (.permanentJob "email_delivery_record_missing"
      "Email delivery record disappeared during execution")
  | some row =>
    let held := reload added delivery row
    let now ← Service.now
    markSucceeded job (sentResult C) (some (held, delivered held now))

/-- `_execute_email`. -/
def executeEmail (job : BackgroundJob) : Service Unit := do
  let recipient ← payloadString job "recipient_email"
  let subject ← payloadString job "subject"
  let body ← payloadString job "body"
  let message : EmailMessage := ⟨recipient, subject, body, messageId job.id⟩
  match ← Service.selectForUpdate .notificationDeliveries (findDelivery job.id) with
  | none =>
    let id ← Service.uuid4
    Service.insert .notificationDeliveries (newDelivery job recipient id)
    Service.commit
    deliver P C job true (newDelivery job recipient id) message
  | some delivery =>
    match delivery.status with
    | .sent => markSucceeded job (sentResult C) none
    | .sending | .ambiguousFailure =>
      Service.update .notificationDeliveries delivery (ambiguous delivery)
      Service.commit
      throw (.permanentJob "email_delivery_ambiguous"
        "Email delivery outcome is ambiguous; automatic resend was suppressed")
    | .retryableFailure =>
      Service.update .notificationDeliveries delivery (resent delivery)
      Service.commit
      deliver P C job false (resent delivery) message

/-! ## Ticket exports -/

/-- An optional filter of an export's payload. -/
def exportFilter {α : Type} (value : Scalar) (message : String) (parse : String → Option α) :
    Service (Option α) :=
  match value with
  | .null => pure none
  | .str text =>
    match parse text with
    | some a => pure (some a)
    | none => throw .valueError
  | .int _ => throw (.permanentJob "invalid_job_payload" message)

/-- The tickets of an export, one more than it may have. -/
def exportedTickets (job : BackgroundJob) (status : Option TicketStatus)
    (priority : Option TicketPriority) (creator : Option UUID) (db : Db) : List Ticket :=
  (((db .tickets).filter fun t : Ticket => t.tenantId = job.tenantId ∧ status.all (t.status = ·) ∧
    priority.all (t.priority = ·) ∧ creator.all (t.createdByMembershipId = ·)).insertionSort
      fun a b => Db.createdOrder (a.createdAt, a.id) (b.createdAt, b.id)).take (C.exportMaxRows + 1)

/-- `_safe_csv_cell`. -/
def safeCsvCell (value : String) : String :=
  if value.toList.head?.any (· ∈ "=+-@".toList) then "'" ++ value else value

def exportHeader : List String :=
  ["id", "customer_id", "created_by_membership_id", "assignee_membership_id", "subject",
    "description", "status", "priority", "created_at", "updated_at"]

def exportRow (t : Ticket) : List String :=
  [t.id.str, (t.customerId.map UUID.str).getD "", t.createdByMembershipId.str,
    (t.assigneeMembershipId.map UUID.str).getD "", safeCsvCell t.subject,
    safeCsvCell t.description, t.status.value, t.priority.value, isoformat t.createdAt,
    isoformat t.updatedAt]

def objectKey (job : BackgroundJob) : String := job.tenantId.str ++ "/" ++ job.id.str ++ ".csv"

/-- `_write_export`; the temporary file's name is drawn. -/
def writeExport (key : String) (tickets : List Ticket) : Service Unit := do
  let _ ← Service.uuid4
  perform (Op.replaceExport key (exportHeader :: tickets.map exportRow))

/-- `_execute_export`. -/
def executeExport (job : BackgroundJob) : Service Unit := do
  let status ← exportFilter (job.payload.get "status") "Invalid export status" TicketStatus.ofValue
  let priority ← exportFilter (job.payload.get "priority") "Invalid export priority"
    TicketPriority.ofValue
  let creator ← exportFilter (job.payload.get "creator_membership_id") "Invalid export creator"
    UUID.parse
  let tickets ← Service.select (exportedTickets C job status priority creator)
  if C.exportMaxRows < tickets.length then
    throw (.permanentJob "ticket_export_too_large"
      s!"Ticket export exceeds the {C.exportMaxRows}-row limit")
  writeExport (objectKey job) tickets
  markSucceeded job [("object_key", .str (objectKey job)), ("row_count", .int tickets.length),
    ("content_type", .str "text/csv")] none

/-! ## Execution -/

/-- The body of `execute` for its job's kind. -/
def executeKind (job : BackgroundJob) : Service Unit :=
  match job.kind with
  | .emailNotification => executeEmail P C job
  | .ticketExport => executeExport C job

/-- The handlers of `execute`. -/
def handleFailure (job : BackgroundJob) (e : Exn) : Service Unit :=
  match e with
  | .permanentJob code message => markFailed job code message
  | e =>
    if e.isException then do
      if ← markRetryableFailure job "background_job_execution_failed" (P.message e) then
        throw (.retryableJob (retryDelay C job.attemptCount))
    else throw e

/-- `execute`. -/
def execute (jobId : UUID) : Service Unit := do
  match ← claim C jobId with
  | none => pure ()
  | some job => tryCatch (executeKind P C job) (handleFailure P C job)

end BackgroundJobExecutor

end Ticketing
