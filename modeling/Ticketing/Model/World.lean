import Ticketing.Model.Db
import Ticketing.Lib.Prog

/-!
# The world the services act on

`World` is everything outside a request: the database, the permission cache, the attachment store,
the export directory, the mail threads, the task broker and the clock. `Op` lists what a service
can do to it and `opStep` says what each operation does, as a function of the choices the outside
makes (`Choice`): whether it fails, what `uuid4` and `randint` draw. `none` is an operation that
waits.

* `Exn` are the exceptions of the program and of what it calls. `Exn.isOutside` are those that
  come from outside the program: a failed or cancelled statement, a failing file or mail server.
* `Service` is a program over these operations. A call runs with a database session of its own,
  numbered like its thread.
* A session is made of explicit statements: an object the service changes is written by
  `Service.update`, at the commit that flushes it, from the object as it was loaded to the object
  as it then is. The sessions of `db/session.py` have `autoflush=False`, so no query flushes
  anything, and `expire_on_commit=False`, so an object stays as it is after a commit.
* `Platform` is what the standard library computes and no proof looks into: the text and the class
  name of an exception, lower case (in Python and in SQL), and SHA-256.
* `Body` says how a task came to run, and when.

Assumed: an operation of the cache or of the file system is atomic, and one that raises has either
been done or not. A mail thread goes on after the call that waits for it has been cancelled.
-/

namespace Ticketing

open Lib (Prog Store Failure Fault)

inductive TicketAction
  | claim
  | transfer
  | resolve
  | reopen
  | close
  deriving DecidableEq, Repr

/-- The exceptions of the program and of what it calls. -/
inductive Exn
  -- services/auth.py
  | emailAlreadyRegistered
  | invalidCredentials
  | invalidToken
  | invalidCurrentPassword
  | passwordUnchanged
  -- services/rbac.py
  | roleNotFound
  | ownerAdminRoleRequired
  -- services/tenant.py
  | tenantNotFound
  | tenantSlugConflict
  | invitedUserNotFound
  | invitationConflict
  | invitationNotPending
  | membershipNotActive
  | ownerCannotLeave
  -- services/customer.py
  | customerNotFound
  | customerEmailConflict
  -- services/ticket.py, services/ticket_cursor.py
  | ticketNotFound
  | ticketAssigneeNotFound
  | ticketActionForbidden
  | ticketAssignmentConflict
  | ticketTransitionConflict (action : TicketAction) (currentStatus : TicketStatus)
  | idempotencyKeyConflict
  | invalidTicketCursor
  -- services/ticket_collaboration.py, storage/local.py
  | internalCommentForbidden
  | attachmentNotFound
  | attachmentFilenameInvalid
  | attachmentContentTypeInvalid
  | attachmentEmpty
  | attachmentTooLarge
  | invalidObjectKey
  -- services/background_job.py
  | backgroundJobNotFound
  | backgroundJobIdempotencyConflict
  | ticketNotificationRecipientNotFound
  | backgroundJobResultNotReady
  -- tasks/execution.py
  | jobLeaseActive (retryAfterSeconds : Nat)
  | retryableJob (retryAfterSeconds : Nat)
  | permanentJob (code message : String)
  -- SQLAlchemy
  | integrityError
  | databaseError
  | pendingRollback
  | invalidRequest
  -- Python, and what else a call may raise
  | assertionError
  | keyError
  | typeError
  | attributeError
  | runtimeError (message : String)
  | valueError
  | fileExists
  | other (message : String)
  | cancelled
  deriving DecidableEq, Repr

/-- `except Exception` catches it: everything but the cancellation of a task. -/
def Exn.isException : Exn → Bool
  | cancelled => false
  | _ => true

/-- The subclasses of `TicketServiceError`. -/
def Exn.isTicketServiceError : Exn → Bool
  | ticketNotFound | ticketAssigneeNotFound | ticketActionForbidden | ticketAssignmentConflict
  | ticketTransitionConflict .. | idempotencyKeyConflict => true
  | _ => false

/-- What an operation raises on its own account: refusals of the database and of other services,
and the cancellation of the task. -/
def Exn.isOutside : Exn → Bool
  | databaseError | pendingRollback | fileExists | other _ | cancelled => true
  | _ => false

def Exn.ofFailure : Failure → Exn
  | .integrity => integrityError
  | .database => databaseError
  | .pendingRollback => pendingRollback
  | .cancelled => cancelled

abbrev Bytes := List UInt8

/-- A cached text and the time it expires. -/
structure CacheEntry where
  value : String
  expiresAt : Time
  deriving DecidableEq, Repr

/-- The message of `tasks/email.py`. -/
structure EmailMessage where
  recipient : String
  subject : String
  body : String
  messageId : String
  deriving DecidableEq, Repr

inductive SendStatus
  | running
  | returned
  | raised (message : String)
  deriving DecidableEq, Repr

/-- One call of `EmailSender.send`: it runs in a thread of its own, which nothing cancels. -/
structure Send where
  worker : Nat
  message : EmailMessage
  status : SendStatus
  deriving DecidableEq, Repr

/-- A task message of the broker. -/
structure TaskMessage where
  taskId : String
  taskName : String
  payload : JsonObject
  deriving DecidableEq, Repr

/-- How a call came to run. -/
structure Body where
  /-- The task message it was started for. -/
  message : Option TaskMessage
  started : Time

/-- An object of the attachment store, and who wrote it. -/
structure StoredObject where
  key : String
  writer : Nat
  content : Bytes
  deriving DecidableEq, Repr

/-- The rows of an exported file, cell by cell. -/
abbrev ExportFile := List (List String)

structure World where
  store : Store Db Write Key
  clock : Time
  cache : String → Option CacheEntry
  /-- The attachment store. -/
  objects : List StoredObject
  /-- The export directory, by object key. -/
  exports : String → Option ExportFile
  sends : List Send
  /-- Task messages waiting for a worker. -/
  queue : List TaskMessage
  /-- The bodies of calls that have been started, by thread. -/
  bodies : Nat → Option Body

/-- What a service can do. -/
inductive Op : Type 1
  | select {β : Type} (q : Db → β)
  | selectForUpdate (t : Table) (q : Db → Option t.Row)
  /-- `FOR UPDATE SKIP LOCKED`; the query is given a test for the rows it may lock. -/
  | selectSkipLocked (t : Table) (q : (t.Row → Bool) → Db → List t.Row)
  | write (w : Write)
  | commit
  | rollback
  | uuid4
  | now
  /-- `random.randint(0, hi)`. -/
  | randint (hi : Nat)
  | cacheGet (key : String)
  | cacheSet (key value : String) (ttlSeconds : Nat)
  | cacheDelete (key : String)
  /-- `open(path, "xb")`, its parent directories made. -/
  | createObject (key : String)
  | appendObject (key : String) (chunk : Bytes)
  /-- Flush or close the object being written, on the way or in the handler of an exception. -/
  | closeObject (key : String) (handling : Bool)
  | unlinkObject (key : String)
  | isObject (key : String)
  | readObject (key : String)
  /-- Write a temporary file and `os.replace` it to the path. -/
  | replaceExport (key : String) (content : ExportFile)
  | isExport (key : String)
  | startSend (message : EmailMessage)
  | awaitSend
  | publish (message : TaskMessage)

abbrev Op.Res : Op → Type
  | @select β _ => β
  | selectForUpdate t _ => Option t.Row
  | selectSkipLocked t _ => List t.Row
  | write _ => Unit
  | commit => Unit
  | rollback => Unit
  | uuid4 => UUID
  | now => Time
  | randint _ => Nat
  | cacheGet _ => Option String
  | cacheSet .. => Unit
  | cacheDelete _ => Unit
  | createObject _ => Unit
  | appendObject .. => Unit
  | closeObject .. => Unit
  | unlinkObject _ => Unit
  | isObject _ => Bool
  | readObject _ => Option Bytes
  | replaceExport .. => Unit
  | isExport _ => Bool
  | startSend _ => Unit
  | awaitSend => Unit
  | publish _ => Unit

/-- The operations that neither change rows nor end a transaction. -/
def Op.Quiet : Op → Prop
  | write _ | commit | rollback => False
  | _ => True

/-- The operations that read rows, use the cache or draw. -/
def Op.Reading : Op → Prop
  | select _ | selectForUpdate .. | selectSkipLocked .. | uuid4 | now | randint _ | cacheGet _
  | cacheSet .. | cacheDelete _ => True
  | _ => False

theorem Op.Reading.quiet {o : Op} (h : o.Reading) : o.Quiet := by
  cases o <;> trivial

/-- The operations of a straight line that only writes `ψ`. -/
def Op.Writing (ψ : Write → Prop) : Op → Prop
  | write w => ψ w
  | rollback => False
  | _ => True

/-- The operations of a program that writes only `ψ`, and may roll back. -/
def Op.Writes (ψ : Write → Prop) : Op → Prop
  | write w => ψ w
  | _ => True

/-- A program of the services. -/
abbrev Service (α : Type) := Prog Op.Res Exn α

/-- What the services take from their platform, as it is. -/
structure Platform where
  /-- `hashlib.sha256(data).hexdigest()`. -/
  sha256Hex : ByteArray → String
  /-- `str.lower()`. -/
  lower : String → String
  /-- `lower(…)` under the database's locale. -/
  sqlLower : String → String
  /-- `str(exception)`. -/
  message : Exn → String
  /-- `type(exception).__name__`. -/
  className : Exn → String

/-- A platform of ASCII texts without upper case letters, whose hashes are all equal. -/
def Platform.plain : Platform := ⟨fun _ => "", id, id, fun _ => "", fun _ => "Exception"⟩

/-- What the outside decides about one operation. -/
structure Choice where
  fault : Option Fault := none
  uuid : UUID := 0
  random : Nat := 0
  /-- The text of the exception a mail sender or a publisher raises, if it raises. -/
  raises : Option String := none
  /-- A publisher that raises has handed the message over all the same. -/
  accepted : Bool := false
  deriving DecidableEq, Repr

namespace World

def setStore (W : World) (s : Store Db Write Key) : World := { W with store := s }

/-- What a statement did, as a step of the world. -/
def ofStore (W : World) {β : Type}
    (r : Option (Except Failure β × Store Db Write Key)) : Option (Except Exn β × World) :=
  r.map fun (a, s) => (a.mapError Exn.ofFailure, W.setStore s)

/-- An `await` outside the database: it may be cancelled before it takes effect, or after. -/
def awaiting (W : World) (fault : Option Fault) {β : Type} (a : Except Exn β) (W' : World) :
    Option (Except Exn β × World) :=
  match fault with
  | some .cancelled => some (.error .cancelled, W)
  | some .cancelledAfter => some (.error .cancelled, W')
  | _ => some (a, W')

/-- A Redis command: an error of the client is swallowed (`degraded` is then the answer). -/
def redis (W : World) (fault : Option Fault) {β : Type} (degraded a : β) (W' : World) :
    Option (Except Exn β × World) :=
  match fault with
  | none | some .cancelled | some .cancelledAfter => W.awaiting fault (.ok a) W'
  | some _ => some (.ok degraded, W)

/-- The entry Redis still holds under `key`. -/
def cached (W : World) (key : String) : Option String :=
  match W.cache key with
  | some e => if W.clock < e.expiresAt then some e.value else none
  | none => none

/-- A file operation: the system may refuse it. -/
def file (W : World) (fault : Option Fault) {β : Type} (a : Except Exn β) (W' : World) :
    Option (Except Exn β × World) :=
  match fault with
  | none | some .cancelled | some .cancelledAfter => W.awaiting fault a W'
  | some _ => some (.error (.other "OSError"), W)

/-- The object stored under `key`. -/
def object (W : World) (key : String) : Option StoredObject := W.objects.find? (·.key = key)

/-- Worker `i`'s running mail thread ends. -/
def endSend (W : World) (i : Nat) (status : SendStatus) : World :=
  { W with sends := W.sends.map fun s =>
      if s.worker = i ∧ s.status = .running then { s with status } else s }

/-- The mail thread worker `i` started last. -/
def sendOf (W : World) (i : Nat) : Option Send := W.sends.reverse.find? (·.worker = i)

end World

/-- **One operation of thread `i`.** -/
def opStep (i : Nat) (c : Choice) : (o : Op) → World → Option (Except Exn o.Res × World)
  | .select q, W => W.ofStore (W.store.select schema i W.clock c.fault q)
  | .selectForUpdate t q, W =>
    W.ofStore (W.store.lockRow schema i W.clock c.fault q fun r => .row t (t.id r))
  | .selectSkipLocked t q, W =>
    W.ofStore (W.store.lockRows schema i W.clock c.fault q fun r => .row t (t.id r))
  | .write w, W => W.ofStore (W.store.write schema i W.clock c.fault w)
  | .commit, W => W.ofStore (W.store.commit schema i W.clock c.fault)
  | .rollback, W => W.awaiting c.fault (.ok ()) (W.setStore (W.store.rollback i))
  | .uuid4, W => some (.ok c.uuid, W)
  | .now, W => some (.ok W.clock, W)
  | .randint hi, W => some (.ok (c.random % (hi + 1)), W)
  | .cacheGet key, W => W.redis c.fault none (W.cached key) W
  | .cacheSet key value ttl, W => W.redis c.fault () ()
      { W with cache := Function.update W.cache key (some ⟨value, W.clock + seconds ttl⟩) }
  | .cacheDelete key, W => W.redis c.fault () ()
      { W with cache := Function.update W.cache key none }
  | .createObject key, W =>
    match W.object key with
    | none => W.file c.fault (.ok ()) { W with objects := W.objects ++ [⟨key, i, []⟩] }
    | some _ => W.file c.fault (.error .fileExists) W
  | .appendObject key chunk, W => W.file c.fault (.ok ())
      { W with objects := W.objects.map fun x =>
          if x.key = key then { x with content := x.content ++ chunk } else x }
  | .closeObject .., W => W.file c.fault (.ok ()) W
  | .unlinkObject key, W => W.file c.fault (.ok ())
      { W with objects := W.objects.filter (·.key ≠ key) }
  | .isObject key, W => W.file c.fault (.ok (W.object key).isSome) W
  | .readObject key, W => W.file c.fault (.ok ((W.object key).map (·.content))) W
  | .replaceExport key content, W => W.file c.fault (.ok ())
      { W with exports := Function.update W.exports key (some content) }
  | .isExport key, W => some (.ok (W.exports key).isSome, W)
  | .startSend message, W => some (.ok (), { W with sends := W.sends ++ [⟨i, message, .running⟩] })
  | .awaitSend, W =>
    if c.fault = some .cancelled then some (.error .cancelled, W)
    else match W.sendOf i with
      | none => none
      | some s =>
        match s.status, c.raises with
        | .returned, _ => some (.ok (), W)
        | .raised message, _ => some (.error (.other message), W)
        | .running, none => some (.ok (), W.endSend i .returned)
        | .running, some message => some (.error (.other message), W.endSend i (.raised message))
  | .publish message, W =>
    let W' := { W with queue := W.queue ++ [message] }
    match c.raises with
    | none => W.awaiting c.fault (.ok ()) W'
    | some text => W.awaiting c.fault (.error (.other text)) (if c.accepted then W' else W)

namespace Service

export Lib.Prog (perform)

/-- One row of a table, by id. -/
def get (t : Table) (id : UUID) : Service (Option t.Row) :=
  perform (Op.select fun db => db.get t id)

/-- A query. -/
def select {β : Type} (q : Db → β) : Service β := perform (Op.select q)

def selectForUpdate (t : Table) (q : Db → Option t.Row) : Service (Option t.Row) :=
  perform (Op.selectForUpdate t q)

/-- The insert of one object at a flush. -/
def insert (t : Table) (row : t.Row) : Service Unit := perform (Op.write (.insert t row))

/-- What a flush sends for an object loaded as `loaded`: nothing if no column changed. -/
def update (t : Table) (loaded current : t.Row) : Service Unit :=
  if loaded = current then pure () else perform (Op.write (.update t loaded current))

/-- `DELETE … WHERE`: the rows found when the statement starts, as far as they match once it has
their locks. -/
def delete (t : Table) (p : t.Row → Bool) : Service Unit := do
  let ids ← select fun db => ((db t).filter p).map t.id
  perform (Op.write (.delete t p ids))

def commit : Service Unit := perform Op.commit

def rollback : Service Unit := perform Op.rollback

def uuid4 : Service UUID := perform Op.uuid4

def now : Service Time := perform Op.now

/-- `session.refresh(row)`. -/
def refresh (t : Table) (id : UUID) : Service t.Row := do
  match ← get t id with
  | some row => pure row
  | none => throw .invalidRequest

/-- `p` only reads, uses the cache and draws, handles no exception, and raises by itself only
exceptions of `ρ`. -/
abbrev Quiet (ρ : Exn → Prop) {α : Type} (p : Service α) : Prop := p.Straight Op.Reading ρ

theorem quiet_select {ρ : Exn → Prop} {β : Type} (q : Db → β) : Quiet ρ (select q) :=
  .perform trivial

theorem quiet_uuid4 {ρ : Exn → Prop} : Quiet ρ uuid4 := .perform trivial

theorem quiet_refresh {ρ : Exn → Prop} (t : Table) (id : UUID) (h : ρ .invalidRequest) :
    Quiet ρ (refresh t id) := by
  refine .bind (.perform trivial) fun found => ?_
  cases found with
  | none => exact h
  | some row => trivial

/-- `try body except IntegrityError: handler`. -/
def exceptIntegrityError {α : Type} (body handler : Service α) : Service α :=
  tryCatch body fun e => if e = .integrityError then handler else throw e

/-- `if field in changes.fields: assert value is not None; …`, on the object `x`. -/
def changeField {α β : Type} (fields : List String) (field : String) (value : Option α) (x : β)
    (change : α → Service β) : Service β :=
  if field ∈ fields then
    match value with
    | none => throw .assertionError
    | some a => change a
  else pure x

theorem changeField_cases {α β : Type} (fields : List String) (field : String) (value : Option α)
    (x : β) (change : α → Service β) :
    changeField fields field value x change = pure x ∨
      changeField fields field value x change = throw .assertionError ∨
      ∃ a, value = some a ∧ changeField fields field value x change = change a := by
  unfold changeField
  split
  · cases value with
    | none => exact .inr (.inl rfl)
    | some a => exact .inr (.inr ⟨a, rfl, rfl⟩)
  · exact .inl rfl

theorem quiet_changeField {ρ : Exn → Prop} (hρ : ρ .assertionError) {α β : Type}
    {fields : List String} {field : String} {value : Option α} {x : β} {change : α → Service β}
    (h : ∀ a, Quiet ρ (change a)) : Quiet ρ (changeField fields field value x change) := by
  rcases changeField_cases fields field value x change with he | he | ⟨a, -, he⟩ <;> rw [he]
  · trivial
  · exact hρ
  · exact h a

end Service

end Ticketing
