import Ticketing.Tasks.Execution

/-!
# `tasks/outbox.py`

`OutboxDispatcher.dispatch_once`: hands the messages of the outbox to the broker, and marks in one
transaction what has become of each.

* `Db.pendingOutbox` is `list_pending_outbox`: the oldest messages that are due, of those the
  session may lock. A message that is taken stays locked until the commit; other dispatchers skip
  it.
* `publish` is one round of the loop: a message is `published`, or `postponed` with a back-off.
* `OutboxMessage.task` is what `CeleryTaskPublisher.publish` sends: the id of the message as the
  id of the task, the task's name and its arguments.
* `flush` is the commit's flush: the rows that changed, by primary key.

A dispatcher that dies or whose commit fails has published all the same; `Concurrency.Outbox` says
what that comes to.
-/

namespace Ticketing

open Service (perform)

/-- `BackgroundJobRepository.list_pending_outbox`, of the rows a session may lock. -/
def Db.pendingOutbox (db : Db) (now : Time) (limit : Nat) (mayLock : OutboxMessage → Bool) :
    List OutboxMessage :=
  (((db .outboxMessages).filter fun m : OutboxMessage => m.status = .pending ∧
    m.availableAt ≤ now ∧ mayLock m).insertionSort
      fun a b => Db.createdOrder (a.createdAt, a.id) (b.createdAt, b.id)).take limit

theorem Db.mem_pendingOutbox {db : Db} {now : Time} {limit : Nat} {mayLock : OutboxMessage → Bool}
    {m : OutboxMessage} (h : m ∈ db.pendingOutbox now limit mayLock) :
    m ∈ db .outboxMessages ∧ m.status = .pending ∧ m.availableAt ≤ now ∧ mayLock m = true := by
  have hmem := (List.mem_insertionSort _).mp (List.mem_of_mem_take h)
  simpa using hmem

theorem Db.nodup_pendingOutbox {db : Db} (h : ((db .outboxMessages).map OutboxMessage.id).Nodup)
    (now : Time) (limit : Nat) (mayLock : OutboxMessage → Bool) :
    ((db.pendingOutbox now limit mayLock).map OutboxMessage.id).Nodup := by
  refine List.Nodup.sublist ((List.take_sublist _ _).map _) ?_
  rw [((List.perm_insertionSort _ _).map OutboxMessage.id).nodup_iff]
  exact h.sublist (List.filter_sublist.map OutboxMessage.id)

/-- What `publish` sends for a message. -/
def OutboxMessage.task (m : OutboxMessage) : TaskMessage := ⟨m.id.str, m.taskName, m.payload⟩

namespace OutboxDispatcher

variable (P : Platform) (C : Settings)

/-- A message the broker has taken. -/
def published (m : OutboxMessage) (publishedAt : Time) : OutboxMessage :=
  { m with
    publishAttemptCount := m.publishAttemptCount + 1
    status := .published
    publishedAt := some publishedAt
    lastError := none }

/-- A message that is to be tried again. -/
def postponed (m : OutboxMessage) (now : Time) (error : Exn) : OutboxMessage :=
  { m with
    publishAttemptCount := m.publishAttemptCount + 1
    lastError := some (safeError P error)
    availableAt := now + seconds (retryDelay C (m.publishAttemptCount + 1)) }

/-- One round of the loop: the message as it is then, and what is added to the count. -/
def publish (now : Time) (m : OutboxMessage) : Service (OutboxMessage × Nat) := do
  let error ← tryCatch (do perform (Op.publish m.task); pure none) fun e =>
    if e.isException then pure (some e) else throw e
  match error with
  | some e => pure (postponed P C m now e, 0)
  | none =>
    let publishedAt ← Service.now
    pure (published m publishedAt, 1)

/-- The loop: each message as it was selected and as it is then, and the count. -/
def publishAll (now : Time) :
    List OutboxMessage → Service (List (OutboxMessage × OutboxMessage) × Nat)
  | [] => pure ([], 0)
  | m :: messages => do
    let (current, n) ← publish P C now m
    let (rest, count) ← publishAll now messages
    pure ((m, current) :: rest, n + count)

/-- What the commit flushes, by primary key. -/
def flush : List (OutboxMessage × OutboxMessage) → Service Unit
  | [] => pure ()
  | (loaded, current) :: rest => do
    Service.update .outboxMessages loaded current
    flush rest

def dispatchOnce : Service Nat := do
  let now ← Service.now
  let messages ← perform (Op.selectSkipLocked .outboxMessages fun mayLock db =>
    db.pendingOutbox now C.outboxBatchSize mayLock)
  let (rows, count) ← publishAll P C now messages
  flush (rows.insertionSort fun a b => a.1.id ≤ b.1.id)
  Service.commit
  pure count

end OutboxDispatcher

end Ticketing
