import Ticketing.Concurrency.Held
import Ticketing.Concurrency.TicketCalls
import Ticketing.Services.BackgroundJob
import Ticketing.Tasks.Outbox

/-!
# The calls about the outbox

Submissions write a job and the message that is to start it; dispatchers hand the messages to the
broker (`OutboxCall`). The rest of the system may do anything but change messages, or which jobs
there are (`BesideOutbox`).

* `Submission`: the two writes of a submission. `Attempt` is what a dispatcher does with one
  message, `dispatched` the trace of a dispatcher that comes to its commit, and `Settles` what it
  commits of its attempts.
* `Opened` is what the commits make of the two tables: each job has one message, which names it
  and whose task is named after the job (`Addressed`).
* `Serving`: calls whose commits are those of submissions and of dispatchers, or none of the
  outbox's business (`Concern`). What follows holds of any such calls, so `Orphans.lean` uses it
  for executions as well.

Results:
* `safe_dispatchOnce`: what a dispatcher has done when it publishes, commits or returns.
* `committing`: what each call commits.
* `Serving.opened`: a job and its message are committed together, in every reachable pool.
* `Serving.taken`: a dispatcher finds the messages it has selected unchanged when it commits.
* `publishing`: what is published was selected, by a dispatcher that has not committed yet.
-/

namespace Ticketing

open Lib (Prog Store System)
open Traced (Ends Walks)

/-- The calls about the outbox; a request comes with the correlation id of its context. -/
inductive OutboxCall
  | submitEmailNotification (correlationId : Option String) (context : CurrentTenant)
      (ticketId : UUID) (idempotencyKey : String)
  | submitTicketExport (correlationId : Option String) (context : CurrentTenant)
      (status : Option TicketStatus) (priority : Option TicketPriority) (idempotencyKey : String)
  | dispatchOnce

namespace OutboxCall

abbrev Ret : OutboxCall → Type
  | dispatchOnce => Nat
  | _ => BackgroundJobSubmission

def prog (P : Platform) (C : Settings) (S : RBACService) : (c : OutboxCall) → Service c.Ret
  | submitEmailNotification correlationId context ticketId key =>
    BackgroundJobService.submitEmailNotification P ⟨C, S, correlationId⟩ context ticketId key
  | submitTicketExport correlationId context status priority key =>
    BackgroundJobService.submitTicketExport P ⟨C, S, correlationId⟩ context status priority key
  | dispatchOnce => OutboxDispatcher.dispatchOnce P C

end OutboxCall

def outboxCalls (P : Platform) (C : Settings) (S : RBACService) : Calls where
  Call := OutboxCall
  Ret := OutboxCall.Ret
  prog := OutboxCall.prog P C S

/-- What a message is told apart by. -/
def OutboxMessage.names (m : OutboxMessage) : UUID × UUID := (m.jobId, m.tenantId)

def BackgroundJob.name (job : BackgroundJob) : UUID × UUID := (job.id, job.tenantId)

/-- The rest of the system moves, workers included: they leave the messages alone, and which jobs
there are. -/
structure BesideOutbox (W W' : World) : Prop extends Spares .outboxMessages W W' where
  jobs : (W'.store.db .backgroundJobs).map BackgroundJob.name =
    (W.store.db .backgroundJobs).map BackgroundJob.name

namespace Outbox

variable {P : Platform} {C : Settings} {S : RBACService}

/-! ## Messages -/

/-- The message is the one of a job, and its task is named after it. -/
def Addressed (m : OutboxMessage) : Prop :=
  m.taskName = BackgroundJobService.executeJobTask ∧
    ∃ rest, m.payload = ("job_id", .str m.jobId.str) :: rest

theorem jobId_of_task {m m' : OutboxMessage} (h : Addressed m) (h' : Addressed m')
    (ht : m.task = m'.task) : m.jobId = m'.jobId := by
  obtain ⟨-, rest, hm⟩ := h
  obtain ⟨-, rest', hm'⟩ := h'
  have hpayload : m.payload = m'.payload := congrArg TaskMessage.payload ht
  rw [hm, hm'] at hpayload
  obtain ⟨hhead, -⟩ := List.cons.inj hpayload
  exact UUID.str_injective (Scalar.str.inj (Prod.mk.inj hhead).2)

/-! ## Submissions -/

/-- A submission adds a job and the message that is to start it. -/
def Submission (ws : List Write) : Prop :=
  ∃ job message, ws = [.insert .backgroundJobs job, .insert .outboxMessages message] ∧
    message.names = job.name ∧ Addressed message ∧ message.status = .pending ∧
    message.publishAttemptCount = 0

/-- Every operation but handing a message to the broker. -/
def Silent : Op → Prop
  | .publish _ => False
  | _ => True

theorem silent_of_reading {o : Op} (h : o.Reading) : Silent o := by
  cases o <;> trivial

section Submit

variable (P) (B : BackgroundJobService) (context : CurrentTenant)

/-- After a lost race a submission rolls back and reads. -/
theorem within_replayRaced {φ : Op → Prop} (hrollback : φ .rollback)
    (hselect : ∀ {β : Type} (q : Db → β), φ (.select q)) (key hash : String) :
    (BackgroundJobService.replayRaced context key hash).Within φ fun _ => True := by
  refine .bind (.perform hrollback) fun _ _ => .bind (.perform (hselect _)) fun raced _ => ?_
  rcases raced with _ | raced
  · trivial
  · show (BackgroundJobService.replay raced hash).Within φ fun _ => True
    unfold BackgroundJobService.replay
    split <;> trivial

theorem within_refresh {φ : Op → Prop} (hselect : ∀ {β : Type} (q : Db → β), φ (.select q))
    (t : Table) (id : UUID) : (Service.refresh t id).Within φ fun _ => True := by
  refine .bind (.perform (hselect _)) fun found _ => ?_
  rcases found with _ | row <;> trivial

theorem ends_submit (kind : BackgroundJobKind) (payload : JsonObject) (key : String) :
    Ends (fun _ => Submission) (.pure True) [] (B.submit P context kind payload key) := by
  refine .bind (.select _) fun existing => ?_
  rcases existing with _ | job
  · refine .bind (Walks.quiet (Service.quiet_uuid4 (ρ := fun _ => True))) fun jobId => ?_
    refine .bind (Walks.quiet (Service.quiet_uuid4 (ρ := fun _ => True))) fun messageId => ?_
    refine .bind (Walks.quiet (B.quiet_getOrCreateCorrelationId (ρ := fun _ => True)))
      fun correlationId => ?_
    refine .handle ?_ (fun e => ?_) fun replayed => ?_
    · refine .bind (.write _) fun _ => .bind (.write _) fun _ => ?_
      exact .commit (fun _ _ => ⟨_, _, rfl, rfl, ⟨rfl, _, rfl⟩, rfl, rfl⟩) trivial
    · split
      · exact .bind (within_replayRaced (φ := Traced.Unguarded) context trivial
          (fun _ => trivial) _ _) fun _ _ => trivial
      · trivial
    · rcases replayed with _ | replayed
      · exact .bind (within_refresh (φ := Traced.Unguarded) (fun _ => trivial) _ _)
          fun _ _ => trivial
      · trivial
  · exact .quiet (BackgroundJobService.quiet_replay (ρ := fun _ => True) trivial job _)

theorem ends_submitEmailNotification (ticketId : UUID) (key : String) :
    Ends (fun _ => Submission) (.pure True) []
      (B.submitEmailNotification P context ticketId key) := by
  refine .bind (Walks.quiet (TicketService.quiet_get B.rbac context ticketId)) fun ticket => ?_
  split
  · exact .raise
  · refine .bind (.select _) fun found => ?_
    rcases found with _ | customer
    · exact .raise
    · exact .ite .raise ((ends_submit P B context _ _ _).pre fun _ _ => trivial)

theorem ends_submitTicketExport (status : Option TicketStatus) (priority : Option TicketPriority)
    (key : String) : Ends (fun _ => Submission) (.pure True) []
      (B.submitTicketExport P context status priority key) :=
  .bind (Walks.quiet (B.rbac.quiet_hasPermission (ρ := fun _ => True) trivial _ _)) fun _ =>
    (ends_submit P B context _ _ _).pre fun _ _ => trivial

theorem silent_submit (kind : BackgroundJobKind) (payload : JsonObject) (key : String) :
    (B.submit P context kind payload key).Within Silent fun _ => True := by
  refine .bind (.perform trivial) fun existing _ => ?_
  rcases existing with _ | job
  · refine .bind (.perform trivial) fun jobId _ => .bind (.perform trivial) fun messageId _ => ?_
    refine .bind ((B.quiet_getOrCreateCorrelationId (ρ := fun _ => True)).within
      fun _ => silent_of_reading) fun correlationId _ => ?_
    refine .bind (Q := fun _ => True) (.handle ?_ fun e => ?_) fun replayed _ => ?_
    · exact .bind (.perform trivial) fun _ _ => .bind (.perform trivial) fun _ _ =>
        .bind (.perform trivial) fun _ _ => trivial
    · split
      · exact .bind (within_replayRaced (φ := Silent) context trivial (fun _ => trivial) _ _)
          fun _ _ => trivial
      · trivial
    · rcases replayed with _ | replayed
      · exact .bind (within_refresh (φ := Silent) (fun _ => trivial) _ _) fun _ _ => trivial
      · trivial
  · exact (BackgroundJobService.quiet_replay (ρ := fun _ => True) trivial job _).within
      fun _ => silent_of_reading

theorem silent_submitEmailNotification (ticketId : UUID) (key : String) :
    (B.submitEmailNotification P context ticketId key).Within Silent fun _ => True := by
  refine .bind ((TicketService.quiet_get B.rbac context ticketId).within
    fun _ => silent_of_reading) fun ticket _ => ?_
  split
  · trivial
  · refine .bind (.perform trivial) fun found _ => ?_
    rcases found with _ | customer
    · trivial
    · dsimp only
      split
      · trivial
      · exact silent_submit P B context _ _ _

theorem silent_submitTicketExport (status : Option TicketStatus)
    (priority : Option TicketPriority) (key : String) :
    (B.submitTicketExport P context status priority key).Within Silent fun _ => True :=
  .bind ((B.rbac.quiet_hasPermission (ρ := fun _ => True) trivial _ _).within
    fun _ => silent_of_reading) fun _ _ => silent_submit P B context _ _ _

end Submit

/-! ## Dispatchers -/

/-- The query a dispatcher that began at `now` takes its messages with. -/
@[reducible] def pendingQuery (C : Settings) (now : Time) : Op :=
  .selectSkipLocked .outboxMessages fun mayLock db =>
    db.pendingOutbox now C.outboxBatchSize mayLock

/-- What has become of a message that was taken. -/
structure Attempt where
  message : OutboxMessage
  /-- When it was published, or why not. -/
  outcome : Except Exn Time

namespace Attempt

/-- What the dispatcher does about it. -/
def trace (x : Attempt) : Trace :=
  match x.outcome with
  | .ok publishedAt => [⟨.publish x.message.task, .ok ()⟩, ⟨.now, .ok publishedAt⟩]
  | .error e => [⟨.publish x.message.task, .error e⟩]

variable (P : Platform) (C : Settings)

/-- What the message is to be. -/
def current (now : Time) (x : Attempt) : OutboxMessage :=
  match x.outcome with
  | .ok publishedAt => OutboxDispatcher.published x.message publishedAt
  | .error e => OutboxDispatcher.postponed P C x.message now e

/-- What it adds to the count. -/
def count (x : Attempt) : Nat :=
  match x.outcome with
  | .ok _ => 1
  | .error _ => 0

/-- What the broker answered. -/
def answer (x : Attempt) : Except Exn Unit := x.outcome.map fun _ => ()

end Attempt

variable (P C) in
/-- What a dispatcher flushes. -/
def flushed (now : Time) (attempts : List Attempt) : List (OutboxMessage × OutboxMessage) :=
  (attempts.map fun x => (x.message, x.current P C now)).insertionSort fun a b => a.1.id ≤ b.1.id

def updatesOf (rows : List (OutboxMessage × OutboxMessage)) : List Write :=
  rows.flatMap fun x => Write.updates .outboxMessages x.1 x.2

variable (C) in
/-- What a dispatcher does before it flushes. -/
def attempted (now : Time) (attempts : List Attempt) : Trace :=
  ⟨.now, .ok now⟩ :: ⟨pendingQuery C now, .ok (attempts.map (·.message))⟩ ::
    attempts.flatMap Attempt.trace

variable (P C) in
/-- What a dispatcher does before it commits. -/
def dispatched (now : Time) (attempts : List Attempt) : Trace :=
  attempted C now attempts ++ (updatesOf (flushed P C now attempts)).map Write.sent

theorem trace_ne_commit {x : Attempt} : ∀ y ∈ x.trace, y.1 ≠ .commit := by
  obtain ⟨m, e | publishedAt⟩ := x
  · simp [Attempt.trace]
  · simp [Attempt.trace]

theorem attempted_ne_commit (now : Time) (rows : List OutboxMessage) (attempts : List Attempt) :
    ∀ x ∈ (⟨.now, .ok now⟩ :: ⟨pendingQuery C now, .ok rows⟩ ::
      attempts.flatMap Attempt.trace : Trace), x.1 ≠ .commit := by
  intro x hx
  rcases List.mem_cons.mp hx with rfl | hx
  · exact Op.noConfusion
  rcases List.mem_cons.mp hx with rfl | hx
  · exact Op.noConfusion
  obtain ⟨y, -, hy⟩ := List.mem_flatMap.mp hx
  exact trace_ne_commit x hy

theorem written_attempted (now : Time) (attempts : List Attempt) :
    written (attempted C now attempts) = [] := by
  rw [written, List.filterMap_eq_nil_iff]
  intro x hx
  rcases List.mem_cons.mp hx with rfl | hx
  · rfl
  rcases List.mem_cons.mp hx with rfl | hx
  · rfl
  obtain ⟨⟨m, e | publishedAt⟩, -, hy⟩ := List.mem_flatMap.mp hx
  · rw [List.mem_singleton.mp hy]
    rfl
  · rcases List.mem_cons.mp hy with rfl | hy
    · rfl
    · rw [List.mem_singleton.mp hy]
      rfl

/-- A query answers what it finds for some test in some database. -/
def Found : (o : Op) → Except Exn o.Res → Prop
  | .selectSkipLocked _ q, r => ∀ rows, r = .ok rows → ∃ mayLock db, rows = q mayLock db
  | _, _ => True

variable (P C) in
/-- A dispatcher publishes what it has selected, before its commit; it commits what it has been
answered. -/
def Dispatching (t : Trace) : Op → Prop
  | .commit => ∃ now attempts, t = dispatched P C now attempts
  | .publish task => (∀ x ∈ t, x.1 ≠ .commit) ∧ ∃ now rows rest,
      t = ⟨.now, .ok now⟩ :: ⟨pendingQuery C now, .ok rows⟩ :: rest ∧ ∃ m ∈ rows, m.task = task
  | _ => True

section Safe

variable {A : (o : Op) → Except Exn o.Res → Prop} {φ : Trace → Op → Prop}

theorem safe_publish {t : Trace} {now : Time} {m : OutboxMessage} (hm : φ t (.publish m.task))
    (hnow : ∀ v, φ v .now) :
    (OutboxDispatcher.publish P C now m).Safe A φ
      (fun a v => ∃ x : Attempt, x.message = m ∧ v = t ++ x.trace ∧
        a = (x.current P C now, x.count)) (fun _ _ => True) t := by
  refine .bind (.handle (.bind (.perform hm (fun _ _ => ?_) fun e => ?_)))
  · refine .bind (.perform (hnow _) (fun publishedAt _ => ⟨⟨m, .ok publishedAt⟩, rfl, ?_, rfl⟩)
      fun _ => trivial)
    rw [List.append_assoc]
    rfl
  · split
    · exact ⟨⟨m, .error e⟩, rfl, rfl, rfl⟩
    · trivial

theorem safe_publishAll {now : Time} (hnow : ∀ v, φ v .now) :
    ∀ (ms : List OutboxMessage) (t : Trace),
      (∀ past : List Attempt, ∀ m ∈ ms, φ (t ++ past.flatMap Attempt.trace) (.publish m.task)) →
      (OutboxDispatcher.publishAll P C now ms).Safe A φ
        (fun a v => ∃ attempts : List Attempt, attempts.map (·.message) = ms ∧
          v = t ++ attempts.flatMap Attempt.trace ∧
          a = (attempts.map fun x => (x.message, x.current P C now), (attempts.map (·.count)).sum))
        (fun _ _ => True) t
  | [], t, _ => ⟨[], rfl, by simp, rfl⟩
  | m :: ms, t, hφ => by
    have hm : φ t (.publish m.task) := by simpa using hφ [] m (.head _)
    refine .bind ((safe_publish hm hnow).mono ?_ fun _ _ h => h)
    rintro _ _ ⟨x, rfl, rfl, rfl⟩
    refine .bind ((safe_publishAll hnow ms _ fun past m' hm' => ?_).mono ?_ fun _ _ h => h)
    · have hpast := hφ (x :: past) m' (.tail _ hm')
      rwa [List.flatMap_cons, ← List.append_assoc] at hpast
    · rintro _ _ ⟨attempts, rfl, rfl, rfl⟩
      exact ⟨x :: attempts, rfl, by simp, by simp⟩

theorem safe_flush (hwrite : ∀ v w, φ v (.write w)) :
    ∀ (rows : List (OutboxMessage × OutboxMessage)) (t : Trace),
      (OutboxDispatcher.flush rows).Safe A φ
        (fun _ v => v = t ++ (updatesOf rows).map Write.sent) (fun _ _ => True) t
  | [], t => by simp [OutboxDispatcher.flush, updatesOf, Prog.Safe]
  | (loaded, current) :: rows, t => by
    have rest (u : Trace) (hu : u = (Write.updates .outboxMessages loaded current).map Write.sent) :
        (OutboxDispatcher.flush rows).Safe A φ
          (fun _ v => v = t ++ (updatesOf ((loaded, current) :: rows)).map Write.sent)
          (fun _ _ => True) (t ++ u) :=
      (safe_flush hwrite rows (t ++ u)).mono (fun _ v hv => by
        rw [hv, hu]
        simp [updatesOf]) fun _ _ h => h
    refine .bind ?_
    unfold Service.update
    split
    · rename_i he
      have hnil := rest [] (by simp [Write.updates, he])
      rwa [List.append_nil] at hnil
    · rename_i he
      exact .perform (hwrite _ _) (fun _ _ => rest _ (by simp [Write.updates, he])) fun _ => trivial

/-- **What a dispatcher does.** -/
theorem safe_dispatchOnce :
    (OutboxDispatcher.dispatchOnce P C).Safe Found (Dispatching P C)
      (fun n v => ∃ now attempts, v = dispatched P C now attempts ++ [⟨.commit, .ok ()⟩] ∧
        n = (attempts.map Attempt.count).sum) (fun _ _ => True) [] := by
  refine .bind (.perform trivial (fun now _ => ?_) fun _ => trivial)
  refine .bind (.perform trivial (fun rows _ => ?_) fun _ => trivial)
  refine .bind ((safe_publishAll (fun _ => trivial) rows _ fun past m hm => ?_).mono ?_
    fun _ _ h => h)
  · exact ⟨attempted_ne_commit now rows past, now, rows, past.flatMap Attempt.trace, rfl, m, hm,
      rfl⟩
  · rintro _ _ ⟨attempts, rfl, rfl, rfl⟩
    refine .bind ((safe_flush (fun _ _ => trivial) _ _).mono ?_ fun _ _ h => h)
    rintro _ _ rfl
    exact .bind (.perform ⟨now, attempts, rfl⟩ (fun _ _ => ⟨now, attempts, rfl, rfl⟩)
      fun _ => trivial)

end Safe

/-! ## What is committed -/

section Updates

theorem isSameRow_self (t : Table) (l : t.Row) : t.isSameRow l l = true := by
  cases t <;> simp [Table.isSameRow]

/-- Updates of different rows, each of a row as it is. -/
theorem mem_foldl_updates {t : Table} {rows : List (t.Row × t.Row)} {db : Db} {r : t.Row}
    (hids : ((db t).map t.id).Nodup) (hrows : ∀ x ∈ rows, x.1 ∈ db t)
    (hnodup : (rows.map fun x => t.id x.1).Nodup) :
    r ∈ (rows.map fun x => Write.update t x.1 x.2).foldl (fun db w => w.apply db) db t ↔
      (∃ x ∈ rows, r = t.patch x.1 x.2 x.1) ∨ r ∈ db t ∧ ∀ x ∈ rows, t.id r ≠ t.id x.1 := by
  induction rows generalizing db with
  | nil => simp
  | cons x rows ih =>
    rw [List.forall_mem_cons] at hrows
    rw [List.map_cons, List.nodup_cons] at hnodup
    have hother : ∀ y ∈ rows, t.id y.1 ≠ t.id x.1 := fun y hy he =>
      hnodup.1 (he ▸ List.mem_map_of_mem hy)
    have hids' : (((Write.update t x.1 x.2).apply db t).map t.id).Nodup := by
      rwa [Write.map_apply_update db t.id (Table.id_patch t x.1 x.2)]
    have hmem {r : t.Row} : r ∈ (Write.update t x.1 x.2).apply db t ↔
        r = t.patch x.1 x.2 x.1 ∨ r ∈ db t ∧ t.id r ≠ t.id x.1 :=
      Write.mem_apply_update hids hrows.1 (isSameRow_self t x.1)
    rw [List.map_cons, List.foldl_cons, ih hids' (fun y hy =>
      hmem.mpr (.inr ⟨hrows.2 y hy, hother y hy⟩)) hnodup.2, hmem]
    constructor
    · rintro (⟨y, hy, rfl⟩ | ⟨rfl | ⟨hr, hx⟩, hall⟩)
      · exact .inl ⟨y, .tail _ hy, rfl⟩
      · exact .inl ⟨x, .head _, rfl⟩
      · exact .inr ⟨hr, List.forall_mem_cons.mpr ⟨hx, hall⟩⟩
    · rintro (⟨y, hy, rfl⟩ | ⟨hr, hall⟩)
      · rcases List.mem_cons.mp hy with rfl | hy
        · refine .inr ⟨.inl rfl, fun z hz => ?_⟩
          rw [Table.id_patch]
          exact (hother z hz).symm
        · exact .inl ⟨y, hy, rfl⟩
      · rw [List.forall_mem_cons] at hall
        exact .inr ⟨.inr ⟨hr, hall.1⟩, hall.2⟩

theorem map_foldl_updates {α : Type} {t : Table} (rows : List (t.Row × t.Row)) (db : Db)
    (f : t.Row → α) (hf : ∀ l c r, f (t.patch l c r) = f r) :
    ((rows.map fun x => Write.update t x.1 x.2).foldl (fun db w => w.apply db) db t).map f =
      (db t).map f := by
  induction rows generalizing db with
  | nil => rfl
  | cons x rows ih =>
    rw [List.map_cons, List.foldl_cons, ih, Write.map_apply_update db f (hf _ _)]

theorem exists_of_forall₂ {α β : Type} {R : α → β → Prop} {l : List α} {l' : List β}
    (h : List.Forall₂ R l l') {b : β} (hb : b ∈ l') : ∃ a ∈ l, R a b := by
  induction h with
  | nil => cases hb
  | cons hr _ ih =>
    rcases List.mem_cons.mp hb with rfl | hb
    · exact ⟨_, .head _, hr⟩
    · obtain ⟨a, ha, hr⟩ := ih hb
      exact ⟨a, .tail _ ha, hr⟩

/-- What the server makes of a list of updates. -/
theorem stamped_updates {t : Table} {rows : List (t.Row × t.Row)} {ws : List Write}
    (h : Stamped (rows.map fun x => Write.update t x.1 x.2) ws) :
    ∃ rows' : List (t.Row × t.Row), (ws = rows'.map fun x => Write.update t x.1 x.2) ∧
      List.Forall₂ (fun x x' => x'.1 = x.1 ∧ ∃ τ, x'.2 = t.stampUpdate τ x.2) rows rows' := by
  induction rows generalizing ws with
  | nil =>
    obtain rfl := stamped_nil.mp h
    exact ⟨[], rfl, .nil⟩
  | cons x rows ih =>
    cases h with
    | cons hx h =>
      obtain ⟨τ, rfl⟩ := hx
      obtain ⟨rows', rfl, hrows⟩ := ih h
      exact ⟨(x.1, t.stampUpdate τ x.2) :: rows', rfl, .cons ⟨rfl, τ, rfl⟩ hrows⟩

end Updates

theorem updatesOf_flushed (now : Time) (attempts : List Attempt) :
    updatesOf (flushed P C now attempts) =
      (flushed P C now attempts).map fun x => Write.update .outboxMessages x.1 x.2 := by
  have hone : ∀ x ∈ flushed P C now attempts,
      Write.updates .outboxMessages x.1 x.2 = [.update .outboxMessages x.1 x.2] := by
    intro x hx
    obtain ⟨y, -, rfl⟩ := List.mem_map.mp ((List.mem_insertionSort _).mp hx)
    refine Write.updates_of_ne OutboxMessage.publishAttemptCount ?_
    obtain ⟨m, e | publishedAt⟩ := y
    · simp [Attempt.current, OutboxDispatcher.postponed]
    · simp [Attempt.current, OutboxDispatcher.published]
  rw [updatesOf, List.flatMap_congr hone]
  exact List.map_eq_flatMap.symm

/-- The rows a dispatcher commits, of what it has attempted. -/
structure Settles (P : Platform) (C : Settings) (now : Time) (attempts : List Attempt)
    (rows : List (OutboxMessage × OutboxMessage)) : Prop where
  attempted : ∀ x ∈ rows, ∃ y ∈ attempts, ∃ τ,
    x = (y.message, Table.stampUpdate τ .outboxMessages (y.current P C now))
  settled : ∀ y ∈ attempts, ∃ x ∈ rows, x.1 = y.message
  perm : (rows.map Prod.fst).Perm (attempts.map (·.message))

section Settles

variable {now : Time} {attempts : List Attempt} {rows : List (OutboxMessage × OutboxMessage)}

theorem Settles.mem (h : Settles P C now attempts rows) {messages : List OutboxMessage}
    (hmem : ∀ x ∈ attempts, x.message ∈ messages) : ∀ x ∈ rows, x.1 ∈ messages := fun x hx => by
  obtain ⟨y, hy, τ, rfl⟩ := h.attempted x hx
  exact hmem y hy

theorem Settles.nodup (h : Settles P C now attempts rows)
    (hnodup : (attempts.map fun x => x.message.id).Nodup) : (rows.map fun x => x.1.id).Nodup := by
  have hperm := h.perm.map OutboxMessage.id
  rw [List.map_map, List.map_map] at hperm
  exact hperm.nodup_iff.mpr hnodup

end Settles

theorem settles_of_stamped {now : Time} {attempts : List Attempt} {ws : List Write}
    (h : Stamped (updatesOf (flushed P C now attempts)) ws) :
    ∃ rows, (ws = rows.map fun x => .update .outboxMessages x.1 x.2) ∧
      Settles P C now attempts rows := by
  rw [updatesOf_flushed] at h
  obtain ⟨rows, rfl, hrows⟩ := stamped_updates (t := .outboxMessages) h
  have hfst : rows.map Prod.fst = (flushed P C now attempts).map Prod.fst := by
    clear h
    generalize flushed P C now attempts = l at hrows
    induction hrows with
    | nil => rfl
    | cons hx _ ih => rw [List.map_cons, List.map_cons, hx.1, ih]
  have hperm : (rows.map Prod.fst).Perm (attempts.map (·.message)) := by
    rw [hfst]
    refine ((List.perm_insertionSort _ _).map Prod.fst).trans ?_
    rw [List.map_map]
    exact .refl _
  refine ⟨rows, rfl, fun x hx => ?_, fun y hy => ?_, hperm⟩
  · obtain ⟨x₀, hx₀, he, τ, hτ⟩ := exists_of_forall₂ hrows hx
    obtain ⟨y, hy, rfl⟩ := List.mem_map.mp ((List.mem_insertionSort _).mp hx₀)
    exact ⟨y, hy, τ, Prod.ext he hτ⟩
  · obtain ⟨x, hx, he⟩ := List.mem_map.mp (hperm.mem_iff.mpr (List.mem_map_of_mem hy))
    exact ⟨x, hx, he⟩

/-- Each job has one message, which names it. -/
structure Opened (db : Db) : Prop where
  names : (db .outboxMessages).map OutboxMessage.names =
    (db .backgroundJobs).map BackgroundJob.name
  ids : ((db .outboxMessages).map OutboxMessage.id).Nodup
  jobIds : ((db .outboxMessages).map OutboxMessage.jobId).Nodup
  addressed : ∀ m ∈ db .outboxMessages, Addressed m

theorem jobs_ne_messages : Table.backgroundJobs ≠ .outboxMessages := by decide

theorem inserted_jobs (db : Db) (job : BackgroundJob) (m : OutboxMessage) :
    [Write.insert .backgroundJobs job, .insert .outboxMessages m].foldl (fun db w => w.apply db) db
      .backgroundJobs = db .backgroundJobs ++ [job] := by
  rw [List.foldl_cons, List.foldl_cons, List.foldl_nil, Write.apply_other _ _ jobs_ne_messages,
    Write.apply_insert]

theorem inserted_messages (db : Db) (job : BackgroundJob) (m : OutboxMessage) :
    [Write.insert .backgroundJobs job, .insert .outboxMessages m].foldl (fun db w => w.apply db) db
      .outboxMessages = db .outboxMessages ++ [m] := by
  rw [List.foldl_cons, List.foldl_cons, List.foldl_nil, Write.apply_insert,
    Write.apply_other _ _ jobs_ne_messages.symm]

/-- What no update changes of a message. -/
def fixed (m : OutboxMessage) : UUID × UUID × UUID × TaskMessage :=
  (m.id, m.jobId, m.tenantId, m.task)

/-- The messages of `db` are still there. -/
def Kept (db db' : Db) : Prop :=
  (db .outboxMessages).map fixed <+: (db' .outboxMessages).map fixed

/-- What a call commits after what it has done. -/
def Commits (P : Platform) (C : Settings) : OutboxCall → Trace → List Write → Prop
  | .dispatchOnce, t, ws => ∃ now attempts rows, t = dispatched P C now attempts ∧
      (ws = rows.map fun x => .update .outboxMessages x.1 x.2) ∧ Settles P C now attempts rows
  | _, _, ws => Submission ws

theorem submission_stamped {ws ws' : List Write} (h : Submission ws) (hs : Stamped ws ws') :
    Submission ws' := by
  obtain ⟨job, message, rfl, hnames, haddressed, hstatus, hcount⟩ := h
  cases hs with
  | cons hjob hs =>
    obtain ⟨τ, rfl⟩ := hjob
    obtain ⟨τ', rfl⟩ := stamped_singleton.mp hs
    exact ⟨_, _, rfl, hnames, haddressed, hstatus, hcount⟩

section Run

variable {may : Nat → OutboxCall → Prop} {admits : Admission} {W₀ : World} {T : Nat → Trace}
variable {pool : ((outboxCalls P C S).system may admits BesideOutbox).Pool}

theorem found {K : Calls} {may : Nat → K.Call → Prop} {env : World → World → Prop} {i : Nat}
    {c : K.Call} {o : Op} {W W' : World} {r : Except Exn o.Res}
    (h : (K.system may admits env).step i c o W r W') : Found o r := by
  obtain ⟨ch, -, h⟩ := h
  cases o with
  | selectSkipLocked t q =>
    intro rows hr
    rcases (selectSkipLocked_step h).1 with ⟨-, hq⟩ | ⟨-, -, e, he⟩
    · exact ⟨_, _, (hq rows hr).1⟩
    · rw [hr] at he
      cases he
  | _ => trivial

section Committing

variable {K : Calls} {mayRun : Nat → K.Call → Prop} {env : World → World → Prop}
variable {threads : (K.system mayRun admits env).Pool}
variable (hsessions : ∀ W W', env W W' → W'.store.sessions = W.store.sessions)

include hsessions

/-- What the session of a submission commits, -/
theorem committing_submission (h : System.Records W₀ threads T) {i : Nat} {c : K.Call}
    {k : Except Exn Unit → Service (K.Ret c)} (hi : threads.threads i = .running c (.op .commit k))
    (hprog : Ends (fun _ => Submission) (.pure True) [] (K.prog c)) :
    Submission (threads.shared.store.sessions i).writes := by
  obtain ⟨ws, hflush, hsub⟩ := h.performs hi (fun _ _ _ _ _ _ => Calls.answers)
    (hprog [] (flushed_nil_iff.mpr rfl) trivial)
  exact submission_stamped hsub (Calls.pending hsessions h hi hflush)

/-- and that of a dispatcher. -/
theorem committing_dispatch (h : System.Records W₀ threads T) {i : Nat} {c : K.Call}
    {k : Except Exn Unit → Service (K.Ret c)} (hi : threads.threads i = .running c (.op .commit k))
    {B : K.Ret c → Trace → Prop} {E : Exn → Trace → Prop}
    (hprog : (K.prog c).Safe Found (Dispatching P C) B E []) :
    ∃ now attempts rows, T i = dispatched P C now attempts ∧
      ((threads.shared.store.sessions i).writes =
        rows.map fun x => .update .outboxMessages x.1 x.2) ∧ Settles P C now attempts rows := by
  obtain ⟨now, attempts, ht⟩ := h.performs hi (fun _ _ _ _ _ _ => found) hprog
  have hflush : Flushed (T i) (updatesOf (flushed P C now attempts)) :=
    ⟨attempted C now attempts, ht, written_attempted now attempts⟩
  obtain ⟨rows, hws, hsettles⟩ := settles_of_stamped (Calls.pending hsessions h hi hflush)
  exact ⟨now, attempts, rows, ht, hws, hsettles⟩

end Committing

theorem committing (h : System.Records W₀ pool T) {i : Nat} {c : OutboxCall}
    {k : Except Exn Unit → Service c.Ret} (hi : pool.threads i = .running c (.op .commit k)) :
    Commits P C c (T i) (pool.shared.store.sessions i).writes := by
  have sessions (W W' : World) (hW : BesideOutbox W W') :
      W'.store.sessions = W.store.sessions := hW.sessions
  cases c with
  | submitEmailNotification correlationId context ticketId key =>
    exact committing_submission sessions h hi
      (ends_submitEmailNotification P ⟨C, S, correlationId⟩ context ticketId key)
  | submitTicketExport correlationId context status priority key =>
    exact committing_submission sessions h hi
      (ends_submitTicketExport P ⟨C, S, correlationId⟩ context status priority key)
  | dispatchOnce => exact committing_dispatch sessions h hi safe_dispatchOnce

theorem addressed_of_fixed {m m' : OutboxMessage} (h : Addressed m) (he : fixed m = fixed m') :
    Addressed m' := by
  obtain ⟨htask, rest, hpayload⟩ := h
  simp only [fixed, OutboxMessage.task, Prod.mk.injEq, TaskMessage.mk.injEq] at he
  obtain ⟨-, hjob, -, -, hname, hmessage⟩ := he
  exact ⟨hname ▸ htask, rest, by rw [← hmessage, ← hjob, hpayload]⟩

theorem map_of_fixed {α : Type} {f : OutboxMessage → α} (g : UUID × UUID × UUID × TaskMessage → α)
    (hf : ∀ m, f m = g (fixed m)) {l l' : List OutboxMessage} (h : l'.map fixed = l.map fixed) :
    l'.map f = l.map f := by
  have through (l : List OutboxMessage) : l.map f = (l.map fixed).map g := by
    rw [List.map_map]
    exact List.map_congr_left fun m _ => hf m
  rw [through, through, h]

/-- Nothing but what dispatchers update has changed. -/
theorem Opened.of_fixed {db db' : Db} (h : Opened db)
    (hm : (db' .outboxMessages).map fixed = (db .outboxMessages).map fixed)
    (hj : (db' .backgroundJobs).map BackgroundJob.name =
      (db .backgroundJobs).map BackgroundJob.name) : Opened db' where
  names := by
    rw [hj, ← h.names]
    exact map_of_fixed (fun x => (x.2.1, x.2.2.1)) (fun _ => rfl) hm
  ids := by
    rw [map_of_fixed (f := OutboxMessage.id) (fun x => x.1) (fun _ => rfl) hm]
    exact h.ids
  jobIds := by
    rw [map_of_fixed (f := OutboxMessage.jobId) (fun x => x.2.1) (fun _ => rfl) hm]
    exact h.jobIds
  addressed := by
    intro m hmem
    obtain ⟨m₀, hm₀, he⟩ := List.mem_map.mp (hm ▸ List.mem_map_of_mem (f := fixed) hmem)
    exact addressed_of_fixed (h.addressed m₀ hm₀) he

/-- A job and its message are new. -/
theorem Opened.insert {db db' : Db} (h : Opened db) {job : BackgroundJob} {m : OutboxMessage}
    (hnames : m.names = job.name) (haddressed : Addressed m)
    (hfresh : ∀ k ∈ Table.keys .outboxMessages m, db.present k = false)
    (hm : db' .outboxMessages = db .outboxMessages ++ [m])
    (hj : db' .backgroundJobs = db .backgroundJobs ++ [job]) : Opened db' where
  names := by rw [hm, hj, List.map_append, List.map_append, h.names, List.map_singleton,
    List.map_singleton, hnames]
  ids := by
    rw [hm, List.map_append, List.map_singleton]
    refine List.nodup_append.mpr ⟨h.ids, List.nodup_singleton _, ?_⟩
    rintro id hid _ hmem rfl
    obtain ⟨m₀, hm₀, he⟩ := List.mem_map.mp hid
    exact Db.present_row.mp (hfresh _ (.head _)) m₀ hm₀ (he.trans (List.mem_singleton.mp hmem))
  jobIds := by
    rw [hm, List.map_append, List.map_singleton]
    refine List.nodup_append.mpr ⟨h.jobIds, List.nodup_singleton _, ?_⟩
    rintro id hid _ hmem rfl
    obtain ⟨m₀, hm₀, he⟩ := List.mem_map.mp hid
    have habsent := Db.present_eq_false.mp (hfresh (.outboxJob m.jobId) (.tail _ (.head _))) m₀ hm₀
    exact habsent (by
      rw [← List.mem_singleton.mp hmem, ← he]
      exact .tail _ (.head _))
  addressed := by
    rw [hm]
    intro m₀ hm₀
    rcases List.mem_append.mp hm₀ with hm₀ | hm₀
    · exact h.addressed m₀ hm₀
    · rw [List.mem_singleton.mp hm₀]
      exact haddressed

/-- A write that neither the messages nor the jobs there are depend on. -/
def Aside (w : Write) : Prop :=
  ∀ db, w.apply db .outboxMessages = db .outboxMessages ∧
    (w.apply db .backgroundJobs).map BackgroundJob.name =
      (db .backgroundJobs).map BackgroundJob.name

variable (P C) in
/-- What a commit is to the outbox, after what its thread has done. -/
inductive Concern (t : Trace) : List Write → Prop
  | submission {ws : List Write} (h : Submission ws) : Concern t ws
  | dispatch {now : Time} {attempts : List Attempt} {rows : List (OutboxMessage × OutboxMessage)}
      (ht : t = dispatched P C now attempts) (h : Settles P C now attempts rows) :
      Concern t (rows.map fun x => .update .outboxMessages x.1 x.2)
  | aside {ws : List Write} (h : ∀ w ∈ ws, Aside w) : Concern t ws

theorem Commits.concern {c : OutboxCall} {t : Trace} {ws : List Write} (h : Commits P C c t ws) :
    Concern P C t ws := by
  cases c with
  | submitEmailNotification correlationId context ticketId key => exact .submission h
  | submitTicketExport correlationId context status priority key => exact .submission h
  | dispatchOnce =>
    obtain ⟨now, attempts, rows, ht, rfl, hsettles⟩ := h
    exact .dispatch ht hsettles

theorem foldl_aside {ws : List Write} (h : ∀ w ∈ ws, Aside w) (db : Db) :
    ws.foldl (fun db w => w.apply db) db .outboxMessages = db .outboxMessages ∧
      (ws.foldl (fun db w => w.apply db) db .backgroundJobs).map BackgroundJob.name =
        (db .backgroundJobs).map BackgroundJob.name := by
  induction ws generalizing db with
  | nil => exact ⟨rfl, rfl⟩
  | cons w ws ih =>
    rw [List.forall_mem_cons] at h
    obtain ⟨hmessages, hjobs⟩ := ih h.2 (w.apply db)
    exact ⟨hmessages.trans (h.1 db).1, hjobs.trans (h.1 db).2⟩

/-- **What the commits make of the two tables**; the messages that are there stay. -/
theorem opened_commit {db : Db} (h : Opened db) {t : Trace} {ws : List Write}
    (hc : Concern P C t ws) (hfresh : ∀ job m,
      ws = [.insert .backgroundJobs job, .insert .outboxMessages m] →
        ∀ k ∈ Table.keys .outboxMessages m, db.present k = false) :
    Opened (ws.foldl (fun db w => w.apply db) db) ∧
      Kept db (ws.foldl (fun db w => w.apply db) db) := by
  cases hc with
  | submission hs =>
    obtain ⟨job, m, rfl, hnames, haddressed, -⟩ := hs
    have hmessages := inserted_messages db job m
    refine ⟨h.insert hnames haddressed (hfresh job m rfl) hmessages (inserted_jobs db job m), ?_⟩
    rw [Kept, hmessages, List.map_append]
    exact List.prefix_append _ _
  | @dispatch now attempts rows ht hsettles =>
    have hmessages := map_foldl_updates (t := .outboxMessages) rows db fixed fun _ _ _ => rfl
    refine ⟨h.of_fixed hmessages ?_, by rw [Kept, hmessages]⟩
    rw [Write.foldl_other fun w hw => ?_]
    obtain ⟨x, -, rfl⟩ := List.mem_map.mp hw
    exact jobs_ne_messages
  | aside hw =>
    obtain ⟨hmessages, hjobs⟩ := foldl_aside hw db
    exact ⟨h.of_fixed (congrArg _ hmessages) hjobs, by rw [Kept, hmessages]⟩

end Run

variable (P C) in
theorem goesOn_dispatched (now : Time) (attempts : List Attempt) :
    ∃ rest, dispatched P C now attempts =
      [⟨.now, .ok now⟩] ++ ⟨pendingQuery C now, .ok (attempts.map (·.message))⟩ :: rest ∧
      ∀ x ∈ rest, GoesOn x := by
  refine ⟨_, rfl, fun x hx => ?_⟩
  rcases List.mem_append.mp hx with hx | hx
  · obtain ⟨⟨m, e | publishedAt⟩, -, hy⟩ := List.mem_flatMap.mp hx
    · rw [List.mem_singleton.mp hy]
      trivial
    · rcases List.mem_cons.mp hy with rfl | hy
      · trivial
      · rw [List.mem_singleton.mp hy]
        exact ⟨_, rfl⟩
  · obtain ⟨w, -, rfl⟩ := List.mem_map.mp hx
    exact ⟨(), rfl⟩

/-- Calls that serve the outbox: their commits are its concern in one of the three ways, and the
rest of the system moves beside it. -/
structure Serving (P : Platform) (C : Settings) {K : Calls} (may : Nat → K.Call → Prop)
    (admits : Admission) (env : World → World → Prop) (W₀ : World) : Prop where
  beside : ∀ W W', env W W' → BesideOutbox W W'
  concern : ∀ {pool : (K.system may admits env).Pool} {T : Nat → Trace},
    System.Records W₀ pool T → ∀ {i : Nat} {c : K.Call} {k : Except Exn Unit → Service (K.Ret c)},
      pool.threads i = .running c (.op .commit k) →
        Concern P C (T i) (pool.shared.store.sessions i).writes

namespace Serving

variable {K : Calls} {may : Nat → K.Call → Prop} {admits : Admission}
variable {env : World → World → Prop} {W₀ : World} {T : Nat → Trace}
variable {pool : (K.system may admits env).Pool} (hK : Serving P C may admits env W₀)

include hK

theorem opened_step {pool' : (K.system may admits env).Pool} (hq : W₀.Quiet)
    (h : System.Records W₀ pool T) (hstep : System.Step pool pool')
    (ho : Opened pool.shared.store.db) :
    Opened pool'.shared.store.db ∧ Kept pool.shared.store.db pool'.shared.store.db := by
  have same : Opened pool.shared.store.db ∧ Kept pool.shared.store.db pool.shared.store.db :=
    ⟨ho, List.prefix_rfl⟩
  cases hstep with
  | start i c hi hc => exact same
  | @exec i c o k hi r W hs =>
    obtain ⟨ch, -, hs⟩ := hs
    rcases opStep_commits hs with ⟨hdb, -⟩ | ⟨rfl, hc⟩
    · show Opened W.store.db ∧ Kept _ W.store.db
      rw [hdb]
      exact same
    · show Opened W.store.db ∧ Kept _ W.store.db
      rw [hc.db]
      refine opened_commit ho (hK.concern h hi) fun job m hws => ?_
      refine Calls.reserves hq (fun _ _ hW => (hK.beside _ _ hW).toSpares) h.reachable i
        [.insert .backgroundJobs job] m [] hws fun w hw => ?_
      rw [List.mem_singleton.mp hw]
      exact jobs_ne_messages.symm
  | finish i c p hi r hr => exact same
  | crash i c p hi => exact same
  | env W hs =>
    have hbeside := hK.beside _ _ hs
    refine ⟨ho.of_fixed (congrArg _ hbeside.rows) hbeside.jobs, ?_⟩
    show Kept _ W.store.db
    rw [Kept, hbeside.rows]

/-- **In every reachable state each job has one message.** -/
theorem opened (hq : W₀.Quiet) (h₀ : Opened W₀.store.db) (h : System.Reachable W₀ pool) :
    Opened pool.shared.store.db := by
  induction h with
  | refl => exact h₀
  | tail hsteps hstep ih =>
    obtain ⟨T, hT⟩ := System.exists_records hsteps
    exact (hK.opened_step hq hT hstep ih).1

/-- Messages stay. -/
theorem kept {pool' : (K.system may admits env).Pool} (hq : W₀.Quiet) (h₀ : Opened W₀.store.db)
    (h : System.Reachable W₀ pool) (hsteps : System.Steps pool pool') :
    Kept pool.shared.store.db pool'.shared.store.db := by
  induction hsteps with
  | refl => exact List.prefix_rfl
  | tail hbefore hstep ih =>
    have hreach := h.trans hbefore
    obtain ⟨T, hT⟩ := System.exists_records hreach
    exact ih.trans (hK.opened_step hq hT hstep (hK.opened hq h₀ hreach)).2

/-- What a dispatcher has selected: different messages that were due, and are still there. -/
theorem selected (hq : W₀.Quiet) (h₀ : Opened W₀.store.db) (h : System.Records W₀ pool T) {i : Nat}
    {now : Time} {ms : List OutboxMessage} {rest : Trace}
    (ht : T i = [⟨.now, .ok now⟩] ++ ⟨pendingQuery C now, .ok ms⟩ :: rest) :
    (ms.map OutboxMessage.id).Nodup ∧ ∀ m ∈ ms, m.status = .pending ∧ m.availableAt ≤ now ∧
      ∃ m' ∈ pool.shared.store.db .outboxMessages, fixed m' = fixed m := by
  obtain ⟨Q, U, c, k, W, hQ, hU, hsteps, hi, ch, -, hs⟩ := h.performing ht
  have hwrites : (Q.shared.store.sessions i).writes = [] := stamped_nil.mp
    (Calls.pending (fun _ _ hW => (hK.beside _ _ hW).sessions) hQ hi
      (hU ▸ flushed_nil_iff.mpr rfl))
  rcases (selectSkipLocked_step hs).1 with ⟨-, hfound⟩ | ⟨-, -, e, he⟩
  · have hms := (hfound ms rfl).1
    rw [Store.view, hwrites, List.foldl_nil] at hms
    subst hms
    refine ⟨Db.nodup_pendingOutbox (hK.opened hq h₀ hQ.reachable).ids _ _ _, fun m hm => ?_⟩
    obtain ⟨hmem, hpending, hdue, -⟩ := Db.mem_pendingOutbox hm
    refine ⟨hpending, hdue, ?_⟩
    exact List.mem_map.mp ((hK.kept hq h₀ hQ.reachable hsteps).subset (List.mem_map_of_mem hmem))
  · cases he

/-- **What a dispatcher is about to commit** is about different messages, each as it is. -/
theorem taken (hq : W₀.Quiet) (h₀ : Opened W₀.store.db) (h : System.Records W₀ pool T) {i : Nat}
    {c : K.Call} {p : Service (K.Ret c)} (hi : pool.threads i = .running c p) {now : Time}
    {attempts : List Attempt} (ht : T i = dispatched P C now attempts) :
    (∀ x ∈ attempts, x.message ∈ pool.shared.store.db .outboxMessages ∧
      x.message.status = .pending ∧ x.message.availableAt ≤ now) ∧
    (attempts.map fun x => x.message.id).Nodup := by
  obtain ⟨rest, hrest, hgoes⟩ := goesOn_dispatched P C now attempts
  obtain ⟨hnodup, hselected⟩ := hK.selected hq h₀ h (ht.trans hrest)
  have hheld := Calls.held hq (fun _ _ hW => (hK.beside _ _ hW).toSpares) h hi (ht.trans hrest)
    rfl hgoes fun mayLock db m hm => ⟨(Db.mem_pendingOutbox hm).2.2.2, (Db.mem_pendingOutbox hm).1⟩
  refine ⟨fun x hx => ?_, by rwa [List.map_map] at hnodup⟩
  obtain ⟨hpending, hdue, -⟩ := hselected _ (List.mem_map_of_mem hx)
  exact ⟨(hheld _ (List.mem_map_of_mem hx)).2, hpending, hdue⟩

/-- What is published was selected: its message is committed. -/
theorem committed_of_published (hq : W₀.Quiet) (h₀ : Opened W₀.store.db)
    (h : System.Records W₀ pool T) {i : Nat} {u v : Trace} {task : TaskMessage}
    {r : Except Exn Unit} (ht : T i = u ++ ⟨.publish task, r⟩ :: v)
    (hpublish : Dispatching P C u (.publish task)) :
    ∃ m ∈ pool.shared.store.db .outboxMessages, m.task = task := by
  obtain ⟨-, now, rows, rest, rfl, m, hm, rfl⟩ := hpublish
  have hT : T i = [⟨.now, .ok now⟩] ++ ⟨pendingQuery C now, .ok rows⟩ ::
    (rest ++ ⟨.publish m.task, r⟩ :: v) := ht
  obtain ⟨m', hm', he⟩ := ((hK.selected hq h₀ h hT).2 m hm).2.2
  exact ⟨m', hm', congrArg (fun x => x.2.2.2) he⟩

end Serving

section Run

variable {may : Nat → OutboxCall → Prop} {admits : Admission} {W₀ : World} {T : Nat → Trace}
variable {pool : ((outboxCalls P C S).system may admits BesideOutbox).Pool}

/-- The calls about the outbox serve it. -/
theorem serving : Serving P C (K := outboxCalls P C S) may admits BesideOutbox W₀ where
  beside _ _ hW := hW
  concern h _ _ _ hi := (committing h hi).concern

theorem safe_of_silent {α : Type} {p : Service α} (hp : p.Within Silent fun _ => True) :
    p.Safe (fun _ _ => True) (fun _ => Silent) (fun _ _ => True) (fun _ _ => True) [] :=
  (hp.safe fun _ _ _ _ ho => ho).mono (fun _ _ _ => trivial) fun _ _ _ => trivial

/-- **What is published was selected**, by a dispatcher that has not committed yet. -/
theorem publishing (h : System.Records W₀ pool T) {i : Nat} {u v : Trace} {task : TaskMessage}
    {r : Except Exn Unit} (ht : T i = u ++ ⟨.publish task, r⟩ :: v) :
    (pool.threads i).call? = some OutboxCall.dispatchOnce ∧ Dispatching P C u (.publish task) := by
  obtain ⟨c, hc⟩ := h.call (by simp [ht] : T i ≠ [])
  cases c with
  | submitEmailNotification correlationId context ticketId key =>
    exact (h.performed hc (fun _ _ _ _ _ _ _ => trivial) (safe_of_silent
      (silent_submitEmailNotification P ⟨C, S, correlationId⟩ context ticketId key)) ht).elim
  | submitTicketExport correlationId context status priority key =>
    exact (h.performed hc (fun _ _ _ _ _ _ _ => trivial) (safe_of_silent
      (silent_submitTicketExport P ⟨C, S, correlationId⟩ context status priority key)) ht).elim
  | dispatchOnce => exact ⟨hc, h.performed hc (fun _ _ _ _ _ _ => found) safe_dispatchOnce ht⟩

end Run

end Outbox

end Ticketing
