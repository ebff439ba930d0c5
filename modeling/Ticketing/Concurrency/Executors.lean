import Ticketing.Concurrency.Worker

/-!
# Executors at work

`executors` is the family of calls of `BackgroundJobExecutor.execute`: any number of workers, any
of which may start on any job at any time, so a task may be delivered more than once.

* `Meanwhile` is what the rest of the service does: it submits jobs and changes whatever else it
  likes, but for the jobs that exist and their deliveries, which only executors write. A mail
  thread goes on by itself, and may outlive the executor that started it (`Send.Goes`).
* `World.Untried`: the world before any executor. The jobs are as submitted, and nothing has been
  sent.
* `workers` is the pool under the choices an `Admission` leaves: with all of them, an executor may
  fail at any statement, be cancelled or die.

Results:
* `job_updated`, `delivery_updated`, `delivery_inserted`: what a commit makes of the two tables.
* `executors_ok`: adequacy for executors. For an outline and, for each executor, what it knows in
  each phase (`Worker.Follows`), the outline's invariant holds in every reachable pool.
-/

namespace Ticketing

open Lib (Prog Store System Outline)
open Lib.Outline (Triple Assertion post)

/-- The calls of `execute`. -/
def executors (P : Platform) (C : Settings) : Calls where
  Call := UUID
  Ret _ := Unit
  prog := BackgroundJobExecutor.execute P C

/-- A job as it is submitted. -/
structure BackgroundJob.Submitted (job : BackgroundJob) : Prop where
  status : job.status = .pending
  attemptCount : job.attemptCount = 0
  maxAttempts : 0 < job.maxAttempts
  result : job.result = none
  lastErrorCode : job.lastErrorCode = none
  startedAt : job.startedAt = none
  leaseExpiresAt : job.leaseExpiresAt = none
  completedAt : job.completedAt = none

/-- The same call of `send`, later. -/
structure Send.Goes (s s' : Send) : Prop where
  worker : s'.worker = s.worker
  message : s'.message = s.message
  status : s.status ≠ .running → s'.status = s.status

/-- The jobs have different ids. -/
def World.JobIds (W : World) : Prop := ((W.store.db .backgroundJobs).map BackgroundJob.id).Nodup

/-- What the rest of the service and the world do meanwhile. -/
structure Meanwhile (W W' : World) : Prop where
  wal : W'.store.wal = W.store.wal
  sessions : W'.store.sessions = W.store.sessions
  owner : W'.store.owner = W.store.owner
  absent : ∀ i k, W.store.owner k = some i → W.store.db.present k = false →
    W'.store.db.present k = false
  locks : ∀ i, World.Locks i W W'
  deliveries : W'.store.db .notificationDeliveries = W.store.db .notificationDeliveries
  jobs : ∃ new, W'.store.db .backgroundJobs = W.store.db .backgroundJobs ++ new ∧
    ∀ job ∈ new, job.Submitted
  jobIds : W.JobIds → W'.JobIds
  sends : List.Forall₂ Send.Goes W.sends W'.sends
  clock : W.clock ≤ W'.clock
  bodies : W'.bodies = W.bodies

/-- The world before any executor: the jobs are as submitted and nothing has been sent. -/
structure World.Untried (W : World) : Prop extends W.Quiet where
  jobs : ∀ job ∈ W.store.db .backgroundJobs, job.Submitted
  jobIds : W.JobIds
  deliveries : W.store.db .notificationDeliveries = []
  sends : W.sends = []

/-- The pool of executors under the choices `admits` leaves. -/
abbrev workers (P : Platform) (C : Settings) (admits : Admission) : System Op.Res Exn World :=
  (executors P C).system (fun _ _ => True) admits Meanwhile

theorem Send.Goes.refl (s : Send) : s.Goes s := ⟨rfl, rfl, fun _ => rfl⟩

theorem Send.Goes.trans {s s' s'' : Send} (h : s.Goes s') (h' : s'.Goes s'') : s.Goes s'' :=
  ⟨h'.worker.trans h.worker, h'.message.trans h.message, fun hs => by
    have hs' := h.status hs
    exact (h'.status (hs' ▸ hs)).trans hs'⟩

theorem Meanwhile.frame {W W' : World} (h : Meanwhile W W') (j : Nat) :
    Store.Frame schema j W.store W'.store where
  session := by rw [h.sessions]
  owner k := by rw [h.owner]
  absent := h.absent j
  wal := ⟨[], by rw [h.wal, List.append_nil], nofun⟩

theorem Meanwhile.locksOk {W W' : World} (h : Meanwhile W W') (hl : W.store.LocksOk schema) :
    W'.store.LocksOk schema := by
  intro i w hw k hk
  rw [h.sessions] at hw
  rw [h.owner]
  exact hl i w hw k hk

theorem Meanwhile.tick (W : World) (n : Nat) : Meanwhile W { W with clock := W.clock + n } where
  wal := rfl
  sessions := rfl
  owner := rfl
  absent _ _ _ h := h
  locks i := .refl i W
  deliveries := rfl
  jobs := ⟨[], (List.append_nil _).symm, fun _ h => absurd h List.not_mem_nil⟩
  jobIds h := h
  sends := List.forall₂_same.mpr fun s _ => .refl s
  clock := Nat.le_add_right _ _
  bodies := rfl

/-- Runs of executors under the choices `admitted`, where time may pass. -/
def workersPlayer (P : Platform) (C : Settings) {admits : Admission}
    (admitted : Nat → World → Op → Choice → Bool)
    (ha : ∀ i W o c, admitted i W o c = true → admits i W o c) :
    (workers P C admits).Player Choice Nat :=
  let base : (workers P C admits).Player Choice Empty :=
    (executors P C).playerOf Meanwhile (fun _ _ => true) (fun _ _ _ => trivial) admitted ha
  { may := base.may
    exec := base.exec
    moveEnv := fun n W => some { W with clock := W.clock + n }
    may_start := base.may_start
    exec_step := base.exec_step
    env_step := fun h => by
      cases h
      exact .tick _ _ }

/-- A database with one email notification to send. -/
def Db.submitted : Db
  | .backgroundJobs => [{
      id := 2
      tenantId := 1
      requestedByMembershipId := 1
      kind := .emailNotification
      status := .pending
      idempotencyKey := "key"
      requestHash := ""
      payload := [("recipient_email", .str "a@b.c"), ("subject", .str "s"), ("body", .str "b")]
      result := none
      attemptCount := 0
      maxAttempts := 3
      lastErrorCode := none
      lastErrorMessage := none
      startedAt := none
      leaseExpiresAt := none
      completedAt := none
      createdAt := 0
      updatedAt := 0 }]
  | _ => []

theorem World.untried_submitted : (World.fresh Db.submitted).Untried where
  toQuiet := World.quiet_fresh _
  jobs job hjob := by
    obtain rfl := List.mem_singleton.mp hjob
    exact ⟨rfl, rfl, by decide, rfl, rfl, rfl, rfl, rfl⟩
  jobIds := List.nodup_singleton _
  deliveries := rfl
  sends := rfl

/-! ## The rows an executor writes -/

section Rows

variable {W W' : World} {i : Nat} {ws : List Write}

/-- A table a transaction does not write to. -/
theorem committed_other (hc : Store.Committed schema i W.store W'.store)
    (hw : Stamped ws (W.store.sessions i).writes) {t : Table} (ht : ∀ w ∈ ws, t ≠ w.table) :
    W'.store.db t = W.store.db t := by
  rw [hc.db]
  exact Write.foldl_other (hw.table ht) _

/-- A transaction that updates a job, and writes none otherwise. -/
theorem job_updated {l c : BackgroundJob} (hc : Store.Committed schema i W.store W'.store)
    (hw : Stamped (.update .backgroundJobs l c :: ws) (W.store.sessions i).writes)
    (hws : ∀ w ∈ ws, Table.backgroundJobs ≠ w.table) :
    ∃ τ vs, (W.store.sessions i).writes = (Write.update .backgroundJobs l c).stamp τ :: vs ∧
      Stamped ws vs ∧
      W'.store.db .backgroundJobs = (W.store.db .backgroundJobs).map fun r : BackgroundJob =>
        if r.id = l.id then
          Table.patch .backgroundJobs l (Table.stampUpdate τ .backgroundJobs c) r
        else r := by
  obtain ⟨us, vs, hwrites, hus, hvs⟩ := (stamped_append [_]).mp hw
  obtain ⟨τ, rfl⟩ := stamped_singleton.mp hus
  refine ⟨τ, vs, hwrites, hvs, ?_⟩
  rw [hc.db]
  show (W.store.sessions i).writes.foldl (fun db w => w.apply db) W.store.db _ = _
  rw [hwrites, List.foldl_append, Write.foldl_other (hvs.table hws), List.foldl_cons,
    List.foldl_nil]
  refine (Write.apply_update .backgroundJobs l _ _).trans (List.map_congr_left fun r _ => ?_)
  have hsame : Table.isSameRow .backgroundJobs l r = decide (r.id = l.id) := rfl
  simp only [hsame, decide_eq_true_eq]

/-- The deliveries have different ids and are for different jobs. -/
structure DeliveryKeys (W : World) : Prop where
  ids : ((W.store.db .notificationDeliveries).map NotificationDelivery.id).Nodup
  jobs : ((W.store.db .notificationDeliveries).map NotificationDelivery.jobId).Nodup

theorem DeliveryKeys.of_eq (hk : DeliveryKeys W)
    (h : W'.store.db .notificationDeliveries = W.store.db .notificationDeliveries) :
    DeliveryKeys W' := ⟨by rw [h]; exact hk.ids, by rw [h]; exact hk.jobs⟩

theorem DeliveryKeys.unique (hk : DeliveryKeys W) {row row' : NotificationDelivery}
    (h : row ∈ W.store.db .notificationDeliveries)
    (h' : row' ∈ W.store.db .notificationDeliveries) (hj : row'.jobId = row.jobId) : row' = row :=
  List.inj_on_of_nodup_map hk.jobs h' h hj

/-- The deliveries of other jobs are not touched when one is changed. -/
theorem DeliveryKeys.others (hk : DeliveryKeys W) {row row' : NotificationDelivery}
    (hrow : row ∈ W.store.db .notificationDeliveries) (hj : row'.jobId = row.jobId)
    (h : ∀ r, r ∈ W'.store.db .notificationDeliveries ↔
      r = row' ∨ r ∈ W.store.db .notificationDeliveries ∧ r.id ≠ row.id)
    {r : NotificationDelivery} (hr : r.jobId ≠ row.jobId) :
    r ∈ W'.store.db .notificationDeliveries ↔ r ∈ W.store.db .notificationDeliveries := by
  rw [h r]
  constructor
  · rintro (rfl | hmem)
    · exact absurd hj hr
    · exact hmem.1
  · intro hmem
    refine .inr ⟨hmem, fun hid => hr ?_⟩
    rw [List.inj_on_of_nodup_map hk.ids hmem hrow hid]

/-- What the update from `l` to `c` makes of `row`. -/
structure Turns (l c row row' : NotificationDelivery) : Prop where
  id : row'.id = row.id
  jobId : row'.jobId = row.jobId
  status : row'.status = Table.changed l.status c.status row.status
  attemptCount : row'.attemptCount = Table.changed l.attemptCount c.attemptCount row.attemptCount

/-- A transaction that updates a delivery, and otherwise jobs. -/
theorem delivery_updated (ws : List Write) {l c row : NotificationDelivery} (hk : DeliveryKeys W)
    (hrow : row ∈ W.store.db .notificationDeliveries) (hl : l.id = row.id)
    (hc : Store.Committed schema i W.store W'.store)
    (hw : Stamped (ws ++ Write.updates .notificationDeliveries l c) (W.store.sessions i).writes)
    (hws : ∀ w ∈ ws, Table.notificationDeliveries ≠ w.table) :
    DeliveryKeys W' ∧ ∃ row', Turns l c row row' ∧ ∀ r,
      r ∈ W'.store.db .notificationDeliveries ↔
        r = row' ∨ r ∈ W.store.db .notificationDeliveries ∧ r.id ≠ row.id := by
  obtain ⟨us, vs, hwrites, hus, hvs⟩ := (stamped_append _).mp hw
  have hdb : W'.store.db .notificationDeliveries =
      vs.foldl (fun db w => w.apply db) W.store.db .notificationDeliveries := by
    rw [hc.db]
    show (W.store.sessions i).writes.foldl (fun db w => w.apply db) W.store.db _ = _
    rw [hwrites, List.foldl_append]
    exact Write.foldl_congr vs (Write.foldl_other (hus.table hws) _)
  unfold Write.updates at hvs
  split at hvs
  · rename_i heq
    rw [stamped_nil.mp hvs] at hdb
    refine ⟨hk.of_eq hdb, row, ⟨rfl, rfl, ?_, ?_⟩, fun r => ?_⟩
    · rw [heq, Table.changed, if_pos rfl]
    · rw [heq, Table.changed, if_pos rfl]
    · rw [hdb]
      constructor
      · intro hr
        by_cases hid : r.id = row.id
        · exact .inl (List.inj_on_of_nodup_map hk.ids hr hrow hid)
        · exact .inr ⟨hr, hid⟩
      · rintro (rfl | ⟨hr, -⟩)
        · exact hrow
        · exact hr
  · obtain ⟨τ, rfl⟩ := stamped_singleton.mp hvs
    refine ⟨⟨?_, ?_⟩, Table.patch .notificationDeliveries l
      (Table.stampUpdate τ .notificationDeliveries c) row, ⟨rfl, rfl, rfl, rfl⟩, fun r => ?_⟩
    · have hmap := Write.map_apply_update (t := .notificationDeliveries) (l := l)
        (c := Table.stampUpdate τ .notificationDeliveries c) W.store.db
        NotificationDelivery.id fun _ => rfl
      rw [hdb, List.foldl_cons, List.foldl_nil]
      exact hmap.symm ▸ hk.ids
    · have hmap := Write.map_apply_update (t := .notificationDeliveries) (l := l)
        (c := Table.stampUpdate τ .notificationDeliveries c) W.store.db
        NotificationDelivery.jobId fun _ => rfl
      rw [hdb, List.foldl_cons, List.foldl_nil]
      exact hmap.symm ▸ hk.jobs
    · rw [hdb, List.foldl_cons, List.foldl_nil]
      exact Write.mem_apply_update (t := .notificationDeliveries) hk.ids hrow
        (decide_eq_true hl.symm)

/-- A transaction that inserts a delivery. -/
theorem delivery_inserted {row : NotificationDelivery} (hk : DeliveryKeys W)
    (hnew : ∀ k ∈ Table.keys .notificationDeliveries row, W.store.db.present k = false)
    (hc : Store.Committed schema i W.store W'.store)
    (hw : Stamped [.insert .notificationDeliveries row] (W.store.sessions i).writes) :
    DeliveryKeys W' ∧ (∀ r ∈ W.store.db .notificationDeliveries, r.jobId ≠ row.jobId) ∧
      ∃ row', Turns row row row row' ∧ ∀ r, r ∈ W'.store.db .notificationDeliveries ↔
        r = row' ∨ r ∈ W.store.db .notificationDeliveries := by
  obtain ⟨τ, hwrites⟩ := stamped_singleton.mp hw
  have hdb : W'.store.db .notificationDeliveries = W.store.db .notificationDeliveries ++
      [Table.stampInsert τ .notificationDeliveries row] := by
    rw [hc.db]
    show (W.store.sessions i).writes.foldl (fun db w => w.apply db) W.store.db _ = _
    rw [hwrites]
    exact Write.apply_insert .notificationDeliveries _ _
  have hid : ∀ r ∈ W.store.db .notificationDeliveries, r.id ≠ row.id :=
    Db.present_row.mp (hnew (.row .notificationDeliveries row.id) List.mem_cons_self)
  have hjob : ∀ r ∈ W.store.db .notificationDeliveries, r.jobId ≠ row.jobId := fun r hr he =>
    Db.present_eq_false.mp (hnew (.deliveryJob row.jobId)
      (by simp [Table.keys, Table.uniques])) r hr
      (by simp [Key.table, Table.keys, Table.uniques, he])
  have nodup {f : NotificationDelivery → UUID}
      (hf : f (Table.stampInsert τ .notificationDeliveries row) = f row)
      (hn : ((W.store.db .notificationDeliveries).map f).Nodup)
      (hfresh : ∀ r ∈ W.store.db .notificationDeliveries, f r ≠ f row) :
      ((W'.store.db .notificationDeliveries).map f).Nodup := by
    rw [hdb, List.map_append, List.nodup_append]
    refine ⟨hn, List.nodup_singleton _, fun a ha b hb => ?_⟩
    obtain ⟨r, hr, rfl⟩ := List.mem_map.mp ha
    obtain rfl := List.mem_singleton.mp hb
    rw [hf]
    exact hfresh r hr
  refine ⟨⟨nodup rfl hk.ids hid, nodup rfl hk.jobs hjob⟩, hjob,
    Table.stampInsert τ .notificationDeliveries row, ⟨rfl, rfl, ?_, ?_⟩, fun r => ?_⟩
  · exact (if_pos rfl).symm
  · exact (if_pos rfl).symm
  · rw [hdb, List.mem_append, List.mem_singleton]
    exact or_comm

end Rows

/-- **Adequacy for executors.** -/
theorem executors_ok {T : WorldOutline} {admits : Admission} {P : Platform} {C : Settings}
    (D : ∀ i jobId, Follows T admits P C i jobId)
    (hstart : ∀ i jobId W, T.outline.inv W → W.Unused i → T.outline.Guar i W (W.accept i none) ∧
      (D i jobId).holds .fresh (W.accept i none))
    (hsettle : ∀ i W again, T.outline.inv W → T.outline.Guar i W (W.settle i again))
    (henv : ∀ W W', T.outline.inv W → Meanwhile W W' → T.inv W' ∧ ∀ j, T.frame j W W') :
    T.outline.Ok (workers P C admits)
      (fun i jobId => post (fun _ => (D i jobId).holds .ended) (D i jobId).Outcome)
      fun _ _ _ _ => True :=
  WorldOutline.adequate (C := executors P C) (fun i (jobId : UUID) => (D i jobId).At .fresh [])
    (fun i (jobId : UUID) _ => (D i jobId).holds .ended)
    (fun i (jobId : UUID) => (D i jobId).Outcome)
    (fun i jobId W hi hc => by
      obtain ⟨hg, hh⟩ := hstart i jobId W hi hc.2.1
      exact ⟨hg, hh, stamped_nil.mpr (WorldOutline.dropped_accept W i none).writes⟩)
    (fun i jobId _ => Follows.execute_triple)
    (fun i jobId r W hi _ => ⟨hsettle i W _ hi, trivial⟩) (fun _ _ _ _ _ _ _ => trivial)
    (fun i W hi => hsettle i W true hi)
    fun W W' hi h => by
      obtain ⟨hinv, hf⟩ := henv W W' hi h
      exact ⟨⟨h.locksOk hi.1, hinv⟩, fun j => ⟨h.frame j, hf j⟩⟩

end Ticketing
