import Ticketing.Concurrency.TenantCalls

/-!
# The jobs of a tenant

Submitting, looking up and executing background jobs is `Steady`, as every call of
`TenantCalls.lean`.

* A job's export is under the directory of its tenant: `exportKeyAt_objectKey` says that the path
  check of `export_result_path` lets the job's own key pass and gives it back, so that the file
  read is the tenant's.
* `ResultOf`: what an execution stores as the result of a job names the job's own object. `Dirty`:
  a delivery it has changed is its own.

Results:
* `steady_submitEmailNotification`, `steady_submitTicketExport`: submissions.
* `steady_exportResultPath`: the lookup of an export's file.
* `steady_execute`: an execution of one of the tenant's jobs, whatever it finds.
-/

namespace Ticketing

namespace Tenancy

variable {D : Tenancy}

/-! ## Background jobs -/

section Jobs

variable (P : Platform) (J : BackgroundJobService) {context : CurrentTenant}

open BackgroundJobService (exportCandidate exportKeyAt)

theorem steady_replay (job : BackgroundJob) (hash : String) :
    D.Steady (fun _ => True) (BackgroundJobService.replay job hash) := by
  unfold BackgroundJobService.replay
  split
  · exact .raise _
  · exact .ret trivial

theorem steady_jobByKey (ht : context.tenant.id = D.tenant) (membershipId : UUID) (key : String) :
    D.Steady (fun _ => True)
      (Service.select fun db => db.jobByKey context.tenant.id membershipId key) :=
  (steady_find (t := .backgroundJobs) fun _ hr he =>
    hr.1.mpr ((of_decide_eq_true he).1.trans ht)).mono fun _ _ => trivial

theorem steady_getOrCreateCorrelationId :
    D.Steady (fun _ => True) J.getOrCreateCorrelationId := by
  unfold BackgroundJobService.getOrCreateCorrelationId
  split
  · exact .ret trivial
  · exact .bind steady_uuid4 fun _ _ => .ret trivial

theorem steady_submit (ht : context.tenant.id = D.tenant) (kind : BackgroundJobKind)
    (payload : JsonObject) (key : String) :
    D.Steady (fun _ => True) (J.submit P context kind payload key) := by
  refine .bind (steady_jobByKey ht _ _) fun existing _ => ?_
  rcases existing with _ | existing
  · refine .bind steady_uuid4 fun jobId hjob => ?_
    refine .bind steady_uuid4 fun messageId hmessage => ?_
    refine .bind (steady_getOrCreateCorrelationId J) fun correlationId _ => ?_
    refine .bind (K := fun _ => True) (steady_exceptIntegrityError ?_ ?_) fun replayed _ => ?_
    · refine .bind (steady_insert (t := .backgroundJobs) (by decide)
        ⟨⟨iff_of_true (hjob _) ht, fun _ hresult => by cases hresult⟩, hjob _⟩) fun _ _ => ?_
      refine .bind (steady_insert (t := .outboxMessages) (by decide)
        ⟨⟨iff_of_true (hmessage _) ht, iff_of_true (hmessage _) (hjob _)⟩, hmessage _⟩)
        fun _ _ => ?_
      exact .bind steady_commit fun _ _ => .ret trivial
    · refine .bind (K := fun _ => True) ?_ fun _ _ => .ret trivial
      refine .bind steady_rollback fun _ _ => ?_
      refine .bind (steady_jobByKey ht _ _) fun raced _ => ?_
      rcases raced with _ | raced
      · exact .raise _
      · exact steady_replay raced _
    · rcases replayed with _ | replayed
      · exact .bind (steady_refresh (t := .backgroundJobs) (hjob _)) fun _ _ => .ret trivial
      · exact .ret trivial
  · exact steady_replay existing _

theorem steady_submitEmailNotification (ht : context.tenant.id = D.tenant)
    (hm : D.Member context.membership) (ticketId : UUID) (key : String) :
    D.Steady (fun _ => True) (J.submitEmailNotification P context ticketId key) := by
  refine .bind (steady_getTicket J.rbac ht hm ticketId) fun ticket _ => ?_
  split
  · exact .raise _
  · refine .bind (steady_customer ht _) fun customer _ => ?_
    split
    · exact .raise _
    · split
      · exact .raise _
      · exact steady_submit P J ht _ _ _

theorem steady_submitTicketExport (ht : context.tenant.id = D.tenant)
    (hm : D.Member context.membership) (status : Option TicketStatus)
    (priority : Option TicketPriority) (key : String) :
    D.Steady (fun _ => True) (J.submitTicketExport P context status priority key) :=
  .bind (steady_hasPermission J.rbac hm _) fun _ _ => steady_submit P J ht _ _ _

theorem steady_getJob (ht : context.tenant.id = D.tenant) (jobId : UUID) :
    D.Steady (D.Row .backgroundJobs) (BackgroundJobService.get context jobId) := by
  refine .bind (steady_find (t := .backgroundJobs) fun _ hr he =>
    hr.1.mpr ((of_decide_eq_true he).1.trans ht)) fun found hfound => ?_
  rcases found with _ | job
  · exact .raise _
  · dsimp only
    split
    · exact .raise _
    · exact .ret (hfound job rfl).1

theorem slash_not_mem_str (u : UUID) : '/' ∉ u.str.toList := by
  intro h
  rw [UUID.str, String.toList_ofList] at h
  rcases UUID.mem_groups h with h | h
  · cases h
  · exact absurd (UUID.mem_digits h) (by decide)

/-- The two segments of an export's key. -/
theorem segments_objectKey (job : BackgroundJob) :
    LocalAttachmentStorage.segments (BackgroundJobExecutor.objectKey job) =
      [job.tenantId.str, job.id.str ++ ".csv"] := by
  have hkey : (BackgroundJobExecutor.objectKey job).toList =
      ['/'].intercalate [job.tenantId.str.toList, (job.id.str ++ ".csv").toList] := by
    simp [BackgroundJobExecutor.objectKey, List.intercalate]
  have hfile : '/' ∉ (job.id.str ++ ".csv").toList := by
    rw [String.toList_append, List.mem_append]
    rintro (h | h)
    · exact slash_not_mem_str _ h
    · exact absurd h (by decide)
  rw [LocalAttachmentStorage.segments, hkey, List.splitOn_intercalate '/' _ (List.cons_ne_nil _ _)]
  · simp
  · intro l hl
    rcases List.mem_pair.mp hl with hl | hl
    · rw [hl]
      exact slash_not_mem_str _
    · rw [hl]
      exact hfile

/-- A long segment is no step of a path that leads up. -/
theorem segment_of_length {s : String} (h : 2 < s.toList.length) : s ≠ "" ∧ s ≠ "." ∧ s ≠ ".." := by
  refine ⟨?_, ?_, ?_⟩
  all_goals
    rintro rfl
    exact absurd h (by decide)

/-- The path of an export is two steps below the root. -/
theorem exportCandidate_objectKey {root : Lib.Path} (hroot : resolve root = root)
    (job : BackgroundJob) : exportCandidate root (BackgroundJobExecutor.objectKey job) =
      [job.id.str ++ ".csv", job.tenantId.str] ++ root := by
  have htenant : 2 < job.tenantId.str.toList.length := by
    rw [UUID.length_str]
    decide
  have hfile : 2 < (job.id.str ++ ".csv").toList.length := by
    rw [String.toList_append, List.length_append, UUID.length_str]
    omega
  have hrelative : (BackgroundJobExecutor.objectKey job).toList.head? ≠ some '/' := by
    rw [BackgroundJobExecutor.objectKey, String.toList_append, String.toList_append,
      String.toList_append, List.append_assoc, List.append_assoc]
    intro h
    rcases hs : job.tenantId.str.toList with _ | ⟨c, rest⟩
    · rw [hs] at htenant
      cases htenant
    · rw [hs] at h
      refine slash_not_mem_str job.tenantId ?_
      rw [hs, ← Option.some.inj h]
      exact .head _
  have hsegs : ∀ s ∈ [job.id.str ++ ".csv", job.tenantId.str], s ≠ "" ∧ s ≠ "." ∧ s ≠ ".." := by
    intro s hs
    rcases List.mem_pair.mp hs with rfl | rfl
    · exact segment_of_length hfile
    · exact segment_of_length htenant
  rw [exportCandidate, segments_objectKey, if_neg hrelative]
  exact (LocalAttachmentStorage.resolve_append hsegs root).trans (by rw [hroot])

/-- A file of the exports is found under the key it was written with. -/
theorem exportKeyAt_objectKey {root : Lib.Path} (hroot : resolve root = root)
    (job : BackgroundJob) : exportKeyAt root (exportCandidate root
      (BackgroundJobExecutor.objectKey job)) = BackgroundJobExecutor.objectKey job := by
  have hlength : ∀ l : Lib.Path, (l ++ root).length - root.length = l.length := by simp
  rw [exportCandidate_objectKey hroot, exportKeyAt, hlength, List.take_left]
  show String.intercalate "/" [job.tenantId.str, job.id.str ++ ".csv"] = _
  rw [String.intercalate_cons_cons, String.intercalate_singleton, BackgroundJobExecutor.objectKey,
    String.append_assoc, String.append_assoc, String.append_assoc]

theorem ownsExport_objectKey {job : BackgroundJob} (h : job.tenantId = D.tenant) :
    D.ownsExport (BackgroundJobExecutor.objectKey job) = true := by
  rw [ownsExport, List.isPrefixOf_iff_prefix, BackgroundJobExecutor.objectKey, h]
  simp only [String.toList_append]
  exact (List.prefix_append _ _).trans (List.prefix_append _ _)

theorem steady_exportResultPath {root : Lib.Path} (hroot : resolve root = root)
    (ht : context.tenant.id = D.tenant) (jobId : UUID) :
    D.Steady (fun _ => True) (BackgroundJobService.exportResultPath root context jobId) := by
  refine .bind (steady_getJob ht jobId) fun job hrow => ?_
  dsimp only
  split
  · exact .raise _
  split
  · rename_i objectKey hkey
    obtain ⟨result, hresult, hkey⟩ := Option.map_eq_some_iff.mp hkey
    obtain rfl := hrow.fits.2 result hresult objectKey hkey
    split
    · exact .raise _
    · rw [exportKeyAt_objectKey hroot]
      refine .bind (steady_perform (o := Op.isExport _)
        (ownsExport_objectKey (hrow.fits.1.mp hrow.mine)) fun _ _ h => h) fun there _ => ?_
      split
      · exact .raise _
      · exact .ret trivial
  · exact .raise _

end Jobs

/-! ## The executor -/

section Executor

variable (P : Platform) (C : Settings) {job : BackgroundJob}

open BackgroundJobExecutor

theorem steady_claimJob {jobId : UUID} (hid : D.own .backgroundJobs jobId = true) :
    D.Steady (fun claimed => ∀ job ∈ claimed, D.Row .backgroundJobs job)
      (BackgroundJobExecutor.claim C jobId) := by
  refine .bind steady_now fun now _ => ?_
  refine .bind (steady_findForUpdate (t := .backgroundJobs) fun r _ => mine_of_id hid r)
    fun found hfound => ?_
  have hnone : D.Steady (fun claimed => ∀ job ∈ claimed, D.Row .backgroundJobs job)
      (do Service.rollback; pure none) :=
    .bind steady_rollback fun _ _ => .ret fun _ h => by cases h
  rcases found with _ | job
  · exact hnone
  have hrow := (hfound job rfl).1
  dsimp only
  split
  · exact hnone
  split
  · exact .bind steady_rollback fun _ _ => .raise _
  split
  · refine .bind (steady_update (t := .backgroundJobs) (by decide) hrow rfl hrow.fits) fun _ _ => ?_
    exact .bind steady_commit fun _ _ => .ret fun _ h => by cases h
  · refine .bind (steady_update (t := .backgroundJobs) (by decide) hrow rfl hrow.fits) fun _ _ => ?_
    refine .bind steady_commit fun _ _ => .ret fun _ h => ?_
    cases h
    exact ⟨hrow.fits, hrow.mine⟩

/-- The object of a result is the job's own. -/
def ResultOf (job : BackgroundJob) (result : JsonObject) : Prop :=
  ∀ key, JsonObject.get result "object_key" = .str key → key = objectKey job

/-- What a flush finds changed of a delivery. -/
def Dirty (D : Tenancy) (delivery : NotificationDelivery × NotificationDelivery) : Prop :=
  D.Row .notificationDeliveries delivery.1 ∧ delivery.2.id = delivery.1.id ∧
    D.Fits .notificationDeliveries delivery.2

theorem steady_markSucceeded (hrow : D.Row .backgroundJobs job) {result : JsonObject}
    (hresult : ResultOf job result)
    {delivery : Option (NotificationDelivery × NotificationDelivery)}
    (hdelivery : ∀ x ∈ delivery, D.Dirty x) :
    D.Steady (fun _ => True) (markSucceeded job result delivery) := by
  refine .bind steady_now fun now _ => ?_
  have hfits : D.Fits .backgroundJobs (succeeded job result now) :=
    ⟨hrow.fits.1, fun x hx key hkey => by cases hx; exact hresult key hkey⟩
  refine .bind (steady_update (t := .backgroundJobs) (by decide) hrow rfl hfits) fun _ _ => ?_
  rcases delivery with _ | ⟨loaded, current⟩
  · exact steady_commit
  · obtain ⟨hloaded, hid, hcurrent⟩ := hdelivery _ rfl
    exact .bind (steady_update (t := .notificationDeliveries) (by decide) hloaded hid hcurrent)
      fun _ _ => steady_commit

theorem steady_markFailed (hrow : D.Row .backgroundJobs job) (code message : String) :
    D.Steady (fun _ => True) (markFailed job code message) := by
  refine .bind steady_now fun now _ => ?_
  exact .bind (steady_update (t := .backgroundJobs) (by decide) hrow rfl hrow.fits)
    fun _ _ => steady_commit

theorem steady_markRetryableFailure (hrow : D.Row .backgroundJobs job) (code message : String) :
    D.Steady (fun _ => True) (markRetryableFailure job code message) := by
  unfold markRetryableFailure
  split
  · refine .bind steady_now fun now _ => ?_
    refine .bind (steady_update (t := .backgroundJobs) (by decide) hrow rfl hrow.fits) fun _ _ => ?_
    exact .bind steady_commit fun _ _ => .ret trivial
  · refine .bind (steady_update (t := .backgroundJobs) (by decide) hrow rfl hrow.fits) fun _ _ => ?_
    exact .bind steady_commit fun _ _ => .ret trivial

theorem steady_handleFailure (hrow : D.Row .backgroundJobs job) (e : Exn) :
    D.Steady (fun _ => True) (handleFailure P C job e) := by
  unfold handleFailure
  split
  · exact steady_markFailed hrow _ _
  · split
    · refine .bind (steady_markRetryableFailure hrow _ _) fun retried _ => ?_
      split
      · exact .raise _
      · exact .ret trivial
    · exact .raise _

theorem steady_findDelivery (hrow : D.Row .backgroundJobs job) :
    D.Steady (fun found => ∀ x ∈ found, D.Row .notificationDeliveries x)
      (Service.selectForUpdate .notificationDeliveries (findDelivery job.id)) :=
  (steady_findForUpdate (t := .notificationDeliveries) fun _ hr he =>
    hr.1.mpr (by rw [of_decide_eq_true he]; exact hrow.mine)).mono fun _ h x hx => (h x hx).1

theorem row_reload (added : Bool) {delivery row : NotificationDelivery}
    (hdelivery : D.Row .notificationDeliveries delivery)
    (hrow : D.Row .notificationDeliveries row) :
    D.Row .notificationDeliveries (reload added delivery row) := by
  unfold reload
  split_ifs
  · exact ⟨hdelivery.fits, hdelivery.mine⟩
  · exact hdelivery
  · exact hrow

/-- The result of a notification names no object. -/
theorem resultOf_sent (job : BackgroundJob) : ResultOf job (sentResult C) := by
  intro key h
  have hget : JsonObject.get (sentResult C) "object_key" = .null := by
    cases h : C.emailBackend <;> rw [sentResult, h] <;> decide
  rw [hget] at h
  cases h

theorem steady_send (message : EmailMessage) : D.Steady (fun _ => True) (send message) :=
  .bind (steady_perform (o := Op.startSend message) trivial fun _ _ h => h) fun _ _ =>
    steady_perform (o := Op.awaitSend) trivial fun _ _ h => h

theorem steady_deliver (hrow : D.Row .backgroundJobs job) {added : Bool}
    {delivery : NotificationDelivery} (hdelivery : D.Row .notificationDeliveries delivery)
    (message : EmailMessage) : D.Steady (fun _ => True)
      (deliver P C job added delivery message) := by
  refine .bind (K := fun _ => True) (.handle (steady_send message) fun e => ?_) fun _ _ => ?_
  · dsimp only
    split
    · refine .bind (steady_findDelivery hrow) fun found hfound => ?_
      rcases found with _ | row
      · exact .bind steady_commit fun _ _ => .raise e
      · have hreload := row_reload added hdelivery (hfound row rfl)
        refine .bind (steady_update (t := .notificationDeliveries) (by decide) hreload rfl
          hreload.fits) fun _ _ => ?_
        exact .bind steady_commit fun _ _ => .raise e
    · exact .raise e
  · refine .bind (steady_findDelivery hrow) fun found hfound => ?_
    rcases found with _ | row
    · exact .raise _
    · have hreload := row_reload added hdelivery (hfound row rfl)
      refine .bind steady_now fun now _ => ?_
      refine steady_markSucceeded hrow (resultOf_sent C job) fun x hx => ?_
      cases hx
      exact ⟨hreload, rfl, hreload.fits⟩

theorem steady_payloadString (job : BackgroundJob) (key : String) :
    D.Steady (fun _ => True) (payloadString job key) := by
  unfold payloadString
  split
  · split
    · exact .raise _
    · exact .ret trivial
  · exact .raise _

theorem steady_executeEmail (hrow : D.Row .backgroundJobs job) :
    D.Steady (fun _ => True) (executeEmail P C job) := by
  refine .bind (steady_payloadString job _) fun recipient _ => ?_
  refine .bind (steady_payloadString job _) fun subject _ => ?_
  refine .bind (steady_payloadString job _) fun body _ => ?_
  refine .bind (steady_findDelivery hrow) fun found hfound => ?_
  rcases found with _ | delivery
  · refine .bind steady_uuid4 fun id hid => ?_
    have hnew : D.Row .notificationDeliveries (newDelivery job recipient id) :=
      ⟨⟨iff_of_true (hid _) hrow.mine, rfl⟩, hid _⟩
    refine .bind (steady_insert (t := .notificationDeliveries) (by decide) hnew) fun _ _ => ?_
    exact .bind steady_commit fun _ _ => steady_deliver P C hrow hnew _
  · have hdelivery := hfound delivery rfl
    have hupdate {current : NotificationDelivery} (hid : current.id = delivery.id)
        (hfits : D.Fits .notificationDeliveries current) :
        D.Steady (fun _ => True) (Service.update .notificationDeliveries delivery current) :=
      steady_update (t := .notificationDeliveries) (by decide) hdelivery hid hfits
    dsimp only
    split
    · exact steady_markSucceeded hrow (resultOf_sent C job) fun _ h => by cases h
    · refine .bind (hupdate rfl hdelivery.fits) fun _ _ => ?_
      exact .bind steady_commit fun _ _ => .raise _
    · refine .bind (hupdate rfl hdelivery.fits) fun _ _ => ?_
      exact .bind steady_commit fun _ _ => .raise _
    · refine .bind (hupdate rfl hdelivery.fits) fun _ _ => ?_
      have hresent : D.Row .notificationDeliveries (resent delivery) :=
        ⟨hdelivery.fits, hdelivery.mine⟩
      exact .bind steady_commit fun _ _ => steady_deliver P C hrow hresent _

theorem steady_exportFilter {α : Type} (value : Scalar) (message : String)
    (parse : String → Option α) :
    D.Steady (fun _ => True) (exportFilter value message parse) := by
  unfold exportFilter
  split
  · exact .ret trivial
  · split
    · exact .ret trivial
    · exact .raise _
  · exact .raise _

theorem resultOf_export (job : BackgroundJob) (rows : Nat) :
    ResultOf job [("object_key", .str (objectKey job)), ("row_count", .int rows),
      ("content_type", .str "text/csv")] := by
  intro key h
  exact (Scalar.str.inj h).symm

theorem steady_executeExport (hrow : D.Row .backgroundJobs job) :
    D.Steady (fun _ => True) (executeExport C job) := by
  have htenant : job.tenantId = D.tenant := hrow.fits.1.mp hrow.mine
  refine .bind (steady_exportFilter _ _ _) fun status _ => ?_
  refine .bind (steady_exportFilter _ _ _) fun priority _ => ?_
  refine .bind (steady_exportFilter _ _ _) fun creator _ => ?_
  refine .bind (steady_select fun db db' h => ?_) fun tickets _ => ?_
  · rw [exportedTickets, exportedTickets, h.filter (t := .tickets) fun _ hr he =>
      hr.mpr ((of_decide_eq_true he).1.trans htenant)]
  · dsimp only
    split
    · exact .raise _
    · refine .bind (K := fun _ => True) (.bind steady_uuid4 fun _ _ => ?_) fun _ _ => ?_
      · exact steady_perform (o := Op.replaceExport _ _) (ownsExport_objectKey htenant)
          fun _ _ h => h
      · exact steady_markSucceeded hrow (resultOf_export job _) fun _ h => by cases h

theorem steady_execute {jobId : UUID} (hid : D.own .backgroundJobs jobId = true) :
    D.Steady (fun _ => True) (execute P C jobId) := by
  refine .bind (steady_claimJob C hid) fun claimed hclaimed => ?_
  rcases claimed with _ | job
  · exact .ret trivial
  have hrow := hclaimed job rfl
  refine .handle ?_ fun e => steady_handleFailure P C hrow e
  unfold executeKind
  split
  · exact steady_executeEmail P C hrow
  · exact steady_executeExport C hrow

end Executor

end Tenancy

end Ticketing
