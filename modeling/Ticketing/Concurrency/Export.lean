import Ticketing.Concurrency.Pages
import Ticketing.Services.BackgroundJob
import Ticketing.Tasks.Execution

/-!
# An export and the listing it is of

A member submits an export; later a worker executes it. Both run alone here (`Alone.lean`).

* `exportedTickets`, of `Tasks/Execution.lean`, is what `_execute_export` selects: the tickets of
  the filters and of the scope in the job's payload, the oldest first, up to one more than it may
  have.
* `Exported`: the job has succeeded with the file and its number of rows; or, where that is too
  much, it has failed with `ticket_export_too_large` and there is no file.

Results:
* `submitted`: the job a submission returns holds the filters and the scope of its caller.
* `exportedTickets_eq`: what is selected is the listing backwards.
* `run_execute`: what the execution of a job leaves.
* `export_agrees_with_listing`: the file holds what the pages of the listing hold, the oldest
  ticket first.

Assumed: nothing disturbs the two runs, and the tickets are the same at the submission, at the
execution and whenever a page is asked for. What else happens between these moments is open.
-/

namespace Ticketing

open Lib (Prog)
open TicketService (listed createdKey)

/-! ## Submitting -/

section Submit

variable {P : Platform} {B : BackgroundJobService} {context : CurrentTenant}
variable {σ : Type} {exec : (o : Op) → σ → Option (Except Exn o.Res × σ)} {s s' : σ}
variable {submission : BackgroundJobSubmission} {job : BackgroundJob} {key hash : String}

theorem replayed_of_replay
    (h : (BackgroundJobService.replay job hash).run exec s = some (.ok submission, s')) :
    submission.replayed = true := by
  unfold BackgroundJobService.replay at h
  split at h <;> cases h
  rfl

theorem replayed_of_replayRaced
    (h : (BackgroundJobService.replayRaced context key hash).run exec s =
      some (.ok submission, s')) : submission.replayed = true := by
  obtain ⟨-, s₁, -, h⟩ := Prog.run_bind_ok h
  obtain ⟨raced, s₂, -, h⟩ := Prog.run_bind_ok h
  cases raced with
  | none => cases h
  | some raced => exact replayed_of_replay h

theorem quiet_getOrCreateCorrelationId {ρ : Exn → Prop} :
    Service.Quiet ρ B.getOrCreateCorrelationId := by
  unfold BackgroundJobService.getOrCreateCorrelationId
  split
  · trivial
  · exact .bind Service.quiet_uuid4 fun _ => trivial

/-- A new job is the one the submission added, as the server stamped it. -/
theorem submitted {kind : BackgroundJobKind} {payload : JsonObject} {i random : Nat} {W W' : World}
    {draws draws' : List UUID} (hW : Alone i [] W)
    (h : (B.submit P context kind payload key).run (alone i random) (W, draws) =
      some (.ok ⟨job, false⟩, (W', draws'))) :
    ∃ id τ, job = Table.stampInsert τ .backgroundJobs (B.newJob context kind payload key
      (BackgroundJobService.requestHash P kind payload) id) := by
  obtain ⟨existing, s₁, hselect, h⟩ := Prog.run_bind_ok h
  obtain ⟨W₁, hselected, hW₁, -⟩ := hW.run_select random draws fun db =>
    db.jobByKey context.tenant.id context.membership.id key
  cases hselected.symm.trans hselect
  split at h
  · cases replayed_of_replay h
  · obtain ⟨id, ⟨W₂, draws₂⟩, hid, h⟩ := Prog.run_bind_ok h
    obtain ⟨messageId, ⟨W₃, draws₃⟩, hmessageId, h⟩ := Prog.run_bind_ok h
    obtain ⟨correlationId, ⟨W₄, draws₄⟩, hcorrelationId, h⟩ := Prog.run_bind_ok h
    obtain ⟨hW₂, -⟩ := run_reading (@Service.quiet_uuid4 fun _ => True) hW₁ hid
    obtain ⟨hW₃, -⟩ := run_reading (@Service.quiet_uuid4 fun _ => True) hW₂ hmessageId
    obtain ⟨hW₄, -⟩ :=
      run_reading (@quiet_getOrCreateCorrelationId B fun _ => True) hW₃ hcorrelationId
    obtain ⟨added, ⟨W₅, draws₅⟩, hadded, h⟩ := Prog.run_bind_ok h
    rcases Prog.run_handle_ok hadded with hadded | ⟨e, ⟨W₆, draws₆⟩, -, hraced⟩
    · obtain ⟨⟨⟩, s₆, hjob, hadded⟩ := Prog.run_bind_ok hadded
      obtain ⟨⟨⟩, s₇, hmessage, hadded⟩ := Prog.run_bind_ok hadded
      obtain ⟨⟨⟩, s₈, hcommit, hadded⟩ := Prog.run_bind_ok hadded
      obtain ⟨τ, W₆, rfl, hW₆, hs₆, hfresh⟩ := hW₄.write_of_run hjob
      obtain ⟨τ', W₇, rfl, hW₇, hs₇, -⟩ := hW₆.write_of_run hmessage
      obtain ⟨W₈, hcommitted, hW₈, hdb, -⟩ := hW₇.run_commit random draws₄
      cases hcommitted.symm.trans hcommit
      cases hadded
      have hrows : W₅.store.db .backgroundJobs = W₄.store.db .backgroundJobs ++
          [Table.stampInsert τ .backgroundJobs (B.newJob context kind payload key
            (BackgroundJobService.requestHash P kind payload) id)] := by
        rw [hdb, hs₇.db, hs₆.db]
        rfl
      have hids := Db.present_row.mp (hfresh (.row .backgroundJobs id) List.mem_cons_self)
      obtain ⟨W₉, hrefreshed, -⟩ := @run_refresh i random W₅ draws₄ hW₈ .backgroundJobs _ _ hrows
        hids
      obtain ⟨job', s₉, hrefresh, hret⟩ := Prog.run_bind_ok h
      cases hret
      have := hrefreshed.symm.trans hrefresh
      cases this
      exact ⟨id, τ, rfl⟩
    · split at hraced
      · obtain ⟨raced, s₇, hraced, hret⟩ := Prog.run_bind_ok hraced
        cases hret
        have := replayed_of_replayRaced hraced
        cases h
        cases this
      · cases hraced

end Submit

/-! ## Executing -/

open BackgroundJobExecutor (claim claimed succeeded failed executeExport exportFilter
  exportedTickets exportHeader exportRow objectKey markSucceeded markFailed)

/-- `row` is a job that was submitted as `job`, and that a worker may claim. -/
structure Claimable (job row : BackgroundJob) (now : Time) : Prop where
  id : row.id = job.id
  tenantId : row.tenantId = job.tenantId
  kind : row.kind = job.kind
  payload : row.payload = job.payload
  open_ : row.status.terminal = false
  unleased : row.leased now = none
  attempts : row.attemptCount < row.maxAttempts

section Execute

variable {C : Settings} {i random : Nat} {W : World} {draws : List UUID} {jobId : UUID}
variable {l c row : BackgroundJob}

/-- An update of a job adds no unique value. -/
theorem fresh_update_job : (Write.update .backgroundJobs l c).fresh = [] :=
  List.filter_eq_nil_iff.mpr fun k hk => by
    rw [decide_eq_true_eq, not_not]
    exact hk

/-- A job is updated. -/
theorem run_update_job (h : Alone i [] W) (hget : W.store.db.get .backgroundJobs jobId = some row)
    (hid : row.id = l.id) (hne : l ≠ c) :
    ∃ τ W₁ W₂, (Service.update .backgroundJobs l c).run (alone i random) (W, draws) =
        some (.ok (), (W₁, draws)) ∧
      Service.commit.run (alone i random) (W₁, draws) = some (.ok (), (W₂, draws)) ∧
      Alone i [] W₂ ∧ Beside none W W₂ ∧ W₂.store.db .tickets = W.store.db .tickets ∧
      W₂.store.db.get .backgroundJobs jobId =
        some (Table.patch .backgroundJobs l (Table.stampUpdate τ .backgroundJobs c) row) := by
  obtain ⟨τ, W₁, hwrite, hW₁, hs₁⟩ := h.run_write random draws
    (w := .update .backgroundJobs l c) (by rw [fresh_update_job]; nofun)
  obtain ⟨W₂, hcommit, hW₂, hdb, hb⟩ := hW₁.run_commit random draws
  refine ⟨τ, W₁, W₂, ?_, hcommit, hW₂, hs₁.beside.trans hb, ?_, ?_⟩
  · rw [Service.update, if_neg hne]
    exact hwrite
  · rw [hdb, hs₁.db]
    exact @Write.apply_other (.update .backgroundJobs l (Table.stampUpdate τ .backgroundJobs c)) _
      .tickets nofun
  · rw [hdb, hs₁.db]
    exact Db.get_apply_update hget (decide_eq_true hid)

/-- A job is claimed. -/
theorem run_claim {job : BackgroundJob} (h : Alone i [] W)
    (hget : W.store.db.get .backgroundJobs job.id = some row) (hrow : Claimable job row W.clock) :
    ∃ τ W', (claim C job.id).run (alone i random) (W, draws) =
        some (.ok (some (claimed C row W.clock)), (W', draws)) ∧
      Alone i [] W' ∧ W'.exports = W.exports ∧ W'.store.db .tickets = W.store.db .tickets ∧
      W'.store.db.get .backgroundJobs job.id = some (Table.patch .backgroundJobs row
        (Table.stampUpdate τ .backgroundJobs (claimed C row W.clock)) row) := by
  obtain ⟨W₁, hlock, hW₁, hs₁⟩ := h.selectForUpdate (c := { random }) rfl .backgroundJobs
    fun db => db.get .backgroundJobs job.id
  rw [List.foldl_nil, hget] at hlock
  have hne : row ≠ claimed C row W.clock := fun he =>
    absurd (congrArg BackgroundJob.attemptCount he) (Nat.lt_succ_self _).ne
  obtain ⟨τ, W₂, W₃, hupdate, hcommit, hW₃, hb, htickets, hget₃⟩ :=
    @run_update_job i random W₁ draws job.id row _ row hW₁ (by rw [hs₁.db]; exact hget) rfl hne
  refine ⟨τ, W₃, ?_, hW₃,
    (hb.parts .exports nofun).trans (hs₁.beside.parts .exports nofun),
    by rw [htickets, hs₁.db], hget₃⟩
  show Prog.run _ (Prog.bind (Service.selectForUpdate _ _) _) (W, draws) = _
  have hlocked : (Service.selectForUpdate .backgroundJobs fun db =>
      db.get .backgroundJobs job.id).run (alone i random) (W, draws) =
        some (.ok (some row), (W₁, draws)) := by
    show Prog.run _ (Prog.perform _) _ = _
    rw [Prog.run_perform, alone_eq draws hlock (by simp)]
  rw [Prog.run_bind, hlocked]
  simp only [hrow.open_, Bool.false_eq_true, if_false, hrow.unleased, if_neg hrow.attempts.not_ge]
  show Prog.run _ (Prog.bind (Service.update _ _ _) _) (W₁, draws) = _
  rw [Prog.run_bind, hupdate]
  show Prog.run _ (Prog.bind Service.commit _) (W₂, draws) = _
  rw [Prog.run_bind, hcommit]
  rfl

end Execute

/-! ## The tickets of an export -/

/-- The listing by status and priority alone. -/
def TicketListOptions.only (status : Option TicketStatus) (priority : Option TicketPriority)
    (limit : Nat) (limit_pos : 1 ≤ limit) : TicketListOptions where
  status
  assigneeMembershipId := none
  priority
  createdFrom := none
  createdTo := none
  keyword := none
  cursor := none
  limit
  limit_pos

section Tickets

variable {C : Settings} {context : CurrentTenant} {status : Option TicketStatus}
variable {priority : Option TicketPriority} {canReadAll : Bool} {job : BackgroundJob}

/-- What an export does with the tickets it selected. -/
def exportTickets (C : Settings) (job : BackgroundJob) (tickets : List Ticket) : Service Unit := do
  if C.exportMaxRows < tickets.length then
    throw (.permanentJob "ticket_export_too_large"
      s!"Ticket export exceeds the {C.exportMaxRows}-row limit")
  BackgroundJobExecutor.writeExport (objectKey job) tickets
  markSucceeded job [("object_key", .str (objectKey job)), ("row_count", .int tickets.length),
    ("content_type", .str "text/csv")] none

/-- The filters of a payload are those of its submission. -/
theorem executeExport_eq
    (hpayload : job.payload =
      BackgroundJobService.exportPayload context status priority canReadAll) :
    executeExport C job =
      (Service.select (exportedTickets C job status priority
        (if canReadAll then none else some context.membership.id))).bind (exportTickets C job) := by
  have hstatus : exportFilter (job.payload.get "status") "Invalid export status"
      TicketStatus.ofValue = .ret status := by
    rw [hpayload]
    cases status with
    | none => rfl
    | some status =>
      show exportFilter (.str status.value) _ _ = _
      simp only [exportFilter, TicketStatus.ofValue_value]
      rfl
  have hpriority : exportFilter (job.payload.get "priority") "Invalid export priority"
      TicketPriority.ofValue = .ret priority := by
    rw [hpayload]
    cases priority with
    | none => rfl
    | some priority =>
      show exportFilter (.str priority.value) _ _ = _
      simp only [exportFilter, TicketPriority.ofValue_value]
      rfl
  have hcreator : exportFilter (job.payload.get "creator_membership_id") "Invalid export creator"
      UUID.parse = .ret (if canReadAll then none else some context.membership.id) := by
    rw [hpayload]
    cases canReadAll with
    | true => rfl
    | false =>
      show exportFilter (.str context.membership.id.str) _ _ = _
      simp only [exportFilter, UUID.parse_str]
      rfl
  rw [executeExport, hstatus, hpriority, hcreator]
  rfl

/-- **The tickets of an export are the listing backwards**, up to one more than it may have. -/
theorem exportedTickets_eq (P : Platform) {limit : Nat} (hl : 1 ≤ limit) {db : Db}
    (htenant : job.tenantId = context.tenant.id)
    (hkeys :
      ((listed P context (.only status priority limit hl) canReadAll db).map createdKey).Nodup) :
    exportedTickets C job status priority
      (if canReadAll then none else some context.membership.id) db =
      (Lib.Keyset.after createdKey none
        (listed P context (.only status priority limit hl) canReadAll db)).reverse.take
          (C.exportMaxRows + 1) := by
  rw [← Lib.Keyset.insertionSort_eq_reverse hkeys, exportedTickets, listed,
    TicketService.insertionSort_congr fun a b => TicketService.createdOrder_iff a b]
  congr 2
  refine List.filter_congr fun t _ => decide_eq_decide.mpr ?_
  rw [Db.Selected, htenant]
  simp only [TicketService.filtersOf, TicketListOptions.only, Option.all_none, and_true]
  tauto

end Tickets

/-! ## How an export ends -/

/-- With a file of the tickets, or failed where they are too many. -/
def Exported (C : Settings) (job : BackgroundJob) (tickets : List Ticket) (W W' : World) : Prop :=
  ∃ row, W'.store.db.get .backgroundJobs job.id = some row ∧
    if tickets.length ≤ C.exportMaxRows then
      row.status = .succeeded ∧
      (∃ result, row.result = some result ∧ result.get "row_count" = .int tickets.length) ∧
      W'.exports = Function.update W.exports (objectKey job)
        (some (exportHeader :: tickets.map exportRow))
    else
      row.status = .failed ∧ row.lastErrorCode = some "ticket_export_too_large" ∧
      W'.exports = W.exports

section Runs

variable {P : Platform} {C : Settings} {i random : Nat} {W : World} {tmp : UUID}
variable {draws : List UUID} {job row : BackgroundJob} {tickets : List Ticket}

/-- A running job's row takes over every change of its status, result and error. -/
theorem patch_running {current : BackgroundJob} {τ : Time} :
    let row' : BackgroundJob := Table.patch .backgroundJobs job
      (Table.stampUpdate τ .backgroundJobs current) row
    (job.status ≠ current.status → row'.status = current.status) ∧
    (job.result = row.result → row'.result = current.result) ∧
    (job.lastErrorCode = row.lastErrorCode → row'.lastErrorCode = current.lastErrorCode) := by
  have column {α : Type} [DecidableEq α] {l c r : α} (h : l = r) : Table.changed l c r = c := by
    subst h
    unfold Table.changed
    split
    · assumption
    · rfl
  exact ⟨fun h => if_neg h, column, column⟩

/-- The tickets are written to the file, the job has succeeded. -/
theorem run_exportTickets (h : Alone i [] W)
    (hget : W.store.db.get .backgroundJobs job.id = some row)
    (hid : row.id = job.id) (hresult : job.result = row.result) (hrunning : job.status = .running)
    (hl : tickets.length ≤ C.exportMaxRows) :
    ∃ W', (exportTickets C job tickets).run (alone i random) (W, tmp :: draws) =
      some (.ok (), (W', draws)) ∧ Exported C job tickets W W' := by
  let result : JsonObject := [("object_key", .str (objectKey job)),
    ("row_count", .int tickets.length), ("content_type", .str "text/csv")]
  let W₁ : World := { W with
    exports := Function.update W.exports (objectKey job)
      (some (exportHeader :: tickets.map exportRow)) }
  have hW₁ : Alone i [] W₁ := ⟨⟨h.usable, h.writes⟩, h.free⟩
  have hne : job.status ≠ (succeeded job result W.clock).status := by rw [hrunning]; nofun
  obtain ⟨τ, W₂, W₃, hupdate, hcommit, -, hb, -, hrow⟩ :=
    @run_update_job i random W₁ draws job.id job (succeeded job result W.clock) row hW₁ hget hid
      fun he => hne (congrArg _ he)
  obtain ⟨hstatus, hcolumn, -⟩ := @patch_running job row (succeeded job result W.clock) τ
  refine ⟨W₃, ?_, _, hrow, ?_⟩
  · rw [exportTickets, if_neg (Nat.not_lt.mpr hl)]
    show Prog.run _ (Prog.bind (Service.update _ _ _) _) (W₁, draws) = _
    rw [Prog.run_bind, hupdate]
    exact hcommit
  · rw [if_pos hl]
    exact ⟨hstatus hne, ⟨result, hcolumn hresult, rfl⟩, hb.parts .exports nofun⟩

/-- Too many tickets: the job has failed, there is no file. -/
theorem run_markFailed (h : Alone i [] W) (hget : W.store.db.get .backgroundJobs job.id = some row)
    (hid : row.id = job.id) (hcode : job.lastErrorCode = row.lastErrorCode)
    (hrunning : job.status = .running) (hl : ¬tickets.length ≤ C.exportMaxRows) (message : String) :
    ∃ W', (markFailed job "ticket_export_too_large" message).run (alone i random) (W, draws) =
      some (.ok (), (W', draws)) ∧ Exported C job tickets W W' := by
  have hne : job.status ≠ (failed job "ticket_export_too_large" message W.clock).status := by
    rw [hrunning]
    nofun
  obtain ⟨τ, W₂, W₃, hupdate, hcommit, -, hb, -, hrow⟩ :=
    @run_update_job i random W draws job.id job
      (failed job "ticket_export_too_large" message W.clock) row h hget hid
      fun he => hne (congrArg _ he)
  obtain ⟨hstatus, -, hcolumn⟩ :=
    @patch_running job row (failed job "ticket_export_too_large" message W.clock) τ
  refine ⟨W₃, ?_, _, hrow, ?_⟩
  · show Prog.run _ (Prog.bind (Service.update _ _ _) _) (W, draws) = _
    rw [Prog.run_bind, hupdate]
    exact hcommit
  · rw [if_neg hl]
    exact ⟨hstatus hne, hcolumn hcode, hb.parts .exports nofun⟩

/-- A job that is claimed and run to its end. -/
theorem run_execute {context : CurrentTenant} {status : Option TicketStatus}
    {priority : Option TicketPriority} {canReadAll : Bool} {limit : Nat} (hl : 1 ≤ limit)
    (hW : Alone i [] W) (hget : W.store.db.get .backgroundJobs job.id = some row)
    (hrow : Claimable job row W.clock) (hkind : job.kind = .ticketExport)
    (hpayload : job.payload = BackgroundJobService.exportPayload context status priority canReadAll)
    (htenant : job.tenantId = context.tenant.id)
    (hkeys : ((listed P context (.only status priority limit hl) canReadAll W.store.db).map
      createdKey).Nodup) :
    ∃ W' draws', (BackgroundJobExecutor.execute P C job.id).run (alone i random)
        (W, tmp :: draws) = some (.ok (), (W', draws')) ∧
      Exported C job (Lib.Keyset.after createdKey none
        (listed P context (.only status priority limit hl) canReadAll W.store.db)).reverse
        W W' := by
  obtain ⟨τ, W₁, hclaim, hW₁, hexports, htickets, hget₁⟩ :=
    @run_claim C i random W (tmp :: draws) row job hW hget hrow
  let current := claimed C row W.clock
  let row₁ : BackgroundJob := Table.patch .backgroundJobs row
    (Table.stampUpdate τ .backgroundJobs current) row
  obtain ⟨-, hresult, hcode⟩ := @patch_running row row current τ
  have hid : current.id = job.id := hrow.id
  generalize htext : (Lib.Keyset.after createdKey none
    (listed P context (.only status priority limit hl) canReadAll W.store.db)).reverse = tickets
  have hselected : exportedTickets C current status priority
      (if canReadAll then none else some context.membership.id) W₁.store.db =
        tickets.take (C.exportMaxRows + 1) := by
    rw [exportedTickets, htickets, ← htext]
    exact exportedTickets_eq P hl (hrow.tenantId.trans htenant) hkeys
  obtain ⟨W₂, hselect, hW₂, hs₂⟩ := hW₁.run_select random (tmp :: draws)
    (exportedTickets C current status priority
      (if canReadAll then none else some context.membership.id))
  rw [List.foldl_nil, hselected] at hselect
  have hexport : (BackgroundJobExecutor.executeKind P C current).run (alone i random)
      (W₁, tmp :: draws) = (exportTickets C current (tickets.take (C.exportMaxRows + 1))).run
        (alone i random) (W₂, tmp :: draws) := by
    have hexecute : BackgroundJobExecutor.executeKind P C current = executeExport C current := by
      rw [BackgroundJobExecutor.executeKind, show current.kind = .ticketExport from
        hrow.kind.trans hkind]
    have hcurrent : current.payload =
        BackgroundJobService.exportPayload context status priority canReadAll :=
      hrow.payload.trans hpayload
    rw [hexecute, executeExport_eq hcurrent, Prog.run_bind, hselect]
  have hrun : (BackgroundJobExecutor.execute P C job.id).run (alone i random) (W, tmp :: draws) =
      Prog.run (alone i random) (Prog.handle (BackgroundJobExecutor.executeKind P C current)
        (BackgroundJobExecutor.handleFailure P C current)) (W₁, tmp :: draws) := by
    show Prog.run _ (Prog.bind _ _) _ = _
    rw [Prog.run_bind, hclaim]
    rfl
  have hget₂ : W₂.store.db.get .backgroundJobs current.id = some row₁ := by
    rw [hs₂.db, hid]
    exact hget₁
  have hended {W' : World} (h : Exported C current tickets W₂ W') :
    Exported C job tickets W W' := by
    obtain ⟨last, hlast, h⟩ := h
    rw [Exported, ← hexports, ← (hs₂.beside.parts .exports nofun : W₂.exports = W₁.exports), ← hid,
      objectKey, ← hid, ← hrow.tenantId]
    exact ⟨last, hlast, h⟩
  rw [hrun, Prog.run_handle, hexport]
  by_cases hfits : tickets.length ≤ C.exportMaxRows
  · rw [List.take_of_length_le (Nat.le_succ_of_le hfits)]
    obtain ⟨W', hwritten, hexported⟩ := @run_exportTickets C i random W₂ tmp draws current row₁
      tickets hW₂ hget₂ rfl (hresult rfl).symm rfl hfits
    exact ⟨W', draws, by rw [hwritten], hended hexported⟩
  · have htoo : C.exportMaxRows < (tickets.take (C.exportMaxRows + 1)).length := by
      rw [List.length_take]
      omega
    obtain ⟨W', hfailed, hexported⟩ := @run_markFailed C i random W₂ (tmp :: draws) current row₁
      tickets hW₂ hget₂ rfl (hcode rfl).symm rfl hfits
        s!"Ticket export exceeds the {C.exportMaxRows}-row limit"
    refine ⟨W', tmp :: draws, ?_, hended hexported⟩
    rw [exportTickets, if_pos htoo]
    exact hfailed

end Runs

/-- **An export agrees with the listing** (module doc). -/
theorem export_agrees_with_listing (P : Platform) (B : BackgroundJobService) (C : Settings)
    (context : CurrentTenant) (status : Option TicketStatus) (priority : Option TicketPriority)
    (key : String) (limit : Nat) (hl : 1 ≤ limit) (canReadAll : Bool) {m e : Moment}
    {ms : Nat → Moment} {draws draws₁ : List UUID} {W₁ : World} {job row : BackgroundJob}
    {pages : List TicketPage} (hm : Alone m.session [] m.world)
    (hperm : m.Serves (B.rbac.hasPermission context.membership .ticketsReadAll) canReadAll)
    (hsubmit : (B.submitTicketExport P context status priority key).run
      (alone m.session m.random) (m.world, draws) = some (.ok ⟨job, false⟩, (W₁, draws₁)))
    (hv : Visited B.rbac context ms fun _ => canReadAll)
    (hlisted : ∀ k, (ms k).db .tickets = m.db .tickets)
    (hpages : PageWalk P B.rbac context (.only status priority limit hl) ms 0 none pages)
    (he : Alone e.session [] e.world) (hexecuted : e.db .tickets = m.db .tickets)
    (hget : e.db.get .backgroundJobs job.id = some row) (hrow : Claimable job row e.world.clock)
    (tmp : UUID) (rest : List UUID) :
    (itemsOf pages).Perm ((m.db .tickets).filter (Db.Selected P context.tenant.id
      (TicketService.filtersOf context (.only status priority limit hl) canReadAll none))) ∧
    ∃ W' draws', (BackgroundJobExecutor.execute P C job.id).run (alone e.session e.random)
        (e.world, tmp :: rest) = some (.ok (), (W', draws')) ∧
      Exported C job (itemsOf pages).reverse e.world W' := by
  have hjob : ∃ id τ, job = Table.stampInsert τ .backgroundJobs (B.newJob context .ticketExport
      (BackgroundJobService.exportPayload context status priority canReadAll) key
      (BackgroundJobService.requestHash P .ticketExport
        (BackgroundJobService.exportPayload context status priority canReadAll)) id) := by
    obtain ⟨answer, ⟨W₂, draws₂⟩, hanswer, hsubmit⟩ := Prog.run_bind_ok hsubmit
    obtain ⟨-, W₂', hperm⟩ := hperm
    cases (run_moreDraws hperm draws).symm.trans hanswer
    have hW₂ := (run_reading (@RBACService.quiet_hasPermission B.rbac (fun _ => True) trivial _ _)
      hm hanswer).1
    exact submitted hW₂ hsubmit
  have hrows : rowsOf P context (.only status priority limit hl) ms (fun _ => canReadAll) =
      fun _ => listed P context (.only status priority limit hl) canReadAll e.world.store.db :=
    funext fun k => by
      rw [rowsOf, listed, listed, hlisted, ← hexecuted]
      rfl
  have hkeys := congrFun hrows 0 ▸ @nodup_keys P B.rbac context
    (.only status priority limit hl) ms (fun _ => canReadAll) hv 0
  have hnone : ∀ k ∈ (none : Option (Time ×ₗ UUID)), TicketService.IsDatetime (ofLex k).1 := by
    simp
  have hwalk := keyset_walk hv hnone hpages
  rw [hrows] at hwalk
  have hitems : itemsOf pages = Lib.Keyset.after createdKey none
      (listed P context (.only status priority limit hl) canReadAll e.world.store.db) :=
    (hwalk.unchanged hl hkeys).1
  obtain ⟨id, τ, rfl⟩ := hjob
  refine ⟨?_, ?_⟩
  · rw [hitems, Lib.Keyset.after, ← hexecuted]
    refine (List.perm_insertionSort _ _).trans (List.Perm.of_eq ?_)
    rw [listed, List.filter_filter]
    exact List.filter_congr fun t _ => Bool.true_and _
  · rw [hitems]
    exact run_execute hl he hget hrow rfl rfl rfl hkeys

/-- The job the owner's export of two tickets is. -/
def exportJob : BackgroundJob :=
  BackgroundJobService.newJob ⟨{}, ⟨false, 300, 30⟩, some "c"⟩ .owner .ticketExport
    (BackgroundJobService.exportPayload .owner none none true) "key" "" 2

/-- The database where that export is submitted. -/
def Db.exporting : Db
  | .backgroundJobs => [exportJob]
  | t => Db.twins t

/-- Both are exported, as they are listed. -/
theorem export_agrees_with_listing_twins :
    ∃ pages W' draws', PageWalk .plain ⟨false, 300, 30⟩ .owner
        (.only none none 1 (le_refl 1)) (fun _ => ⟨World.fresh .twins, 0, 0⟩) 0 none pages ∧
      (BackgroundJobExecutor.execute .plain {} exportJob.id).run (alone 0 0)
        (World.fresh .exporting, [4]) = some (.ok (), (W', draws')) ∧
      Exported {} exportJob (itemsOf pages).reverse (World.fresh .exporting) W' := by
  let ms : Nat → Moment := fun _ => ⟨World.fresh .twins, 0, 0⟩
  have hids : ((rowsOf .plain .owner (.only none none 1 (le_refl 1)) ms (fun _ => true) 0).map
      createdKey).Nodup := nodup_keys visited_twins 0
  obtain ⟨walk, hwalk⟩ := Lib.Keyset.exists_walk (le_refl 1) hids 0 none
  have hnone : ∀ k ∈ (none : Option (Time ×ₗ UUID)), TicketService.IsDatetime (ofLex k).1 := nofun
  obtain ⟨pages, hpages⟩ := @pageWalk_of_keyset .plain ⟨false, 300, 30⟩ .owner
    (.only none none 1 (le_refl 1)) ms (fun _ => true) visited_twins 0 walk none hnone hwalk
  obtain ⟨⟨r, W₁, draws₁⟩, hrun, hr⟩ := Option.map_eq_some_iff.mp
    (show ((BackgroundJobService.submitTicketExport .plain ⟨{}, ⟨false, 300, 30⟩, some "c"⟩
      .owner none none "key").run (alone 0 0) (World.fresh .twins, [2, 3])).map (·.1) =
        some (.ok ⟨exportJob, false⟩) by decide +kernel)
  cases hr
  obtain ⟨-, W', draws', hexecute, hexported⟩ := export_agrees_with_listing .plain
    ⟨{}, ⟨false, 300, 30⟩, some "c"⟩ {} .owner none none "key" 1 (le_refl 1) true
    ⟨⟨rfl, rfl⟩, fun _ => rfl⟩ (visited_twins.serves 0) hrun visited_twins (fun _ => rfl) hpages
    (e := ⟨World.fresh .exporting, 0, 0⟩) ⟨⟨rfl, rfl⟩, fun _ => rfl⟩ rfl rfl
    ⟨rfl, rfl, rfl, rfl, rfl, rfl, by decide⟩ 4 []
  exact ⟨pages, W', draws', hpages, hexecute, hexported⟩

end Ticketing
