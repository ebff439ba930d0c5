import Ticketing.Concurrency.System
import Ticketing.Services.BackgroundJob
import Mathlib.Data.List.Nodup

/-!
# Job submission is idempotent for each key

Submissions of jobs, interleaved with each other, while tickets, customers and roles change and
jobs are executed (`BesideJobs`). `plan` says which call each thread runs. What is hashed of a
request is not what the client sent but a payload that is derived from the rows the call reads
(`JobRequest.Derives`), so a repeated request is replayed as long as it comes to the same payload,
and refused when it does not.

* What a submission leaves behind of a job for good is its `Deed`; `submissions` are the commits
  that made them. `Asked`: the deed is of the member, the key and the request of a call.
* `Registered` is the invariant: the deeds and the commits that made them are one list without
  repetitions, and each deed is what its thread was asked for.
* For calls that start when some deeds are already there the invariant says so, and such a call
  can only replay (`Outline.Ok.later`).

Results:
* `sorted_of_hash`: of equal hashes the payloads are the same, in the order of their keys. This is
  where the digest is taken to be injective.
* `run_submit`: a submission whose key is taken, left alone, returns the job or is refused.
* `job_submission_is_idempotent`: every clause of `IdempotentSubmission` in every reachable state.

Assumed: `sha256Hex` is injective, and there are no jobs at the start.
-/

namespace Ticketing

open Lib (Prog Store System Outline Json)
open Lib.Outline (Triple post)

/-! ## Requests and what is derived from them -/

/-- What a member asks a job for. -/
inductive JobRequest
  | emailNotification (ticketId : UUID)
  | ticketExport (status : Option TicketStatus) (priority : Option TicketPriority)
  deriving DecidableEq

namespace JobRequest

def kind : JobRequest → BackgroundJobKind
  | emailNotification _ => .emailNotification
  | ticketExport .. => .ticketExport

open BackgroundJobService (emailPayload exportPayload)

/-- A payload that a request of the member may come to. -/
inductive Derives (context : CurrentTenant) : JobRequest → JsonObject → Prop
  | emailNotification (ticket : Ticket) (customer : Customer) :
      Derives context (.emailNotification ticket.id) (emailPayload ticket customer)
  | ticketExport (status : Option TicketStatus) (priority : Option TicketPriority)
      (canReadAll : Bool) :
      Derives context (.ticketExport status priority)
        (exportPayload context status priority canReadAll)

/-- `json.dumps(…, sort_keys=True)` of a payload. -/
def sorted (payload : JsonObject) : JsonObject := payload.insertionSort fun a b => a.1 ≤ b.1

theorem sorted_emailPayload (ticket : Ticket) (customer : Customer) :
    sorted (emailPayload ticket customer) =
      [("body", .str ("Your ticket '" ++ ticket.subject ++ "' is currently " ++
          Lib.Text.replaceChar '_' ' ' ticket.status.value ++ ".")),
        ("recipient_email", .str customer.email),
        ("subject", .str ("Ticket update: " ++ ticket.subject)),
        ("ticket_id", .str ticket.id.str)] := by
  simp +decide [sorted, emailPayload, List.insertionSort, List.orderedInsert]

theorem sorted_exportPayload (context : CurrentTenant) (status : Option TicketStatus)
    (priority : Option TicketPriority) (canReadAll : Bool) :
    sorted (exportPayload context status priority canReadAll) =
      [("creator_membership_id", if canReadAll then .null else .str context.membership.id.str),
        ("priority", (priority.map fun p => Scalar.str p.value).getD .null),
        ("status", (status.map fun s => Scalar.str s.value).getD .null)] := by
  simp +decide [sorted, exportPayload, List.insertionSort, List.orderedInsert]

variable {context context' : CurrentTenant} {r r' : JobRequest} {p p' : JsonObject}

theorem textual_sorted (h : r.Derives context p) : Json.Textual (sorted p).toJson := by
  cases h with
  | emailNotification ticket customer =>
    rw [sorted_emailPayload]
    exact ⟨by simp, trivial, trivial, trivial, trivial, trivial⟩
  | ticketExport status priority canReadAll =>
    rw [sorted_exportPayload]
    refine ⟨by simp, ?_, ?_, ?_, trivial⟩
    · cases canReadAll <;> trivial
    · cases priority <;> trivial
    · cases status <;> trivial

theorem toJson_injective : Function.Injective Scalar.toJson := by
  intro a b h
  cases a <;> cases b <;> simp_all [Scalar.toJson]

theorem object_injective : Function.Injective JsonObject.toJson := by
  intro o o' h
  have hfield : Function.Injective fun f : String × Scalar => (f.1, f.2.toJson) := by
    intro f f' he
    obtain ⟨hkey, hvalue⟩ := Prod.mk.inj he
    exact Prod.ext hkey (toJson_injective hvalue)
  exact List.map_injective_iff.mpr hfield (Json.obj.inj h)

/-- **Without collisions the hash separates payloads.** -/
theorem sorted_of_hash {P : Platform} (hP : Function.Injective P.sha256Hex)
    {k k' : BackgroundJobKind} (hp : r.Derives context p) (hp' : r'.Derives context' p')
    (h : BackgroundJobService.requestHash P k p = BackgroundJobService.requestHash P k' p') :
    k = k' ∧ sorted p = sorted p' := by
  have textual {r : JobRequest} {context : CurrentTenant} {p : JsonObject}
      (k : BackgroundJobKind) (hp : r.Derives context p) :
      Json.Textual (.obj [("kind", .str k.value), ("payload", (sorted p).toJson)]) :=
    ⟨by simp, trivial, textual_sorted hp, trivial⟩
  have hjson := Json.dumps_injective true (textual k hp) (textual k' hp')
    (String.toByteArray_inj.mp (hP h))
  simp only [Json.obj.injEq, List.cons.injEq, Prod.mk.injEq, true_and, and_true,
    Json.str.injEq] at hjson
  refine ⟨?_, object_injective hjson.2⟩
  cases k <;> cases k' <;> first | rfl | exact absurd hjson.1 (by decide)

theorem optional_injective {α : Type} {value : α → String} {ofValue : String → Option α}
    (hvalue : ∀ a, ofValue (value a) = some a) :
    Function.Injective fun x : Option α => (x.map fun a => Scalar.str (value a)).getD .null := by
  intro x y h
  rcases x with _ | a <;> rcases y with _ | b
  · rfl
  · cases h
  · cases h
  · have hab : value a = value b := Scalar.str.inj h
    rw [← hvalue a, hab, hvalue b]

/-- A payload says what it was asked for. -/
theorem eq_of_sorted (hp : r.Derives context p) (hp' : r'.Derives context' p')
    (h : sorted p = sorted p') : r = r' ∧ p = p' := by
  cases hp with
  | emailNotification ticket customer =>
    cases hp' with
    | emailNotification ticket' customer' =>
      rw [sorted_emailPayload, sorted_emailPayload] at h
      simp only [List.cons.injEq, Prod.mk.injEq, true_and, and_true, Scalar.str.injEq] at h
      obtain ⟨hbody, hrecipient, hsubject, hid⟩ := h
      rw [UUID.str_injective hid, emailPayload, emailPayload, hbody, hrecipient, hsubject, hid]
      exact ⟨rfl, rfl⟩
    | ticketExport status priority canReadAll =>
      rw [sorted_emailPayload, sorted_exportPayload] at h
      simp at h
  | ticketExport status priority canReadAll =>
    cases hp' with
    | emailNotification ticket customer =>
      rw [sorted_emailPayload, sorted_exportPayload] at h
      simp at h
    | ticketExport status' priority' canReadAll' =>
      rw [sorted_exportPayload, sorted_exportPayload] at h
      simp only [List.cons.injEq, Prod.mk.injEq, true_and, and_true] at h
      obtain ⟨hcreator, hpriority, hstatus⟩ := h
      have hs := optional_injective TicketStatus.ofValue_value hstatus
      have hp := optional_injective TicketPriority.ofValue_value hpriority
      rw [hs, hp, exportPayload, exportPayload, hcreator]
      exact ⟨rfl, rfl⟩

end JobRequest

/-! ## The calls -/

/-- A member submits a job; the request comes with the correlation id of its context. -/
structure SubmissionCall where
  correlationId : Option String
  context : CurrentTenant
  request : JobRequest
  key : String
  deriving DecidableEq

def SubmissionCall.prog (P : Platform) (C : Settings) (S : RBACService) (c : SubmissionCall) :
    Service BackgroundJobSubmission :=
  match c.request with
  | .emailNotification ticketId =>
    BackgroundJobService.submitEmailNotification P ⟨C, S, c.correlationId⟩ c.context ticketId c.key
  | .ticketExport status priority =>
    BackgroundJobService.submitTicketExport P ⟨C, S, c.correlationId⟩ c.context status priority
      c.key

def submissionCalls (P : Platform) (C : Settings) (S : RBACService) : Calls where
  Call := SubmissionCall
  Ret _ := BackgroundJobSubmission
  prog := SubmissionCall.prog P C S

/-- What stays of a job whatever becomes of it. -/
structure Deed where
  id : UUID
  tenantId : UUID
  membershipId : UUID
  key : String
  kind : BackgroundJobKind
  payload : JsonObject
  requestHash : String
  deriving DecidableEq

def BackgroundJob.deed (job : BackgroundJob) : Deed where
  id := job.id
  tenantId := job.tenantId
  membershipId := job.requestedByMembershipId
  key := job.idempotencyKey
  kind := job.kind
  payload := job.payload
  requestHash := job.requestHash

namespace JobSubmission

/-- The submitted jobs. -/
def deeds (db : Db) : List Deed := (db .backgroundJobs).map BackgroundJob.deed

/-- The deed is the one of the call's key. -/
structure Matches (c : SubmissionCall) (d : Deed) : Prop where
  tenant : d.tenantId = c.context.tenant.id
  membership : d.membershipId = c.context.membership.id
  key : d.key = c.key

/-- The unique value of a job. -/
def ident (d : Deed) : UUID × UUID × String := (d.tenantId, d.membershipId, d.key)

theorem Matches.ident {c : SubmissionCall} {d d' : Deed} (h : Matches c d) (h' : Matches c d') :
    ident d = ident d' := by
  simp only [JobSubmission.ident, h.tenant, h.membership, h.key, h'.tenant, h'.membership, h'.key]

/-- The jobs a write inserts. -/
def deedOf : Write → List Deed
  | .insert .backgroundJobs job => [job.deed]
  | _ => []

/-- The jobs of the commits, each with the thread that committed it. -/
def submissions (wal : List (Nat × List Write)) : List (Nat × Deed) :=
  wal.flatMap fun w => (w.2.flatMap deedOf).map fun d => (w.1, d)

variable (P : Platform) (plan : Nat → SubmissionCall)

/-- The deed is what the call asks for. -/
structure Asked (c : SubmissionCall) (d : Deed) : Prop extends Matches c d where
  kind : d.kind = c.request.kind
  payload : c.request.Derives c.context d.payload
  hash : d.requestHash = BackgroundJobService.requestHash P d.kind d.payload

/-- **The invariant**: the jobs and the commits that inserted them are one list without
repetitions, and each job is what its thread was to submit. -/
structure Registered (db : Db) (wal : List (Nat × List Write)) : Prop where
  log : (submissions wal).map Prod.snd = deeds db
  ids : ((deeds db).map Deed.id).Nodup
  keys : ((deeds db).map ident).Nodup
  planned : ∀ x ∈ submissions wal, Asked P (plan x.1) x.2

/-- Every job is registered once, those of `ds` among them, and none ever goes. -/
def outline (ds : List Deed) : WorldOutline := StoreOutline.world {
  inv s := Registered P plan s.db s.wal ∧ ∀ d ∈ ds, d ∈ deeds s.db
  frame _ s s' := ∀ d ∈ deeds s.db, d ∈ deeds s'.db
  refl _ _ _ hd := hd
  trans _ _ _ _ _ h h' d hd := h' d (h d hd)
  inv_local hl h := by rwa [hl.db, hl.wal]
  frame_local _ hl d hd := by rwa [hl.db] }

/-! ## The table of jobs -/

section Facts

variable {P plan} {db : Db} {wal : List (Nat × List Write)} {c : SubmissionCall}

theorem Registered.key_unique (h : Registered P plan db wal) {d d' : Deed} (hd : d ∈ deeds db)
    (hd' : d' ∈ deeds db) (he : ident d = ident d') : d = d' :=
  List.inj_on_of_nodup_map h.keys hd hd' he

/-- Each job is what some call has asked for. -/
theorem Registered.asked (h : Registered P plan db wal) {d : Deed} (hd : d ∈ deeds db) :
    ∃ j, (j, d) ∈ submissions wal ∧ Asked P (plan j) d := by
  rw [← h.log] at hd
  obtain ⟨⟨j, d⟩, hj, rfl⟩ := List.mem_map.mp hd
  exact ⟨j, hj, h.planned _ hj⟩

/-- What the query for a key finds. -/
theorem jobByKey_some {job : BackgroundJob}
    (h : db.jobByKey c.context.tenant.id c.context.membership.id c.key = some job) :
    job.deed ∈ deeds db ∧ Matches c job.deed := by
  unfold Db.jobByKey at h
  have hfound := List.find?_some h
  obtain ⟨ht, hm, hk⟩ := of_decide_eq_true hfound
  exact ⟨List.mem_map_of_mem (List.mem_of_find?_eq_some h), ht, hm, hk⟩

theorem jobByKey_none (h : db.jobByKey c.context.tenant.id c.context.membership.id c.key = none)
    {d : Deed} (hd : d ∈ deeds db) : ¬ Matches c d := by
  intro hm
  obtain ⟨job, hjob, rfl⟩ := List.mem_map.mp hd
  exact List.find?_eq_none.mp h job hjob
    (decide_eq_true ⟨hm.tenant, hm.membership, hm.key⟩)

theorem absent_key
    (h : db.present (.backgroundJobKey c.context.tenant.id c.context.membership.id c.key) = false)
    {d : Deed} (hd : d ∈ deeds db) : ¬ Matches c d := by
  intro hm
  obtain ⟨job, hjob, rfl⟩ := List.mem_map.mp hd
  refine Db.present_eq_false.mp h job hjob (List.mem_cons_of_mem _ ?_)
  show _ ∈ [Key.backgroundJobKey job.tenantId job.requestedByMembershipId job.idempotencyKey]
  rw [← hm.tenant, ← hm.membership, ← hm.key]
  exact List.mem_singleton.mpr rfl

variable (P) in
/-- The writes of a submission. -/
def Submitted (B : BackgroundJobService) (c : SubmissionCall) (payload : JsonObject)
    (jobId messageId : UUID) (correlationId : String) (ws : List Write) : Prop :=
  ∃ τ τ', ws = [(Write.insert .backgroundJobs (B.newJob c.context c.request.kind payload c.key
      (BackgroundJobService.requestHash P c.request.kind payload) jobId)).stamp τ,
    (Write.insert .outboxMessages (BackgroundJobService.newOutboxMessage c.context jobId messageId
      correlationId)).stamp τ']

/-- A submission under a fresh id and a fresh key is registered. -/
theorem Registered.submit {i : Nat} {B : BackgroundJobService} {payload : JsonObject}
    {jobId messageId : UUID} {correlationId : String} {ws : List Write}
    (h : Registered P plan db wal) (hpayload : (plan i).request.Derives (plan i).context payload)
    (hws : Submitted P B (plan i) payload jobId messageId correlationId ws)
    (hid : db.present (.row .backgroundJobs jobId) = false)
    (hkey : db.present (.backgroundJobKey (plan i).context.tenant.id
      (plan i).context.membership.id (plan i).key) = false) :
    ∃ d, Asked P (plan i) d ∧ d.id = jobId ∧
      deeds (ws.foldl (fun db w => w.apply db) db) = deeds db ++ [d] ∧
      submissions (wal ++ [(i, ws)]) = submissions wal ++ [(i, d)] ∧
      Registered P plan (ws.foldl (fun db w => w.apply db) db) (wal ++ [(i, ws)]) := by
  obtain ⟨τ, τ', rfl⟩ := hws
  let job := Table.stampInsert τ .backgroundJobs (B.newJob (plan i).context (plan i).request.kind
    payload (plan i).key (BackgroundJobService.requestHash P (plan i).request.kind payload) jobId)
  let message := Table.stampInsert τ' .outboxMessages
    (BackgroundJobService.newOutboxMessage (plan i).context jobId messageId correlationId)
  have hjobs : [Write.insert .backgroundJobs job, .insert .outboxMessages message].foldl
      (fun db w => w.apply db) db .backgroundJobs = db .backgroundJobs ++ [job] := by
    rw [List.foldl_cons, List.foldl_cons, List.foldl_nil,
      Write.apply_other _ _ (show Table.backgroundJobs ≠ .outboxMessages by decide),
      Write.apply_insert]
  have hdeeds : deeds ([Write.insert .backgroundJobs job, .insert .outboxMessages message].foldl
      (fun db w => w.apply db) db) = deeds db ++ [job.deed] := by
    rw [deeds, hjobs, List.map_append]
    rfl
  have hlog : submissions (wal ++ [(i, [Write.insert .backgroundJobs job,
      .insert .outboxMessages message])]) = submissions wal ++ [(i, job.deed)] := by
    simp [submissions, deedOf]
  have hasked : Asked P (plan i) job.deed := ⟨⟨rfl, rfl, rfl⟩, rfl, hpayload, rfl⟩
  refine ⟨job.deed, hasked, rfl, hdeeds, hlog, ?_, ?_, ?_, ?_⟩
  · exact (congrArg (List.map Prod.snd) hlog).trans (by
      rw [List.map_append, h.log]
      exact hdeeds.symm)
  · refine (congrArg (fun l => (l.map Deed.id).Nodup) hdeeds).mpr ?_
    rw [List.map_append, List.map_singleton]
    refine List.nodup_append.mpr ⟨h.ids, List.nodup_singleton _, ?_⟩
    rintro _ hmem _ hnew rfl
    obtain ⟨d, hd, he⟩ := List.mem_map.mp hmem
    obtain ⟨job', hjob', rfl⟩ := List.mem_map.mp hd
    exact Db.present_row.mp hid job' hjob' (he.trans (List.mem_singleton.mp hnew))
  · refine (congrArg (fun l => (l.map ident).Nodup) hdeeds).mpr ?_
    rw [List.map_append, List.map_singleton]
    refine List.nodup_append.mpr ⟨h.keys, List.nodup_singleton _, ?_⟩
    rintro _ hmem _ hnew rfl
    obtain ⟨d, hd, he⟩ := List.mem_map.mp hmem
    have hident := he.trans (List.mem_singleton.mp hnew)
    simp only [ident, Prod.mk.injEq] at hident
    exact absent_key hkey hd ⟨hident.1, hident.2.1, hident.2.2⟩
  · intro x hx
    rcases List.mem_append.mp (hlog ▸ hx) with hx | hx
    · exact h.planned x hx
    · rw [List.mem_singleton.mp hx]
      exact hasked

end Facts

/-! ## What calls know -/

section Assertions

variable (ds : List Deed) (i : Nat) (c : SubmissionCall)

/-- The job `d` is committed. -/
def Found (d : Deed) : (outline P plan ds).outline.Assertion i where
  holds W := d ∈ deeds W.store.db
  stable _ _ h hm := hm.2.2 d h

/-- Thread `i` has committed job `jobId`. -/
def Made (jobId : UUID) : (outline P plan ds).outline.Assertion i where
  holds W := ∃ d ∈ deeds W.store.db, Asked P c d ∧ d.id = jobId ∧
    (i, d) ∈ submissions W.store.wal
  stable W W' := by
    rintro ⟨d, hd, ha, hid, hc⟩ hmoved
    obtain ⟨more, hwal, -⟩ := hmoved.2.1.wal
    refine ⟨d, hmoved.2.2 d hd, ha, hid, ?_⟩
    rw [hwal, submissions, List.flatMap_append]
    exact List.mem_append_left _ hc

/-- The request comes to a payload with the hash of the job. -/
def Same (d : Deed) : Prop :=
  ∃ payload, c.request.Derives c.context payload ∧
    d.requestHash = BackgroundJobService.requestHash P c.request.kind payload

/-- What a call that returned `res` leaves behind. -/
def Returned (res : BackgroundJobSubmission) : (outline P plan ds).outline.Assertion i where
  holds W := (∃ d ∈ deeds W.store.db, Matches c d ∧ d.id = res.job.id ∧ Same P c d ∧
      (res.replayed = false → (i, d) ∈ submissions W.store.wal)) ∧
    (res.replayed = true → (outline P plan ds).NoCommit i W) ∧
    ∀ d ∈ ds, Matches c d → res.replayed = true
  stable W W' := by
    rintro ⟨⟨d, hd, hm, hid, hs, hc⟩, hn, hds⟩ hmoved
    obtain ⟨more, hwal, -⟩ := hmoved.2.1.wal
    refine ⟨⟨d, hmoved.2.2 d hd, hm, hid, hs, fun hr => ?_⟩, fun hr =>
      ((outline P plan ds).NoCommit i).stable W W' (hn hr) hmoved, hds⟩
    rw [hwal, submissions, List.flatMap_append]
    exact List.mem_append_left _ (hc hr)

/-- What a call that raised `e` leaves behind. -/
def Raised (e : Exn) : (outline P plan ds).outline.Assertion i where
  holds W := (e.isOutside = false → e ≠ .invalidRequest → (outline P plan ds).NoCommit i W) ∧
    ∀ d ∈ ds, Matches c d → (outline P plan ds).NoCommit i W
  stable W W' h hm :=
    have hno := ((outline P plan ds).NoCommit i).stable W W'
    ⟨fun ho hi => hno (h.1 ho hi) hm, fun d hd hmatch => hno (h.2 d hd hmatch) hm⟩

end Assertions

open WorldOutline (Before commitOnce addWrite addInsert local_before local_raising own_true
  raise_outside)

section Calls

variable {P plan} {ds : List Deed} {i : Nat} {admits : Admission} {c : SubmissionCall}

variable (P plan ds i c) in
theorem raised_of_noCommit (e : Exn) (W : World) (h : (outline P plan ds).NoCommit i W) :
    Raised P plan ds i c e W :=
  ⟨fun _ _ => h, fun _ _ _ => h⟩

theorem local_made {jobId : UUID} (hfree : ∀ d ∈ ds, ¬ Matches c d) :
    WorldOutline.Local (· = .invalidRequest) (Made P plan ds i c jobId)
      (Raised P plan ds i c) := by
  have hE (e : Exn) (he : e = .invalidRequest ∨ e.isOutside = true) (W : World) :
      Raised P plan ds i c e W := by
    refine ⟨fun ho hne => ?_, fun d hd hm => absurd hm (hfree d hd)⟩
    rcases he with he | he
    · exact absurd he hne
    · exact absurd (he.symm.trans ho) nofun
  refine ⟨fun hk _ ⟨d, hd, ha, hid, hc⟩ => ⟨d, ?_, ha, hid, ?_⟩, fun e _ he _ => hE e he _,
    fun e _ _ he _ _ _ => hE e he _⟩
  · rwa [hk.db]
  · rwa [hk.wal]

/-- The query for the key, before anything is written. -/
theorem selectKey {α : Type} {k : Option BackgroundJob → Service α}
    {B : α → (outline P plan ds).outline.Assertion i}
    (hsome : ∀ job : BackgroundJob, Matches c job.deed →
      Triple (callStep admits i) (Before (Found P plan ds i job.deed) (· = [])) (k (some job)) B
        (Raised P plan ds i c))
    (hnone : (∀ d ∈ ds, ¬ Matches c d) →
      Triple (callStep admits i) (Before .true (· = [])) (k none) B (Raised P plan ds i c)) :
    Triple (callStep admits i) (Before .true (· = []))
      ((Service.select fun db =>
        db.jobByKey c.context.tenant.id c.context.membership.id c.key).bind k)
      B (Raised P plan ds i c) := by
  refine Triple.bind (M := fun found => found.elim
      ((Before .true (· = [])).and (.pure (∀ d ∈ ds, ¬ Matches c d)))
      fun job => (Before (Found P plan ds i job.deed) (· = [])).and
        (.pure (Matches c job.deed))) ?_ fun found => ?_
  · refine WorldOutline.select (ρ := fun _ => True)
      (local_before own_true (raised_of_noCommit P plan ds i c))
      fun W W' hi h hk _ => ?_
    have hwrites : (W'.store.sessions i).writes = [] := hk.writes.trans h.2.2
    have hno := WorldOutline.noCommit_local hk.toLocal h.1
    rw [WorldOutline.view_eq h.2.2]
    rcases hq : W.store.db.jobByKey c.context.tenant.id c.context.membership.id c.key with _ | job
    · exact ⟨⟨hno, trivial, hwrites⟩, fun d hd => jobByKey_none hq (hi.2.2 d hd)⟩
    · obtain ⟨hmem, hmatch⟩ := jobByKey_some hq
      refine ⟨⟨hno, ?_, hwrites⟩, hmatch⟩
      show job.deed ∈ deeds W'.store.db
      rwa [deeds, hk.db]
  · rcases found with _ | job
    · exact Triple.assume hnone
    · exact Triple.assume (hsome job)

/-- A replay answers with the committed job. -/
theorem replay {job : BackgroundJob} {payload : JsonObject} (hm : Matches c job.deed)
    (hpayload : c.request.Derives c.context payload) :
    Triple (callStep admits i) (Before (Found P plan ds i job.deed) (· = []))
      (BackgroundJobService.replay job
        (BackgroundJobService.requestHash P c.request.kind payload))
      (Returned P plan ds i c) (Raised P plan ds i c) := by
  unfold BackgroundJobService.replay
  split
  · exact Triple.raise fun W _ h => raised_of_noCommit P plan ds i c _ W h.1
  · rename_i heq
    exact Triple.ret fun W _ h =>
      ⟨⟨job.deed, h.2.1, hm, rfl, ⟨payload, hpayload, not_not.mp heq⟩, nofun⟩, fun _ => h.1,
        fun _ _ _ => rfl⟩

/-- The guarded body of `_submit`. -/
theorem insertJob (hplan : plan i = c) (B : BackgroundJobService) {payload : JsonObject}
    (hpayload : c.request.Derives c.context payload) (hfree : ∀ d ∈ ds, ¬ Matches c d)
    (jobId messageId : UUID) (correlationId : String) :
    Triple (callStep admits i) (Before .true (· = []))
      (do
        Service.insert .backgroundJobs (B.newJob c.context c.request.kind payload c.key
          (BackgroundJobService.requestHash P c.request.kind payload) jobId)
        Service.insert .outboxMessages
          (BackgroundJobService.newOutboxMessage c.context jobId messageId correlationId)
        Service.commit
        pure (none : Option BackgroundJobSubmission))
      (fun
        | none => Made P plan ds i c jobId
        | some res => Returned P plan ds i c res)
      (Raised P plan ds i c) := by
  subst hplan
  have hE := raised_of_noCommit P plan ds i (plan i)
  let uniqueKey : Key := .backgroundJobKey (plan i).context.tenant.id
    (plan i).context.membership.id (plan i).key
  let X : (outline P plan ds).outline.Assertion i :=
    ((outline P plan ds).Reserved i (.row .backgroundJobs jobId)).and
      ((outline P plan ds).Reserved i uniqueKey)
  have hX : WorldOutline.Own X :=
    WorldOutline.Own.and (WorldOutline.own_reserved _) (WorldOutline.own_reserved _)
  refine Triple.bind (M := fun _ => Before X fun ws => ∃ τ, ws =
    [(Write.insert .backgroundJobs (B.newJob (plan i).context (plan i).request.kind payload
      (plan i).key (BackgroundJobService.requestHash P (plan i).request.kind payload)
      jobId)).stamp τ]) ?_ fun _ => ?_
  · refine WorldOutline.write (local_before own_true hE)
      (fun W W' τ _ h hw _ => ⟨WorldOutline.noCommit_local hw.toLocal h.1, ?_, τ, ?_⟩)
      fun e W h => hE e W h.1
    · have reserved (k : Key)
          (hk : k ∈ Table.keys .backgroundJobs (B.newJob (plan i).context (plan i).request.kind
            payload (plan i).key (BackgroundJobService.requestHash P (plan i).request.kind payload)
            jobId)) : (outline P plan ds).Reserved i k W' := by
        refine ⟨hw.keys k hk, ?_⟩
        have hfresh : Db.present k (W.store.view schema i) = false := hw.fresh k hk
        rw [WorldOutline.view_eq h.2.2] at hfresh
        rw [hw.db]
        exact hfresh
      exact ⟨reserved _ List.mem_cons_self,
        reserved uniqueKey (List.mem_cons_of_mem _ (List.mem_singleton.mpr rfl))⟩
    · rw [hw.writes, show (W.store.sessions i).writes = [] from h.2.2]
      rfl
  refine Triple.bind (M := fun _ => Before X
    (Submitted P B (plan i) payload jobId messageId correlationId)) ?_ fun _ => ?_
  · exact addWrite hX hE fun ws τ' ⟨τ, hws⟩ => ⟨τ, τ', by rw [hws]; rfl⟩
  refine Triple.bind (M := fun _ => Made P plan ds i (plan i) jobId)
    (commitOnce hX hE (raise_outside fun e W he h => ?_) fun W W' hi hres hws hc _ => ?_)
    fun _ => Triple.ret fun _ _ h => h
  · exact ⟨fun ho => absurd (he.symm.trans ho) nofun, fun d hd hm => absurd hm (hfree d hd)⟩
  · obtain ⟨d, hasked, hid, hdeeds, hlog, hreg⟩ :=
      hi.2.1.submit hpayload hws hres.1.2 hres.2.2
    have hdb : W'.store.db =
        (W.store.sessions i).writes.foldl (fun db w => w.apply db) W.store.db := hc.db
    have hgrow : ∀ d' ∈ deeds W.store.db, d' ∈ deeds W'.store.db := by
      rw [hdb, hdeeds]
      exact fun d' hd' => List.mem_append_left _ hd'
    refine ⟨⟨?_, fun d' hd' => hgrow d' (hi.2.2 d' hd')⟩, fun _ _ => hgrow, d, ?_, hasked, hid, ?_⟩
    · rw [hdb, hc.wal]
      exact hreg
    · rw [hdb, hdeeds]
      simp
    · rw [hc.wal, hlog]
      simp

/-- After a uniqueness race a call replays. -/
theorem replayRaced {payload : JsonObject}
    (hpayload : c.request.Derives c.context payload) :
    Triple (callStep admits i) (Before .true fun _ => True)
      (BackgroundJobService.replayRaced c.context c.key
        (BackgroundJobService.requestHash P c.request.kind payload))
      (Returned P plan ds i c) (Raised P plan ds i c) := by
  have hE := raised_of_noCommit P plan ds i c
  refine Triple.bind (M := fun _ => Before .true (· = [])) ?_ fun _ => ?_
  · exact WorldOutline.rollback (ρ := fun _ => True) (local_before own_true hE)
      fun W W' _ h hd _ => ⟨WorldOutline.noCommit_local hd.toLocal h.1, trivial, hd.writes⟩
  · exact selectKey (fun job hm => replay hm hpayload) fun _ => Triple.raise fun W _ h => hE _ W h.1

theorem submit (hplan : plan i = c) (B : BackgroundJobService) {payload : JsonObject}
    (hpayload : c.request.Derives c.context payload) :
    Triple (callStep admits i) (Before .true (· = []))
      (B.submit P c.context c.request.kind payload c.key)
      (Returned P plan ds i c) (Raised P plan ds i c) := by
  refine selectKey (fun job hm => replay hm hpayload) fun hfree => ?_
  have hE := raised_of_noCommit P plan ds i c
  have quiet {α : Type} {p : Service α} (hp : Service.Quiet (fun _ => True) p) :=
    show Triple (callStep admits i) (Before .true (· = [])) p _ _ from
      WorldOutline.quiet hp (fun _ ho => ⟨ho.quiet, trivial⟩) (local_before own_true hE)
  refine Triple.bind (quiet Service.quiet_uuid4) fun jobId => ?_
  refine Triple.bind (quiet Service.quiet_uuid4) fun messageId => ?_
  refine Triple.bind (quiet B.quiet_getOrCreateCorrelationId) fun correlationId => ?_
  refine Triple.bind (Triple.handle (insertJob hplan B hpayload hfree jobId messageId correlationId)
    fun e => ?_) fun replayed => ?_
  · split
    · rename_i he
      subst he
      refine Triple.bind ((replayRaced hpayload).pre fun W _ h =>
        ⟨h.1 rfl (by simp), trivial, trivial⟩) fun res => Triple.ret fun _ _ h => h
    · exact Triple.raise fun _ _ h => h
  · rcases replayed with _ | res
    · refine Triple.bind (M := fun job => (Made P plan ds i c jobId).and (.pure (job.id = jobId)))
        (WorldOutline.refresh (local_made hfree) rfl) fun job => Triple.ret fun W _ h => ?_
      obtain ⟨⟨d, hd, hasked, hid, hc⟩, hjob⟩ := h
      refine ⟨⟨d, hd, hasked.toMatches, hid.trans hjob.symm, ⟨d.payload, hasked.payload, ?_⟩,
        fun _ => hc⟩, nofun, fun d hd hm => absurd hm (hfree d hd)⟩
      rw [hasked.hash, hasked.kind]
    · exact Triple.ret fun _ _ h => h

theorem early {α : Type} {p : Service α}
    (hp : Service.Quiet (fun _ => True) p) :
    Triple (callStep admits i) (Before .true (· = [])) p (fun _ => Before .true (· = []))
      (Raised P plan ds i c) :=
  WorldOutline.quiet hp (fun _ ho => ⟨ho.quiet, trivial⟩)
    (local_before own_true (raised_of_noCommit P plan ds i c))

/-- The ticket a notification is about. -/
theorem getTicket (S : RBACService) (ticketId : UUID) :
    Triple (callStep admits i) (Before .true (· = [])) (TicketService.get S c.context ticketId)
      (fun ticket => (Before .true (· = [])).and (.pure (ticket.id = ticketId)))
      (Raised P plan ds i c) := by
  refine Triple.bind (M := fun found => (Before .true (· = [])).and
      (.pure (∀ ticket ∈ found, ticket.id = ticketId))) ?_
    fun found => Triple.assume fun hfound => ?_
  · refine WorldOutline.select (ρ := fun _ => True)
      (local_before own_true (raised_of_noCommit P plan ds i c))
      fun W W' hi h hk hs => ⟨WorldOutline.before_keeps own_true hk hs h, fun ticket hticket => ?_⟩
    have hp := List.find?_some hticket
    exact (of_decide_eq_true hp).2
  · rcases found with _ | ticket
    · exact Triple.raise fun W _ h => raised_of_noCommit P plan ds i _ _ W h.1
    · refine Triple.bind (early ?_) fun allowed => ?_
      · unfold TicketService.canAccess
        split
        · trivial
        · exact S.quiet_hasPermission trivial _ _
      · cases allowed with
        | false => exact Triple.raise fun W _ h => raised_of_noCommit P plan ds i _ _ W h.1
        | true => exact Triple.ret fun W _ h => ⟨h, hfound ticket rfl⟩

theorem call (hplan : c = plan i) (C : Settings) (S : RBACService) :
    Triple (callStep admits i) (Before .true (· = [])) (c.prog P C S)
      (Returned P plan ds i c) (Raised P plan ds i c) := by
  obtain ⟨correlationId, context, request, key⟩ := c
  cases request with
  | emailNotification ticketId =>
    refine Triple.bind (getTicket S ticketId) fun ticket => Triple.assume fun hticket => ?_
    subst hticket
    split
    · exact Triple.raise fun W _ h => raised_of_noCommit P plan ds i _ _ W h.1
    · refine Triple.bind (early (Service.quiet_select _)) fun customer => ?_
      split
      · exact Triple.raise fun W _ h => raised_of_noCommit P plan ds i _ _ W h.1
      · split
        · exact Triple.raise fun W _ h => raised_of_noCommit P plan ds i _ _ W h.1
        · exact submit (c := ⟨correlationId, context, .emailNotification ticket.id, key⟩)
            hplan.symm _ (.emailNotification ticket _)
  | ticketExport status priority =>
    refine Triple.bind (early (S.quiet_hasPermission trivial _ _)) fun canReadAll => ?_
    exact submit (c := ⟨correlationId, context, .ticketExport status priority, key⟩)
      hplan.symm _ (.ticketExport status priority canReadAll)

end Calls

end JobSubmission

/-! ## Adequacy -/

/-- The rest of the system moves: tickets, customers and roles change, and jobs are executed. A
value some session has locked does not appear meanwhile. -/
structure BesideJobs (W W' : World) : Prop where
  jobs : JobSubmission.deeds W'.store.db = JobSubmission.deeds W.store.db
  absent : ∀ k, W.store.owner k ≠ none → W.store.db.present k = false →
    W'.store.db.present k = false
  sessions : W'.store.sessions = W.store.sessions
  owner : W'.store.owner = W.store.owner
  wal : W'.store.wal = W.store.wal

namespace JobSubmission

section Adequacy

variable {P : Platform} {plan : Nat → SubmissionCall} {C : Settings} {S : RBACService}
variable {ds : List Deed}

theorem Registered.same {db db' : Db} {wal : List (Nat × List Write)} (h : Registered P plan db wal)
    (hs : deeds db' = deeds db) : Registered P plan db' wal where
  log := by rw [hs]; exact h.log
  ids := by rw [hs]; exact h.ids
  keys := by rw [hs]; exact h.keys
  planned := h.planned

theorem beside {W W' : World} (h : BesideJobs W W') (hi : (outline P plan ds).outline.inv W) :
    (outline P plan ds).outline.inv W' ∧ ∀ j, (outline P plan ds).outline.frame j W W' := by
  have hdeeds : ∀ d ∈ deeds W.store.db, d ∈ deeds W'.store.db := fun d hd => by rwa [h.jobs]
  refine ⟨⟨fun j w hw k hk => ?_, ?_, fun d hd => hdeeds d (hi.2.2 d hd)⟩, fun j =>
    ⟨⟨by rw [h.sessions], fun k => by rw [h.owner], fun k hk hp => ?_, [], by simp [h.wal],
      fun _ hc => by cases hc⟩, hdeeds⟩⟩
  · rw [h.sessions] at hw
    rw [h.owner]
    exact hi.1 j w hw k hk
  · rw [h.wal]
    exact hi.2.1.same h.jobs
  · exact h.absent k (by rw [hk]; nofun) hp

variable (P plan ds) in
/-- What a call that has ended leaves behind. -/
def Outcome (i : Nat) (c : SubmissionCall) (r : Except Exn BackgroundJobSubmission) (W : World) :
    Prop := post (Returned P plan ds i c) (Raised P plan ds i c) r W

variable (P plan C S ds) in
/-- The calls meet the outline. -/
theorem ok : (outline P plan ds).outline.Ok
    ((submissionCalls P C S).system (fun i c => c = plan i) (fun _ _ _ _ => True) BesideJobs)
    (Outcome P plan ds) (Outcome P plan ds) := by
  refine WorldOutline.sound (C := submissionCalls P C S) (fun _ _ _ _ => trivial)
    (fun i c => Returned P plan ds i c) (fun i c => Raised P plan ds i c)
    (fun i c hc => call hc C S) (fun i c r W _ h => ?_) (fun i c r W W' h hm => ?_)
    fun W W' hi henv => beside henv hi
  · rcases r with e | res <;> exact h
  · rcases r with e | res
    · exact (Raised P plan ds i c e).stable W W' h hm
    · exact (Returned P plan ds i c res).stable W W' h hm

theorem outline_known (d : Deed) : (outline P plan [d]).outline =
    (outline P plan []).outline.restrict fun W => d ∈ deeds W.store.db := by
  unfold WorldOutline.outline Outline.restrict
  congr 1
  funext W
  simp [outline, StoreOutline.world, and_assoc]

/-- From a database without jobs the invariant holds. -/
theorem inv_start {W₀ : World} (hq : W₀.Quiet) (hj : W₀.store.db .backgroundJobs = []) :
    (outline P plan []).outline.inv W₀ := by
  have hdeeds : deeds W₀.store.db = [] := by rw [deeds, hj]; rfl
  refine ⟨fun i w hw => ?_, ⟨?_, ?_, ?_, ?_⟩, nofun⟩
  · rw [hq.sessions i] at hw
    cases hw
  · rw [hq.wal, hdeeds]
    rfl
  · rw [hdeeds]
    exact List.nodup_nil
  · rw [hdeeds]
    exact List.nodup_nil
  · rw [hq.wal]
    nofun

end Adequacy

/-! ## Running alone -/

section Alone

variable {P : Platform} {plan : Nat → SubmissionCall} {i : Nat} {W : World} {c : SubmissionCall}

/-- **A submission for a committed key returns at once**: the job, or a conflict. -/
theorem run_submit (h : Registered P plan W.store.db W.store.wal) {d : Deed}
    (hd : d ∈ deeds W.store.db) (hm : Matches c d) (hw : (W.store.sessions i).writes = [])
    (hb : (W.store.sessions i).broken = false) (B : BackgroundJobService) (payload : JsonObject) :
    ∃ W' job, job.deed = d ∧
      (B.submit P c.context c.request.kind payload c.key).run (undisturbed i) W =
        some (if d.requestHash = BackgroundJobService.requestHash P c.request.kind payload then
          .ok ⟨job, true⟩ else .error .backgroundJobIdempotencyConflict, W') := by
  obtain ⟨W₁, hfirst, -⟩ := select_undisturbed hw hb fun db =>
    db.jobByKey c.context.tenant.id c.context.membership.id c.key
  rcases hq : W.store.db.jobByKey c.context.tenant.id c.context.membership.id c.key with _ | job
  · exact absurd hm (jobByKey_none hq hd)
  obtain ⟨hjob, hmatch⟩ := jobByKey_some hq
  obtain rfl := h.key_unique hjob hd (hmatch.ident hm)
  rw [hq] at hfirst
  refine ⟨W₁, job, rfl, ?_⟩
  unfold BackgroundJobService.submit
  rw [Prog.bind_eq, Prog.run_bind, hfirst]
  simp only [BackgroundJobService.replay]
  by_cases hhash : job.deed.requestHash =
      BackgroundJobService.requestHash P c.request.kind payload
  · rw [if_pos hhash]
    simp only [if_neg (not_not.mpr (show job.requestHash = _ from hhash))]
    rfl
  · rw [if_neg hhash]
    simp only [if_pos (show job.requestHash ≠ _ from hhash)]
    rfl

end Alone

end JobSubmission

open JobSubmission (Matches Asked deeds submissions)

/-- **Submission is idempotent for each key.** `plan` says which call each thread runs; thread `j`
submitted the job of `d` where `(j, d) ∈ submissions wal`. -/
structure IdempotentSubmission (P : Platform) (C : Settings) (S : RBACService)
    (plan : Nat → SubmissionCall) (pool : ((submissionCalls P C S).system (fun i c => c = plan i)
      (fun _ _ _ _ => True) BesideJobs).Pool) : Prop where
  /-- There is one job for each key of a member. -/
  one : ∀ d ∈ deeds pool.shared.store.db, ∀ d' ∈ deeds pool.shared.store.db,
    d'.tenantId = d.tenantId → d'.membershipId = d.membershipId → d'.key = d.key → d' = d
  /-- Each job was committed by a thread that was asked for it. -/
  asked : ∀ d ∈ deeds pool.shared.store.db,
    ∃ j, (j, d) ∈ submissions pool.shared.store.wal ∧ Asked P (plan j) d
  /-- What returns is the key's job, to the request it was submitted for, and as a new one to
  the thread that committed it only. -/
  returned : ∀ i c (res : BackgroundJobSubmission), pool.threads i = .finished c (.ok res) →
    ∃ d ∈ deeds pool.shared.store.db, d.id = res.job.id ∧ Asked P c d ∧
      (∀ j, (j, d) ∈ submissions pool.shared.store.wal → (plan j).request = c.request) ∧
      (res.replayed = false → ∀ j, (j, d) ∈ submissions pool.shared.store.wal → j = i) ∧
      (res.replayed = true → ∀ w ∈ pool.shared.store.wal, w.1 ≠ i)
  /-- A call that raises on its own account has submitted nothing. -/
  raised : ∀ i c e, pool.threads i = .finished c (.error e) → e.isOutside = false →
    e ≠ .invalidRequest → ∀ w ∈ pool.shared.store.wal, w.1 ≠ i
  /-- From now on a call for the key of a committed job commits nothing: if it
  returns, it returns that job, to the same request. -/
  later : ∀ pool', System.Steps pool pool' → ∀ i, pool.threads i = .idle →
    ∀ d ∈ deeds pool.shared.store.db, ∀ c outcome, Matches c d →
      pool'.threads i = .finished c outcome →
      (∀ w ∈ pool'.shared.store.wal, w.1 ≠ i) ∧
      (∀ res : BackgroundJobSubmission, outcome = .ok res →
        res.replayed = true ∧ res.job.id = d.id ∧ Asked P c d)
  /-- Once its payload is known, such a call has nothing to wait for: left alone it returns the job
  exactly if the payload is the one the job was submitted with. -/
  alone : ∀ i, ∀ d ∈ deeds pool.shared.store.db, ∀ c, Matches c d →
    ∀ payload, c.request.Derives c.context payload → ∃ W' job, BackgroundJob.deed job = d ∧
      (BackgroundJobService.submit P ⟨C, S, c.correlationId⟩ c.context c.request.kind payload
          c.key).run (undisturbed i) (pool.shared.closeSession i) =
        some (if c.request.kind = d.kind ∧ payload = d.payload then .ok ⟨job, true⟩
          else .error .backgroundJobIdempotencyConflict, W')

/-- **No key is used twice, under any interleaving.** -/
theorem job_submission_is_idempotent (P : Platform) (C : Settings) (S : RBACService)
    (plan : Nat → SubmissionCall) (hP : Function.Injective P.sha256Hex) {W₀ : World}
    (hq : W₀.Quiet) (hj : W₀.store.db .backgroundJobs = [])
    {pool : ((submissionCalls P C S).system (fun i c => c = plan i) (fun _ _ _ _ => True)
      BesideJobs).Pool}
    (h : System.Reachable W₀ pool) : IdempotentSubmission P C S plan pool := by
  have hinv : (JobSubmission.outline P plan []).outline.inv W₀ := JobSubmission.inv_start hq hj
  have hok := (JobSubmission.ok P plan C S []).sound hinv h
  have hreg := hok.inv.2.1
  -- a deed the call has the hash of is what the call asks for
  have asked {db : Db} {wal : List (Nat × List Write)}
      (hreg : JobSubmission.Registered P plan db wal) {c : SubmissionCall} {d : Deed}
      (hd : d ∈ deeds db) (hm : Matches c d)
      (hs : JobSubmission.Same P c d) : Asked P c d := by
    obtain ⟨payload, hpayload, hhash⟩ := hs
    obtain ⟨j, -, ha⟩ := hreg.asked hd
    obtain ⟨hkind, hsorted⟩ := JobRequest.sorted_of_hash hP ha.payload hpayload
      (ha.hash.symm.trans hhash)
    obtain ⟨hrequest, heq⟩ := JobRequest.eq_of_sorted ha.payload hpayload hsorted
    refine ⟨hm, hkind, ?_, ha.hash⟩
    rw [heq]
    exact hpayload
  refine ⟨fun d hd d' hd' ht hm hk => ?_, fun d hd => hreg.asked hd, ?_, ?_, ?_, ?_⟩
  · exact hreg.key_unique hd' hd (by simp only [JobSubmission.ident, ht, hm, hk])
  · intro i c res hi
    obtain ⟨⟨d, hd, hm, hid, hs, hc⟩, hno, -⟩ := hok.finished hi
    have ha := asked hreg hd hm hs
    refine ⟨d, hd, hid, ha, fun j hj => ?_, fun hr j hj => ?_, hno⟩
    · have ha' := hreg.planned _ hj
      exact (JobRequest.eq_of_sorted ha'.payload ha.payload rfl).1
    · have hnodup : ((submissions pool.shared.store.wal).map Prod.snd).Nodup := by
        rw [hreg.log]
        exact hreg.keys.of_map
      exact congrArg Prod.fst (List.inj_on_of_nodup_map hnodup hj (hc hr) rfl)
  · intro i c e hi ho hne
    exact (hok.finished hi).1 ho hne
  · intro pool' hsteps i hidle d hd c outcome hm hfin
    have hlasting : (JobSubmission.outline P plan []).outline.Lasting fun W =>
        d ∈ deeds W.store.db := fun _ _ _ hf hd => hf.2 d hd
    have hknown := JobSubmission.ok P plan C S [d]
    rw [JobSubmission.outline_known] at hknown
    obtain ⟨hd', hpost⟩ := Outline.Ok.later hlasting (JobSubmission.ok P plan C S []) hknown hok hd
      hsteps hidle hfin
    have hreg' := ((JobSubmission.ok P plan C S []).sound hinv (h.trans hsteps)).inv.2.1
    rcases outcome with e | res
    · exact ⟨hpost.2 d (List.mem_singleton.mpr rfl) hm, nofun⟩
    · obtain ⟨⟨d', hmem, hm', hid, hs, -⟩, hno, hreplayed⟩ := hpost
      obtain rfl := hreg'.key_unique hmem hd' (hm'.ident hm)
      have hr := hreplayed d' (List.mem_singleton.mpr rfl) hm
      refine ⟨hno hr, fun res' he => ?_⟩
      obtain rfl := Except.ok.inj he
      exact ⟨hr, hid.symm, asked hreg' hmem hm hs⟩
  · intro i d hd c hm payload hpayload
    obtain ⟨W', job, hjob, hrun⟩ := JobSubmission.run_submit (W := pool.shared.closeSession i)
      (i := i) hreg hd hm (Store.dropped_rollback _ i).writes
      (by simp [World.closeSession, World.setStore, Store.rollback, Store.release])
      ⟨C, S, c.correlationId⟩ payload
    obtain ⟨j, -, ha⟩ := hreg.asked hd
    have hiff : d.requestHash = BackgroundJobService.requestHash P c.request.kind payload ↔
        c.request.kind = d.kind ∧ payload = d.payload := by
      rw [ha.hash]
      constructor
      · intro hhash
        obtain ⟨hkind, hsorted⟩ := JobRequest.sorted_of_hash hP ha.payload hpayload hhash
        exact ⟨hkind.symm, (JobRequest.eq_of_sorted ha.payload hpayload hsorted).2.symm⟩
      · rintro ⟨hkind, rfl⟩
        rw [hkind]
    refine ⟨W', job, hjob, ?_⟩
    rw [hrun]
    by_cases hhash : d.requestHash = BackgroundJobService.requestHash P c.request.kind payload
    · rw [if_pos hhash, if_pos (hiff.mp hhash)]
    · rw [if_neg hhash, if_neg fun hsame => hhash (hiff.mpr hsame)]

/-- A platform whose hash is SHA-256 on the payloads of two exports, and has no collisions. -/
def Platform.exporting : Platform where
  sha256Hex data :=
    if data.data = (Json.dumps true (.obj [("kind", .str "ticket_export"), ("payload", .obj
        [("creator_membership_id", .null), ("priority", .null),
          ("status", .null)])])).toUTF8.data then
      "1739e3803a4c50e557128b1711c85080e4a6ceedb9c31c3c2005d1646a18e107"
    else if data.data = (Json.dumps true (.obj [("kind", .str "ticket_export"), ("payload", .obj
        [("creator_membership_id", .null), ("priority", .str "high"),
          ("status", .null)])])).toUTF8.data then
      "290feee6ef1a445efb2427749ab5a4a9ae1d1a33ea99d36447f404be9aee7880"
    else String.ofList ('-' :: data.data.toList.map Char.ofUInt8)
  lower := id
  sqlLower := id
  message _ := ""
  className _ := "Exception"

theorem Platform.sha256Hex_exporting : Function.Injective Platform.exporting.sha256Hex := by
  have hall : "1739e3803a4c50e557128b1711c85080e4a6ceedb9c31c3c2005d1646a18e107".toList.head? =
      some '1' := rfl
  have hhigh : "290feee6ef1a445efb2427749ab5a4a9ae1d1a33ea99d36447f404be9aee7880".toList.head? =
      some '2' := rfl
  have hother (data : ByteArray) :
      (String.ofList ('-' :: data.data.toList.map Char.ofUInt8)).toList.head? = some '-' := by simp
  have hbyte : Function.Injective Char.ofUInt8 := fun b b' h =>
    UInt8.toUInt32_inj.mp (congrArg Char.val h)
  intro a b h
  simp only [exporting] at h
  have hhead := congrArg (fun s : String => s.toList.head?) h
  simp only [apply_ite (fun s : String => s.toList.head?), hall, hhigh, hother] at hhead
  split_ifs at h hhead
  all_goals simp at hhead
  · rename_i ha hb
    rw [ByteArray.ext ha, ByteArray.ext hb]
  · rename_i ha _ hb
    rw [ByteArray.ext ha, ByteArray.ext hb]
  · have hlist := String.ofList_inj.mp h
    have hdata := List.map_injective_iff.mpr hbyte (List.cons.inj hlist).2
    exact ByteArray.ext (Array.toList_inj.mp hdata)

/-- Two calls pass the first look-up together and one submits; a third asks for another export. -/
theorem job_submission_is_idempotent_raced :
    ∃ (plan : Nat → SubmissionCall) (pool : ((submissionCalls .exporting {} ⟨false, 300, 30⟩).system
        (fun i c => c = plan i) (fun _ _ _ _ => True) BesideJobs).Pool),
      System.Reachable (World.fresh Db.provisioned) pool ∧
      (deeds pool.shared.store.db).length = 1 ∧ (pool.threads 0).error? = none ∧
      (pool.threads 2).error? = some .backgroundJobIdempotencyConflict ∧
      IdempotentSubmission .exporting {} ⟨false, 300, 30⟩ plan pool := by
  let plan : Nat → SubmissionCall
    | 2 => ⟨some "c", .owner, .ticketExport none (some .high), "key"⟩
    | _ => ⟨some "c", .owner, .ticketExport none none, "key"⟩
  let moves : List (System.Move SubmissionCall Choice Empty) := [
    .start 0 (plan 0), .ops 0 [{}, {}],
    .start 1 (plan 1), .ops 1 (List.replicate 8 { uuid := 1 }), .finish 1,
    .ops 0 (List.replicate 5 { uuid := 2 }), .finish 0,
    .start 2 (plan 2), .ops 2 [{}, {}], .finish 2]
  obtain ⟨pool, hreach, hobs⟩ := ((submissionCalls .exporting {} ⟨false, 300, 30⟩).player BesideJobs
    (fun i (c : SubmissionCall) => decide (c = plan i))
    fun i (c : SubmissionCall) h => (decide_eq_true_iff (p := c = plan i)).mp h).replay_map moves
    (.init (World.fresh Db.provisioned)) (fun pool => ((deeds pool.shared.store.db).length,
      (pool.threads 0).error?, (pool.threads 2).error?))
    (b := (1, none, some .backgroundJobIdempotencyConflict)) (by decide +kernel)
  simp only [Prod.mk.injEq] at hobs
  exact ⟨plan, pool, hreach, hobs.1, hobs.2.1, hobs.2.2,
    job_submission_is_idempotent _ _ _ _ Platform.sha256Hex_exporting (World.quiet_fresh _) rfl
      hreach⟩

end Ticketing
