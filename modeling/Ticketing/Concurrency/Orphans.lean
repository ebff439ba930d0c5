import Ticketing.Concurrency.Executors
import Ticketing.Concurrency.Outbox
import Ticketing.Concurrency.Progress

/-!
# No accepted job is orphaned

Submissions, dispatchers and executions of jobs, interleaved (`JobCall`). Whoever drives a job
forward changes: its outbox message while that is pending, then a task message at the broker, then
the body that has taken it, and a message again where the body is deferred or its process dies.

* `Pending`: the job's message is still to be handed over. `Settled`: the job is finished, or the
  broker or a body in charge of it has it (`Driven`).
* `Accounted` is the invariant: every job is pending or settled, and every job that was handed
  over is settled.
* `served`: dispatchers and submissions may fail at any point. An execution may die, and its sends
  and its files may fail, but the database has to serve it, and nobody may cancel it. A statement
  that fails leaves a session that refuses every other until it is rolled back, and `execute`
  marks the failure without that: the mark is refused too, and the body ends without a `Retry`.

Results:
* `settled_start`, `settled_exec`, `discharged`: who gives a job up hands it on.
* `accounted`: every job is accounted for in every run.
* `no_job_is_orphaned`: a job that is not finished is in somebody's hand (`InHand`), from empty
  tables on.
* `a_failed_statement_orphans_its_job`: a run with an execution that is not served, and a running
  job nobody drives.

Assumed: the broker keeps a task message until a body has taken it, and delivers it again where
the body's process dies. The rest of the system leaves messages, queue and the states of the jobs
alone (`BesideWork`).
-/

namespace Ticketing

open Lib (Prog Store System)
open Progress (Walks idle)

/-- The calls that drive jobs. -/
inductive JobCall
  | outbox (c : OutboxCall)
  | execute (message : TaskMessage)

namespace JobCall

abbrev Ret : JobCall → Type
  | outbox c => c.Ret
  | execute _ => Unit

def prog (P : Platform) (C : Settings) (S : RBACService) : (c : JobCall) → Service c.Ret
  | outbox c => c.prog P C S
  | execute m => executeBackgroundJob P C (m.payload.get "job_id")

/-- The message a call is delivered with. -/
def message : JobCall → Option TaskMessage
  | outbox _ => none
  | execute m => some m

/-- The call ends with `Retry`. -/
def retries : (c : JobCall) → Except Exn c.Ret → Bool
  | outbox _, _ => false
  | execute _, r => deferred r

end JobCall

def jobCalls (P : Platform) (C : Settings) (S : RBACService) : Calls where
  Call := JobCall
  Ret := JobCall.Ret
  prog := JobCall.prog P C S
  message := JobCall.message
  retries := JobCall.retries

/-- The rest of the system moves: it leaves the messages alone, and the states of the jobs. -/
structure BesideWork (W W' : World) : Prop extends BesideOutbox W W' where
  statuses : (W'.store.db .backgroundJobs).map (fun job => (job.id, job.status)) =
    (W.store.db .backgroundJobs).map fun job => (job.id, job.status)
  queue : W'.queue = W.queue
  bodies : W'.bodies = W.bodies

/-- The threads of `worker` execute jobs. -/
def mayRun (worker : Nat → Prop) (i : Nat) : JobCall → Prop
  | .outbox _ => True
  | .execute _ => worker i

instance instDecidableMayRun (worker : Nat → Prop) [DecidablePred worker] (i : Nat) :
    (c : JobCall) → Decidable (mayRun worker i c)
  | .outbox _ => isTrue trivial
  | .execute _ => inferInstanceAs (Decidable (worker i))

/-- The database serves the workers, and nobody cancels them. -/
def served (worker : Nat → Prop) : Admission := fun i W o ch =>
  worker i → ∀ r W', opStep i ch o W = some (r, W') → Serves o r

instance instDecidableServed (worker : Nat → Prop) [DecidablePred worker] (i : Nat) (W : World)
    (o : Op) (ch : Choice) : Decidable (served worker i W o ch) :=
  decidable_of_iff (worker i → ∀ x ∈ opStep i ch o W, Serves o x.1)
    ⟨fun h hw r W' hs => h hw (r, W') hs, fun h hw x hx => h hw x.1 x.2 hx⟩

/-- The pool of these calls. -/
abbrev jobSystem (P : Platform) (C : Settings) (S : RBACService) (worker : Nat → Prop) :
    System Op.Res Exn World :=
  (jobCalls P C S).system (mayRun worker) (served worker) BesideWork

namespace Orphans

open Outbox

variable {P : Platform} {C : Settings} {S : RBACService} {worker : Nat → Prop} {W₀ : World}
variable {T : Nat → Trace}
variable {pool : (jobSystem P C S worker).Pool}

/-! ## The threads -/

/-- Jobs are executed by workers. -/
theorem worker_of (h : System.Reachable W₀ pool) {i : Nat} {m : TaskMessage}
    (hi : (pool.threads i).call? = some (JobCall.execute m)) : worker i :=
  Calls.may_of_reachable h hi

/-- An execution is served. -/
theorem serves (h : System.Records W₀ pool T) {i : Nat} (hw : worker i) :
    ∀ x ∈ T i, Progress.Answered x.1 x.2 := by
  refine h.answered (A := Progress.Answered) fun c o W r W' hstep => ⟨?_, Calls.answers hstep⟩
  obtain ⟨ch, hserved, hs⟩ := hstep
  exact hserved hw r W' hs

/-- A body runs on the message it has taken. -/
theorem body_message (h : System.Reachable W₀ pool) {i : Nat} {c : JobCall}
    {p : Service c.Ret} (hi : pool.threads i = .running c p) :
    (pool.shared.bodies i).bind Body.message = c.message := by
  induction h generalizing c with
  | refl => cases hi
  | @tail Q pool hsteps hstep ih =>
    -- a thread starts and ends for its own body only
    have other {j : Nat} (he : i ≠ j) {s : World} {t : (jobSystem P C S worker).Thread}
        (hi : (Q.set s j t).threads i = .running c p) (b : Option Body) :
        (Function.update Q.shared.bodies j b i).bind Body.message = c.message := by
      rw [System.Pool.set_other _ _ _ he] at hi
      rw [Function.update_of_ne he]
      exact ih hi
    cases hstep with
    | start j d hj hc =>
      by_cases he : i = j
      · subst he
        rw [System.Pool.set_self] at hi
        cases hi
        show (Function.update Q.shared.bodies i _ i).bind Body.message = _
        rw [Function.update_self]
        rfl
      · exact other he hi _
    | @exec j d o k hj r W hs =>
      obtain ⟨ch, -, hs⟩ := hs
      show (W.bodies i).bind Body.message = _
      rw [(opStep_part hs).bodies]
      by_cases he : i = j
      · subst he
        rw [System.Pool.set_self] at hi
        cases hi
        exact ih hj
      · rw [System.Pool.set_other _ _ _ he] at hi
        exact ih hi
    | finish j d q hj r hr =>
      by_cases he : i = j
      · subst he
        rw [System.Pool.set_self] at hi
        cases hi
      · exact other he hi _
    | crash j d q hj =>
      by_cases he : i = j
      · subst he
        rw [System.Pool.set_self] at hi
        cases hi
      · exact other he hi _
    | env W hs =>
      show (W.bodies i).bind Body.message = _
      rw [hs.bodies]
      exact ih hi

/-- What is left of an execution does as its walk says. -/
theorem walking (h : System.Records W₀ pool T) {i : Nat} {m : TaskMessage} {p : Service Unit}
    (hi : pool.threads i = .running (JobCall.execute m) p) {J : UUID} (hm : m.jobId? = some J) :
    p.Watched (Progress.next J) Progress.Answered (Progress.Allowed J)
      (fun _ s => s.inCharge = false) (fun e _ => e.defers = true) (Progress.of J (T i)) := by
  refine h.watched hi ?_ (serves h (worker_of h.reachable (by rw [hi]; rfl)))
  show (executeBackgroundJob P C (m.payload.get "job_id")).Watched _ _ _ _ _ _
  rw [executeBackgroundJob_some hm]
  exact Progress.walks_execute idle rfl

/-- A body that does something executes a job. -/
theorem executing (h : System.Records W₀ pool T) {i : Nat} {m : TaskMessage} {o : Op}
    {k : Except Exn o.Res → Service Unit}
    (hi : pool.threads i = .running (JobCall.execute m) (.op o k)) : ∃ J, m.jobId? = some J := by
  rcases hm : m.jobId? with _ | J
  · obtain ⟨e, he⟩ := executeBackgroundJob_none (P := P) (C := C) hm
    have hgoes := h.followed i
    rw [hi] at hgoes
    have hgoes : (executeBackgroundJob P C (m.payload.get "job_id")).Goes (T i) (.op o k) := hgoes
    rw [he] at hgoes
    generalize T i = t at hgoes
    cases hgoes
  · exact ⟨J, rfl⟩

/-! ## The commits -/

theorem sessions_beside (W W' : World) (h : BesideWork W W') :
    W'.store.sessions = W.store.sessions := h.sessions

/-- What an execution is about to commit. -/
theorem entitled (h : System.Records W₀ pool T) {i : Nat} {m : TaskMessage}
    {k : Except Exn Unit → Service Unit}
    (hi : pool.threads i = .running (JobCall.execute m) (.op .commit k)) {J : UUID}
    (hm : m.jobId? = some J) :
    (Progress.of J (T i)).inCharge = true ∧ Progress.Entitled J (Progress.of J (T i)).pending ∧
      Stamped (Progress.of J (T i)).pending (pool.shared.store.sessions i).writes := by
  obtain ⟨hcharge, hentitled⟩ := (walking h hi hm).1
  exact ⟨hcharge, hentitled, Progress.pending_of sessions_beside h hi (fun x hx =>
    (serves h (worker_of h.reachable (by rw [hi]; rfl)) x hx).1) J⟩

theorem aside_job (l c : BackgroundJob) : Aside (.update .backgroundJobs l c) := fun db =>
  ⟨Write.apply_other _ _ jobs_ne_messages.symm,
    Write.map_apply_update (t := .backgroundJobs) db BackgroundJob.name fun _ => rfl⟩

theorem aside_delivery {w : Write} (hw : w.table = .notificationDeliveries) : Aside w := fun db =>
  ⟨Write.apply_other _ _ (by rw [hw]; decide), by rw [Write.apply_other _ _ (by rw [hw]; decide)]⟩

theorem aside_entitled {J : UUID} {ws ws' : List Write} (h : Progress.Entitled J ws)
    (hs : Stamped ws ws') : ∀ w ∈ ws', Aside w := by
  have deliveries {ws ws' : List Write} (h : ∀ w ∈ ws, w.table = .notificationDeliveries)
      (hs : Stamped ws ws') : ∀ w ∈ ws', Aside w := fun w hw => by
    obtain ⟨w₀, hw₀, τ, rfl⟩ := exists_of_forall₂ hs hw
    exact aside_delivery ((Write.table_stamp _ _).trans (h w₀ hw₀))
  cases h with
  | deliveries h => exact deliveries h hs
  | job hid hl h =>
    cases hs with
    | cons hjob hs =>
      obtain ⟨τ, rfl⟩ := hjob
      rw [List.forall_mem_cons]
      exact ⟨aside_job _ _, deliveries h hs⟩

/-- What a submission or a dispatcher is about to commit. -/
theorem committing_outbox (h : System.Records W₀ pool T) {i : Nat} {c : OutboxCall}
    {k : Except Exn Unit → Service c.Ret}
    (hi : pool.threads i = .running (JobCall.outbox c) (.op .commit k)) :
    Outbox.Commits P C c (T i) (pool.shared.store.sessions i).writes := by
  cases c with
  | submitEmailNotification correlationId context ticketId key =>
    exact committing_submission sessions_beside h hi
      (ends_submitEmailNotification P ⟨C, S, correlationId⟩ context ticketId key)
  | submitTicketExport correlationId context status priority key =>
    exact committing_submission sessions_beside h hi
      (ends_submitTicketExport P ⟨C, S, correlationId⟩ context status priority key)
  | dispatchOnce => exact committing_dispatch sessions_beside h hi safe_dispatchOnce

/-- Executions serve the outbox, too: none of it is their business. -/
theorem serving : Serving P C (K := jobCalls P C S) (mayRun worker) (served worker) BesideWork W₀
    where
  beside _ _ hW := hW.toBesideOutbox
  concern := by
    intro pool T h i c k hi
    cases c with
    | execute m =>
      obtain ⟨J, hm⟩ := executing h hi
      obtain ⟨-, hentitled, hstamped⟩ := entitled h hi hm
      exact .aside (aside_entitled hentitled hstamped)
    | outbox c => exact (committing_outbox h hi).concern

/-! ## What an operation does to a job -/

section Rows

variable {i : Nat} {c : JobCall} {o : Op} {k : Except Exn o.Res → Service c.Ret} {ch : Choice}
variable {r : Except Exn o.Res} {W : World} {J : UUID}

/-- Nobody changes a job but who executes it. -/
theorem row_kept (h : System.Records W₀ pool T) (hi : pool.threads i = .running c (.op o k))
    (hstep : opStep i ch o pool.shared = some (r, W))
    (hother : ∀ m, c = .execute m → m.jobId? ≠ some J) {job : BackgroundJob}
    (hjob : job ∈ pool.shared.store.db .backgroundJobs) (hid : job.id = J) :
    job ∈ W.store.db .backgroundJobs := by
  rcases opStep_commits hstep with ⟨hdb, -⟩ | ⟨rfl, hc⟩
  · rwa [hdb]
  have submitted (hs : Submission (pool.shared.store.sessions i).writes) :
      job ∈ W.store.db .backgroundJobs := by
    obtain ⟨job', m, hws, -⟩ := hs
    rw [hc.db, Store.view, hws]
    exact (inserted_jobs _ job' m).symm ▸ List.mem_append_left _ hjob
  cases c with
  | outbox c =>
    have hcommits := committing_outbox h hi
    cases c with
    | submitEmailNotification correlationId context ticketId key => exact submitted hcommits
    | submitTicketExport correlationId context status priority key => exact submitted hcommits
    | dispatchOnce =>
      obtain ⟨now, attempts, rows, -, hws, -⟩ := hcommits
      rw [hc.db, Store.view, hws]
      refine (Write.foldl_other (fun w hw => ?_) _).symm ▸ hjob
      obtain ⟨x, -, rfl⟩ := List.mem_map.mp hw
      exact jobs_ne_messages
  | execute m =>
    obtain ⟨J', hm⟩ := executing h hi
    obtain ⟨-, hentitled, hstamped⟩ := entitled h hi hm
    generalize (Progress.of J' (T i)).pending = ws at hentitled hstamped
    cases hentitled with
    | deliveries hws =>
      rwa [committed_other hc hstamped fun w hw => by rw [hws w hw]; decide]
    | job hl hlive hws =>
      obtain ⟨τ, vs, -, -, hrows⟩ := job_updated hc hstamped fun w hw => by rw [hws w hw]; decide
      rw [hrows, List.mem_map]
      refine ⟨job, hjob, if_neg fun he => hother m rfl ?_⟩
      rw [hm, ← hl, ← he, hid]

/-- A commit that ends the job leaves it finished. -/
theorem finished_of_ends {ws : List Write} {V : World}
    (hc : Store.Committed schema i V.store W.store) (hentitled : Progress.Entitled J ws)
    (hstamped : Stamped ws (V.store.sessions i).writes) (hends : ws.any (Progress.ends J) = true)
    (hex : ∃ job ∈ V.store.db .backgroundJobs, job.id = J) :
    ∃ job ∈ W.store.db .backgroundJobs, job.id = J ∧ job.status.terminal = true := by
  cases hentitled with
  | deliveries hws =>
    rw [Progress.any_ends_deliveries hws] at hends
    cases hends
  | @job l c ws hl hlive hws =>
    obtain ⟨job, hjob, hid⟩ := hex
    obtain ⟨τ, vs, -, -, hrows⟩ := job_updated hc hstamped fun w hw => by rw [hws w hw]; decide
    rw [List.any_cons, Progress.any_ends_deliveries hws, Bool.or_false] at hends
    have hterm : c.status.terminal = true := by
      simpa [Progress.ends, hl, hlive] using hends
    refine ⟨_, hrows ▸ List.mem_map_of_mem hjob, ?_⟩
    rw [if_pos (hid.trans hl.symm)]
    refine ⟨hid, ?_⟩
    show (Table.changed l.status c.status job.status).terminal = true
    rw [Table.changed, if_neg (Progress.live_ne hlive hterm)]
    exact hterm

/-- Who gives up the charge of a job leaves it finished. -/
theorem finished_of_lost {m : TaskMessage} {k : Except Exn o.Res → Service Unit}
    (h : System.Records W₀ pool T)
    (hi : pool.threads i = .running (JobCall.execute m) (.op o k)) (hm : m.jobId? = some J)
    (hstep : opStep i ch o pool.shared = some (r, W)) (hserves : Serves o r)
    (hex : ∃ job ∈ pool.shared.store.db .backgroundJobs, job.id = J)
    (hs : (Progress.of J (T i)).inCharge = true)
    (hlost : (Progress.next J (Progress.of J (T i)) ⟨o, r⟩).inCharge = false) :
    ∃ job ∈ W.store.db .backgroundJobs, job.id = J ∧ job.status.terminal = true := by
  have kept (hn : (Progress.next J (Progress.of J (T i)) ⟨o, r⟩).inCharge =
      (Progress.of J (T i)).inCharge) :
      ∃ job ∈ W.store.db .backgroundJobs, job.id = J ∧ job.status.terminal = true := by
    rw [hn, hs] at hlost
    cases hlost
  cases o with
  | commit =>
    obtain ⟨-, hentitled, hstamped⟩ := entitled h hi hm
    obtain ⟨a, rfl⟩ := hserves.2 rfl
    rcases (commit_step hstep).1 with ⟨hc, -⟩ | ⟨-, -, e, he⟩
    · have hends : (Progress.of J (T i)).pending.any (Progress.ends J) = true := by
        simpa [Progress.next, hs] using hlost
      exact finished_of_ends hc hentitled hstamped hends hex
    · cases he
  | selectForUpdate t q =>
    cases t with
    | backgroundJobs =>
      obtain ⟨rfl, hpending⟩ : (q = fun db => db.get .backgroundJobs J) ∧ _ := (walking h hi hm).1
      have hw := worker_of h.reachable (i := i) (m := m) (by rw [hi]; rfl)
      have hstamped := Progress.pending_of sessions_beside h hi (fun x hx => (serves h hw x hx).1) J
      rw [hpending, stamped_nil] at hstamped
      obtain ⟨found, rfl⟩ := hserves.2 rfl
      rcases (selectForUpdate_step hstep).1 with ⟨hk, hfound⟩ | ⟨-, -, e, he⟩
      · obtain ⟨hquery, -⟩ := hfound found rfl
        rw [Store.view, hstamped, List.foldl_nil] at hquery
        obtain ⟨job, hjob, hid⟩ := hex
        rcases hget : pool.shared.store.db.get .backgroundJobs J with _ | job'
        · exact absurd (decide_eq_true hid) (List.find?_eq_none.mp hget job hjob)
        · rw [hk.db]
          have hfind := List.find?_some hget
          refine ⟨job', List.mem_of_find?_eq_some hget, of_decide_eq_true hfind, ?_⟩
          have hfound : found = some job' := hquery.trans hget
          subst hfound
          simpa [Progress.next, hs] using hlost
      · cases he
    | _ => exact kept (by cases r <;> rfl)
  | _ => exact kept (by cases r <;> rfl)

end Rows

/-! ## Who answers for a job -/

/-- A running body is in charge of job `J`. -/
def Driven (pool : (jobSystem P C S worker).Pool) (T : Nat → Trace) (J : UUID) : Prop :=
  ∃ i m p, pool.threads i = .running (JobCall.execute m) p ∧ m.jobId? = some J ∧
    (Progress.of J (T i)).inCharge = true

/-- Job `J` is finished, or the broker or a body has it. -/
def Settled (pool : (jobSystem P C S worker).Pool) (T : Nat → Trace) (J : UUID) : Prop :=
  (∃ job ∈ pool.shared.store.db .backgroundJobs, job.id = J ∧ job.status.terminal = true) ∨
    (∃ task ∈ pool.shared.queue, task.jobId? = some J) ∨ Driven pool T J

variable {J : UUID}

/-- What the broker has stays there, until a body takes it. -/
theorem queue_kept {i : Nat} {ch : Choice} {o : Op} {W W' : World} {r : Except Exn o.Res}
    (h : opStep i ch o W = some (r, W')) : W.queue ⊆ W'.queue := by
  cases o with
  | publish task =>
    simp only [opStep] at h
    have grows {V : World} {fault : Option Lib.Fault} {a : Except Exn Unit}
        (h : W.awaiting fault a V = some (r, W')) (hV : W.queue ⊆ V.queue) :
        W.queue ⊆ W'.queue := by
      rcases awaiting_or h with rfl | rfl
      · exact List.Subset.refl _
      · exact hV
    split at h
    · exact grows h (List.subset_append_left _ _)
    · split at h
      · exact grows h (List.subset_append_left _ _)
      · exact grows h (List.Subset.refl _)
  | _ => exact ((opStep_part h).parts .queue (by simp [Op.part])).symm ▸ List.Subset.refl _

/-- A task that was handed over is at the broker. -/
theorem queue_published {i : Nat} {ch : Choice} {task : TaskMessage} {W W' : World}
    (h : opStep i ch (.publish task) W = some (.ok (), W')) : task ∈ W'.queue := by
  simp only [opStep] at h
  split at h
  · unfold World.awaiting at h
    split at h <;> cases h
    exact List.mem_append_right _ (List.mem_singleton.mpr rfl)
  · unfold World.awaiting at h
    split at h <;> cases h

theorem settled_start (h : System.Records W₀ pool T) {i : Nat} {c : JobCall}
    (hi : pool.threads i = .idle) (hs : Settled pool T J) :
    Settled (pool.set (pool.shared.accept i c.message) i (.running c (c.prog P C S))) T J := by
  have hidle : T i = [] := by
    have hf := h.followed i
    rwa [hi] at hf
  rcases hs with hdone | ⟨task, htask, hname⟩ | ⟨j, m, p, hj, hm, hcharge⟩
  · exact .inl hdone
  · cases c with
    | outbox c => exact .inr (.inl ⟨task, htask, hname⟩)
    | execute m =>
      by_cases he : task = m
      · subst he
        refine .inr (.inr ⟨i, task, _, System.Pool.set_self .., hname, ?_⟩)
        rw [hidle]
        rfl
      · exact .inr (.inl ⟨task, (List.mem_erase_of_ne he).mpr htask, hname⟩)
  · refine .inr (.inr ⟨j, m, p, ?_, hm, hcharge⟩)
    rw [System.Pool.set_other]
    · exact hj
    · rintro rfl
      rw [hi] at hj
      cases hj

/-- What is left at the end of a body, and of a process that dies. -/
theorem settled_settle (h : System.Records W₀ pool T) {i : Nat} {c : JobCall} {p : Service c.Ret}
    (hi : pool.threads i = .running c p) {again : Bool} {t : (jobSystem P C S worker).Thread}
    (hend : ∀ m, c = .execute m → m.jobId? = some J → again = false →
      (Progress.of J (T i)).inCharge = false)
    (hs : Settled pool T J) : Settled (pool.set (pool.shared.settle i again) i t) T J := by
  rcases hs with hdone | ⟨task, htask, hname⟩ | ⟨j, m, q, hj, hm, hcharge⟩
  · exact .inl hdone
  · exact .inr (.inl ⟨task, List.mem_append_left _ htask, hname⟩)
  · by_cases he : j = i
    · subst he
      obtain ⟨rfl, hq⟩ := (System.Thread.running.injEq ..).mp (hj.symm.trans hi)
      cases again with
      | false =>
        rw [hend m rfl hm rfl] at hcharge
        cases hcharge
      | true =>
        refine .inr (.inl ⟨m, List.mem_append_right _ ?_, hm⟩)
        rw [if_pos rfl, body_message h.reachable hj]
        exact List.mem_singleton.mpr rfl
    · refine .inr (.inr ⟨j, m, q, ?_, hm, hcharge⟩)
      rw [System.Pool.set_other _ _ _ he]
      exact hj

/-- A step of a thread that is not in charge of the job leaves it settled. -/
theorem settled_beside {i : Nat} {W : World} {t : (jobSystem P C S worker).Thread} {u : Trace}
    (hrows : ∀ job ∈ pool.shared.store.db .backgroundJobs, job.id = J →
      job ∈ W.store.db .backgroundJobs)
    (hqueue : pool.shared.queue ⊆ W.queue)
    (hcharge : ∀ m p, pool.threads i = .running (JobCall.execute m) p → m.jobId? = some J →
      (Progress.of J (T i)).inCharge = false)
    (hs : Settled pool T J) : Settled (pool.set W i t) (Function.update T i u) J := by
  rcases hs with ⟨job, hjob, hid, hterm⟩ | ⟨task, htask, hname⟩ | ⟨j, m, p, hj, hm, hdrives⟩
  · exact .inl ⟨job, hrows job hjob hid, hid, hterm⟩
  · exact .inr (.inl ⟨task, hqueue htask, hname⟩)
  · have hij : j ≠ i := by
      rintro rfl
      rw [hcharge m p hj hm] at hdrives
      cases hdrives
    refine .inr (.inr ⟨j, m, p, ?_, hm, ?_⟩)
    · rw [System.Pool.set_other _ _ _ hij]
      exact hj
    · rwa [Function.update_of_ne hij]

/-- **Who gives a job up hands it on.** -/
theorem settled_exec (h : System.Records W₀ pool T) {i : Nat} {c : JobCall} {o : Op}
    {k : Except Exn o.Res → Service c.Ret} (hi : pool.threads i = .running c (.op o k))
    {r : Except Exn o.Res} {W : World}
    (hstep : (jobSystem P C S worker).step i c o pool.shared r W)
    (hex : ∃ job ∈ pool.shared.store.db .backgroundJobs, job.id = J) (hs : Settled pool T J) :
    Settled (pool.set W i (.running c (k r))) (Function.update T i (T i ++ [⟨o, r⟩])) J := by
  obtain ⟨ch, hserved, hstep⟩ := hstep
  -- an execution of another job, a submission or a dispatcher
  have other (hother : ∀ m, c = .execute m → m.jobId? ≠ some J) :
      Settled (pool.set W i (.running c (k r))) (Function.update T i (T i ++ [⟨o, r⟩])) J := by
    refine settled_beside (fun job hjob hid => row_kept h hi hstep hother hjob hid)
      (queue_kept hstep) (fun m p hj hm => ?_) hs
    obtain ⟨rfl, -⟩ := (System.Thread.running.injEq ..).mp (hj.symm.trans hi)
    exact absurd hm (hother m rfl)
  cases c with
  | outbox c => exact other nofun
  | execute m =>
    by_cases hm : m.jobId? = some J
    · have hw := worker_of h.reachable (i := i) (m := m) (by rw [hi]; rfl)
      have hserves := hserved hw r W hstep
      have hnext : Progress.of J (Function.update T i (T i ++ [⟨o, r⟩]) i) =
          Progress.next J (Progress.of J (T i)) ⟨o, r⟩ := by
        rw [Function.update_self, Progress.of_snoc]
      cases hcharge' : (Progress.next J (Progress.of J (T i)) ⟨o, r⟩).inCharge with
      | true =>
        exact .inr (.inr ⟨i, m, _, System.Pool.set_self .., hm, by rw [hnext, hcharge']⟩)
      | false =>
        cases hcharge : (Progress.of J (T i)).inCharge with
        | true => exact .inl (finished_of_lost h hi hm hstep hserves hex hcharge hcharge')
        | false =>
          -- the body has nothing more to say about the job
          have hdb : W.store.db = pool.shared.store.db := by
            rcases opStep_commits hstep with ⟨hdb, -⟩ | ⟨rfl, -⟩
            · exact hdb
            · rw [(entitled h hi hm).1] at hcharge
              cases hcharge
          refine settled_beside (fun job hjob _ => ?_) (queue_kept hstep)
            (fun _ _ _ _ => hcharge) hs
          rwa [hdb]
    · refine other fun m' he => ?_
      cases he
      exact hm

/-- A body that ends by itself without a `Retry` is not in charge any more. -/
theorem discharged (h : System.Records W₀ pool T) {i : Nat} {m : TaskMessage} {p : Service Unit}
    (hi : pool.threads i = .running (JobCall.execute m) p) (hm : m.jobId? = some J)
    {r : Except Exn Unit} (hr : System.outcome? p = some r) (hd : deferred r = false) :
    (Progress.of J (T i)).inCharge = false := by
  have hwalk := walking h hi hm
  cases p with
  | ret a => exact hwalk
  | raise e =>
    cases hr
    rw [show deferred (.error e) = e.defers from rfl, hwalk] at hd
    cases hd
  | op o k => cases hr

theorem settled_env {W : World} (henv : BesideWork pool.shared W) (hs : Settled pool T J) :
    Settled ⟨W, pool.threads⟩ T J := by
  rcases hs with ⟨job, hjob, hid, hterm⟩ | ⟨task, htask, hname⟩ | hdriven
  · have hmem : (job.id, job.status) ∈
        (W.store.db .backgroundJobs).map fun job => (job.id, job.status) := by
      rw [henv.statuses]
      exact List.mem_map_of_mem hjob
    obtain ⟨job', hjob', he⟩ := List.mem_map.mp hmem
    obtain ⟨hid', hstatus⟩ := Prod.mk.inj he
    exact .inl ⟨job', hjob', hid'.trans hid, by rw [hstatus]; exact hterm⟩
  · exact .inr (.inl ⟨task, henv.queue ▸ htask, hname⟩)
  · exact .inr (.inr hdriven)

/-! ## The outbox hands jobs on -/

theorem jobId?_task {m : OutboxMessage} (h : Addressed m) : m.task.jobId? = some m.jobId := by
  obtain ⟨-, rest, hpayload⟩ := h
  have hget : m.task.payload.get "job_id" = .str m.jobId.str := by
    rw [OutboxMessage.task, JsonObject.get, hpayload, List.lookup_cons_self]
    rfl
  rw [TaskMessage.jobId?, hget]
  exact UUID.parse_str _

theorem mem_names {db : Db} (h : Outbox.Opened db) {J : UUID} :
    (∃ job ∈ db .backgroundJobs, job.id = J) ↔ ∃ m ∈ db .outboxMessages, m.jobId = J := by
  have hmem : (∃ job ∈ db .backgroundJobs, job.id = J) ↔
      J ∈ ((db .backgroundJobs).map BackgroundJob.name).map Prod.fst := by
    simp [BackgroundJob.name]
  rw [hmem, ← h.names]
  simp [OutboxMessage.names]

theorem nodup_jobs {db : Db} (h : Outbox.Opened db) :
    ((db .backgroundJobs).map BackgroundJob.id).Nodup := by
  have hids : (db .backgroundJobs).map BackgroundJob.id =
      (db .outboxMessages).map OutboxMessage.jobId := by
    have hfst := congrArg (List.map Prod.fst) h.names
    rw [List.map_map, List.map_map] at hfst
    exact hfst.symm
  rw [hids]
  exact h.jobIds

/-- Jobs stay. -/
theorem job_kept {db db' : Db} (h : Outbox.Opened db) (h' : Outbox.Opened db')
    (hk : Outbox.Kept db db')
    (hex : ∃ job ∈ db .backgroundJobs, job.id = J) : ∃ job ∈ db' .backgroundJobs, job.id = J := by
  obtain ⟨m, hm, rfl⟩ := (mem_names h).mp hex
  obtain ⟨m', hm', he⟩ := List.mem_map.mp (hk.subset (List.mem_map_of_mem hm))
  exact (mem_names h').mpr ⟨m', hm', congrArg (fun x => x.2.1) he⟩

/-- Only dispatchers publish. -/
theorem dispatching (h : System.Records W₀ pool T) {i : Nat} {c : JobCall} {task : TaskMessage}
    {k : Except Exn Unit → Service c.Ret}
    (hi : pool.threads i = .running c (.op (.publish task) k)) :
    Dispatching P C (T i) (.publish task) := by
  cases c with
  | execute m =>
    obtain ⟨J, hm⟩ := executing h hi
    exact (walking h hi hm).1.elim
  | outbox c =>
    cases c with
    | submitEmailNotification correlationId context ticketId key =>
      exact (h.performs hi (fun _ _ _ _ _ _ _ => trivial) (safe_of_silent
        (silent_submitEmailNotification P ⟨C, S, correlationId⟩ context ticketId key))).elim
    | submitTicketExport correlationId context status priority key =>
      exact (h.performs hi (fun _ _ _ _ _ _ _ => trivial) (safe_of_silent
        (silent_submitTicketExport P ⟨C, S, correlationId⟩ context status priority key))).elim
    | dispatchOnce => exact h.performs hi (fun _ _ _ _ _ _ => found) safe_dispatchOnce

section Dispatch

variable (hq : W₀.Quiet) (h₀ : Outbox.Opened W₀.store.db)

include hq h₀

/-- What a dispatcher commits about a pending message: it stays pending, or its task was handed
over. -/
theorem pending_or_handed (h : System.Records W₀ pool T) {i : Nat}
    {k : Except Exn Unit → Service Nat}
    (hi : pool.threads i = .running (JobCall.outbox .dispatchOnce) (.op .commit k)) {W : World}
    (hc : Store.Committed schema i pool.shared.store W.store) {m : OutboxMessage}
    (hm : m ∈ pool.shared.store.db .outboxMessages) (hp : m.status = .pending) :
    (∃ m' ∈ W.store.db .outboxMessages, m'.jobId = m.jobId ∧ m'.status = .pending) ∨
      ∃ task, ⟨.publish task, .ok ()⟩ ∈ T i ∧ task.jobId? = some m.jobId := by
  obtain ⟨now, attempts, rows, ht, hws, hsettles⟩ := committing_outbox h hi
  have hopen := serving.opened hq h₀ h.reachable
  obtain ⟨htaken, hnodup⟩ := serving.taken hq h₀ h hi ht
  have hrows : ∀ x ∈ rows, x.1 ∈ pool.shared.store.db .outboxMessages :=
    hsettles.mem fun x hx => (htaken x hx).1
  have hdb : W.store.db .outboxMessages =
      (rows.map fun x => Write.update .outboxMessages x.1 x.2).foldl (fun db w => w.apply db)
        pool.shared.store.db .outboxMessages := by
    rw [hc.db, Store.view, hws]
    rfl
  have hmem {m' : OutboxMessage} := mem_foldl_updates (t := .outboxMessages) (r := m')
    hopen.ids hrows (hsettles.nodup hnodup)
  rw [hdb]
  by_cases hx : ∃ x ∈ rows, m.id = x.1.id
  · obtain ⟨x, hx, hid⟩ := hx
    obtain rfl := List.inj_on_of_nodup_map hopen.ids hm (hrows x hx) hid
    obtain ⟨⟨m, e | publishedAt⟩, hy, τ, rfl⟩ := hsettles.attempted x hx
    · refine .inl ⟨_, hmem.mpr (.inl ⟨_, hx, rfl⟩), rfl, ?_⟩
      exact (congrArg OutboxMessage.status (patch_current ⟨m, .error e⟩)).trans hp
    · refine .inr ⟨m.task, ?_, jobId?_task (hopen.addressed m hm)⟩
      rw [ht]
      exact List.mem_append_left _ (.tail _ (.tail _ (List.mem_flatMap.mpr ⟨_, hy, .head _⟩)))
  · exact .inl ⟨m, hmem.mpr (.inr ⟨hm, fun x hx' he => hx ⟨x, hx', he⟩⟩), rfl, hp⟩

/-- The message of job `J` is still to be handed over. -/
def Pending (db : Db) (J : UUID) : Prop :=
  ∃ m ∈ db .outboxMessages, m.jobId = J ∧ m.status = .pending

omit hq h₀ in
theorem Pending.mono {db db' : Db} (hsub : db .outboxMessages ⊆ db' .outboxMessages) {J : UUID}
    (hp : Pending db J) : Pending db' J := by
  obtain ⟨m, hm, hJ⟩ := hp
  exact ⟨m, hsub hm, hJ⟩

/-- What a commit makes of a job: it is new and its message pending, or the job was there, and if
its message was pending, it still is or its task was handed over. -/
theorem pending_commit (h : System.Records W₀ pool T) {i : Nat} {c : JobCall}
    {k : Except Exn Unit → Service c.Ret} (hi : pool.threads i = .running c (.op .commit k))
    {W : World} (hc : Store.Committed schema i pool.shared.store W.store) {job : BackgroundJob}
    (hjob : job ∈ W.store.db .backgroundJobs) :
    Pending W.store.db job.id ∨
      (∃ job' ∈ pool.shared.store.db .backgroundJobs, job'.id = job.id) ∧
        (Pending pool.shared.store.db job.id → Pending W.store.db job.id ∨
          ∃ task, ⟨.publish task, .ok ()⟩ ∈ T i ∧ task.jobId? = some job.id) := by
  have submitted (hs : Submission (pool.shared.store.sessions i).writes) :
      Pending W.store.db job.id ∨
        (∃ job' ∈ pool.shared.store.db .backgroundJobs, job'.id = job.id) ∧
          (Pending pool.shared.store.db job.id → Pending W.store.db job.id ∨
            ∃ task, ⟨.publish task, .ok ()⟩ ∈ T i ∧ task.jobId? = some job.id) := by
    obtain ⟨job', m, hws, hnames, -, hstatus, -⟩ := hs
    have hjobs : W.store.db .backgroundJobs = pool.shared.store.db .backgroundJobs ++ [job'] := by
      rw [hc.db, Store.view, hws]
      exact inserted_jobs _ job' m
    have hmessages : W.store.db .outboxMessages = pool.shared.store.db .outboxMessages ++ [m] := by
      rw [hc.db, Store.view, hws]
      exact inserted_messages _ job' m
    rw [hjobs] at hjob
    rcases List.mem_append.mp hjob with hjob | hjob
    · refine .inr ⟨⟨job, hjob, rfl⟩, fun hp => .inl (hp.mono ?_)⟩
      rw [hmessages]
      exact List.subset_append_left _ _
    · obtain rfl := List.mem_singleton.mp hjob
      refine .inl ⟨m, ?_, congrArg Prod.fst hnames, hstatus⟩
      rw [hmessages]
      exact List.mem_append_right _ (List.mem_singleton.mpr rfl)
  cases c with
  | outbox c =>
    have hcommits := committing_outbox h hi
    cases c with
    | submitEmailNotification correlationId context ticketId key => exact submitted hcommits
    | submitTicketExport correlationId context status priority key => exact submitted hcommits
    | dispatchOnce =>
      obtain ⟨now, attempts, rows, -, hws, -⟩ := hcommits
      have hjobs : W.store.db .backgroundJobs = pool.shared.store.db .backgroundJobs := by
        rw [hc.db, Store.view, hws]
        refine Write.foldl_other (fun w hw => ?_) _
        obtain ⟨x, -, rfl⟩ := List.mem_map.mp hw
        exact jobs_ne_messages
      refine .inr ⟨⟨job, hjobs ▸ hjob, rfl⟩, fun hpending => ?_⟩
      obtain ⟨m, hm, hid, hp⟩ := hpending
      rw [← hid]
      exact pending_or_handed hq h₀ h hi hc hm hp
  | execute m =>
    obtain ⟨J, hm⟩ := executing h hi
    obtain ⟨-, hentitled, hstamped⟩ := entitled h hi hm
    obtain ⟨hmessages, hnames⟩ :=
      foldl_aside (aside_entitled hentitled hstamped) pool.shared.store.db
    have hname : job.name ∈ (pool.shared.store.db .backgroundJobs).map BackgroundJob.name := by
      rw [← hnames]
      refine List.mem_map_of_mem ?_
      rw [hc.db] at hjob
      exact hjob
    obtain ⟨job', hjob', he⟩ := List.mem_map.mp hname
    refine .inr ⟨⟨job', hjob', congrArg Prod.fst he⟩, fun hp => .inl (hp.mono ?_)⟩
    rw [hc.db, ← hmessages]
    exact List.Subset.refl _

/-- Every job is at the outbox or settled, and every job that was handed over is. -/
structure Accounted (pool : (jobSystem P C S worker).Pool) (T : Nat → Trace) : Prop where
  jobs : ∀ job ∈ pool.shared.store.db .backgroundJobs,
    Pending pool.shared.store.db job.id ∨ Settled pool T job.id
  handed : ∀ i task, ⟨.publish task, .ok ()⟩ ∈ T i → ∀ J, task.jobId? = some J →
    (∃ job ∈ pool.shared.store.db .backgroundJobs, job.id = J) ∧ Settled pool T J

omit hq h₀ in
/-- What a step that is no operation leaves of the account. -/
theorem accounted_other {pool' : (jobSystem P C S worker).Pool} (ha : Accounted pool T)
    (hmessages : pool'.shared.store.db .outboxMessages = pool.shared.store.db .outboxMessages)
    (hjobs : (pool'.shared.store.db .backgroundJobs).map BackgroundJob.name =
      (pool.shared.store.db .backgroundJobs).map BackgroundJob.name)
    (hsettled : ∀ J, Settled pool T J → Settled pool' T J) : Accounted pool' T := by
  have old {db db' : Db} (hjobs : (db' .backgroundJobs).map BackgroundJob.name =
      (db .backgroundJobs).map BackgroundJob.name) {J : UUID}
      (hex : ∃ job ∈ db' .backgroundJobs, job.id = J) : ∃ job ∈ db .backgroundJobs, job.id = J := by
    obtain ⟨job, hjob, rfl⟩ := hex
    obtain ⟨job', hjob', he⟩ := List.mem_map.mp (hjobs ▸ List.mem_map_of_mem hjob)
    exact ⟨job', hjob', congrArg Prod.fst he⟩
  refine ⟨fun job hjob => ?_, fun i task hmem J hname => ?_⟩
  · obtain ⟨job', hjob', hid⟩ := old hjobs ⟨job, hjob, rfl⟩
    rw [← hid]
    refine (ha.jobs job' hjob').imp (Pending.mono ?_) (hsettled _)
    rw [hmessages]
    exact List.Subset.refl _
  · obtain ⟨hex, hs⟩ := ha.handed i task hmem J hname
    exact ⟨old hjobs.symm hex, hsettled J hs⟩

/-- **What an operation leaves of the account.** -/
theorem accounted_exec (h : System.Records W₀ pool T) (ha : Accounted pool T) {i : Nat}
    {c : JobCall} {o : Op} {k : Except Exn o.Res → Service c.Ret}
    (hi : pool.threads i = .running c (.op o k)) {r : Except Exn o.Res} {W : World}
    (hstep : (jobSystem P C S worker).step i c o pool.shared r W) :
    Accounted (pool.set W i (.running c (k r))) (Function.update T i (T i ++ [⟨o, r⟩])) := by
  have hopen := serving.opened hq h₀ h.reachable
  obtain ⟨hopen', hkept⟩ := serving.opened_step hq h (.exec pool i c o k hi r W hstep) hopen
  have settled {J : UUID} (hex : ∃ job ∈ pool.shared.store.db .backgroundJobs, job.id = J)
      (hs : Settled pool T J) :
      Settled (pool.set W i (.running c (k r))) (Function.update T i (T i ++ [⟨o, r⟩])) J :=
    settled_exec h hi hstep hex hs
  have kept {J : UUID} (hex : ∃ job ∈ pool.shared.store.db .backgroundJobs, job.id = J)
      (hpending : Pending pool.shared.store.db J → Pending W.store.db J ∨ Settled pool T J) :
      Pending W.store.db J ∨
        Settled (pool.set W i (.running c (k r))) (Function.update T i (T i ++ [⟨o, r⟩])) J := by
    obtain ⟨job, hjob, rfl⟩ := hex
    have hold : Pending W.store.db job.id ∨ Settled pool T job.id := by
      rcases ha.jobs job hjob with hp | hs
      · exact hpending hp
      · exact .inr hs
    exact hold.imp_right (settled ⟨job, hjob, rfl⟩)
  refine ⟨?_, ?_⟩
  · intro job hjob
    replace hjob : job ∈ W.store.db .backgroundJobs := hjob
    show Pending W.store.db job.id ∨ _
    obtain ⟨ch, -, hop⟩ := hstep
    rcases opStep_commits hop with ⟨hdb, -⟩ | ⟨rfl, hc⟩
    · exact kept ⟨job, hdb ▸ hjob, rfl⟩ fun hp => .inl (hdb ▸ hp)
    · rcases pending_commit hq h₀ h hi hc hjob with hp | ⟨hex, hold⟩
      · exact .inl hp
      · refine kept hex fun hp => (hold hp).imp_right fun hhanded => ?_
        obtain ⟨task, htask, hname⟩ := hhanded
        exact (ha.handed i task htask job.id hname).2
  · intro j task hmem J hname
    have old (hmem : ⟨.publish task, .ok ()⟩ ∈ T j) :
        (∃ job ∈ W.store.db .backgroundJobs, job.id = J) ∧
          Settled (pool.set W i (.running c (k r))) (Function.update T i (T i ++ [⟨o, r⟩])) J := by
      obtain ⟨hex, hs⟩ := ha.handed j task hmem J hname
      exact ⟨job_kept hopen hopen' hkept hex, settled hex hs⟩
    by_cases hj : j = i
    · subst hj
      rw [Function.update_self] at hmem
      rcases List.mem_append.mp hmem with hmem | hmem
      · exact old hmem
      · cases List.mem_singleton.mp hmem
        have hnext := h.exec j c _ k hi _ W hstep
        obtain ⟨ch, -, hpublish⟩ := hstep
        obtain ⟨m, hm, rfl⟩ := serving.committed_of_published hq h₀ hnext
          (Function.update_self ..) (dispatching h hi)
        rw [jobId?_task (hopen'.addressed m hm)] at hname
        obtain rfl := Option.some.inj hname
        exact ⟨(mem_names hopen').mpr ⟨m, hm, rfl⟩,
          .inr (.inl ⟨m.task, queue_published hpublish, jobId?_task (hopen'.addressed m hm)⟩)⟩
    · rw [Function.update_of_ne hj] at hmem
      exact old hmem

/-- **Every job is accounted for in every run.** -/
theorem accounted (hjobs : W₀.store.db .backgroundJobs = []) (h : System.Records W₀ pool T) :
    Accounted pool T := by
  induction h with
  | init =>
    refine ⟨fun job hjob => ?_, fun _ _ hmem => absurd hmem List.not_mem_nil⟩
    replace hjob : job ∈ W₀.store.db .backgroundJobs := hjob
    rw [hjobs] at hjob
    cases hjob
  | start h i c hi hc ih => exact accounted_other ih rfl rfl fun _ => settled_start h hi
  | exec h i c o k hi r W hs ih => exact accounted_exec hq h₀ h ih hi hs
  | finish h i c p hi r hr ih =>
    refine accounted_other ih rfl rfl fun J => settled_settle h hi fun m hm hname hagain => ?_
    subst hm
    exact discharged h hi hname hr hagain
  | crash h i c p hi ih =>
    exact accounted_other ih rfl rfl fun J => settled_settle h hi fun _ _ _ hagain =>
      Bool.noConfusion hagain
  | env h W hs ih =>
    exact accounted_other ih hs.rows hs.jobs fun _ => settled_env hs

end Dispatch

end Orphans

/-- The outbox has still to hand the job over, the broker has a task message for it, or a body that
has taken one is running. -/
def InHand (pool : (jobSystem P C S worker).Pool) (jobId : UUID) : Prop :=
  (∃ m ∈ pool.shared.store.db .outboxMessages, m.jobId = jobId ∧ m.status = .pending) ∨
    (∃ task ∈ pool.shared.queue, task.jobId? = some jobId) ∨
    ∃ i task p, pool.threads i = .running (JobCall.execute task) p ∧ task.jobId? = some jobId

/-- **No accepted job is orphaned.** -/
theorem no_job_is_orphaned (P : Platform) (C : Settings) (S : RBACService) (worker : Nat → Prop)
    {W₀ : World} (hq : W₀.Quiet) (hjobs : W₀.store.db .backgroundJobs = [])
    (hmessages : W₀.store.db .outboxMessages = []) {pool : (jobSystem P C S worker).Pool}
    (h : System.Reachable W₀ pool) :
    ∀ job ∈ pool.shared.store.db .backgroundJobs, job.status.terminal = false →
      InHand pool job.id := by
  intro job hjob hlive
  have h₀ := Outbox.opened_empty hjobs hmessages
  obtain ⟨T, hT⟩ := System.exists_records h
  rcases (Orphans.accounted hq h₀ hjobs hT).jobs job hjob with hp | hs | hs | hs
  · exact .inl hp
  · obtain ⟨job', hjob', hid, hterm⟩ := hs
    have hnodup := Orphans.nodup_jobs (Orphans.serving.opened hq h₀ h)
    rw [List.inj_on_of_nodup_map hnodup hjob' hjob hid, hlive] at hterm
    cases hterm
  · exact .inr (.inl hs)
  · obtain ⟨i, task, p, hi, hname, -⟩ := hs
    exact .inr (.inr ⟨i, task, p, hi, hname⟩)

namespace Orphans

abbrev deployed : Calls := jobCalls .plain {} ⟨false, 300, 30⟩

/-- Runs in which the workers are served. -/
def player (worker : Nat → Prop) [DecidablePred worker] :
    (jobSystem .plain {} ⟨false, 300, 30⟩ worker).Player Choice Empty :=
  deployed.playerOf BesideWork (fun i (c : JobCall) => decide (mayRun worker i c))
    (fun i (c : JobCall) h => of_decide_eq_true (p := mayRun worker i c) h)
    (fun i W o ch => decide (served worker i W o ch)) fun _ _ _ _ h => of_decide_eq_true h

/-- The task of the job the owner submits in `submitted`. -/
def exportTask : TaskMessage :=
  ⟨UUID.str 2, BackgroundJobService.executeJobTask,
    [("job_id", .str (UUID.str 1)), ("correlation_id", .str "c")]⟩

/-- The owner submits an export, and a dispatcher hands its task over. -/
def submitted : List (System.Move JobCall Choice Empty) :=
  [.start 0 (.outbox (.submitTicketExport (some "c") .owner none none "key")),
    .ops 0 [{}, {}, { uuid := 1 }, { uuid := 2 }, {}, {}, {}, {}], .finish 0,
    .start 1 (.outbox .dispatchOnce), .ops 1 [{}, {}, {}, {}, {}, {}], .finish 1]

/-- The process that has claimed the job dies, and the next one finds its lease active. -/
def redelivered : List (System.Move JobCall Choice Empty) :=
  submitted ++ [.start 2 (.execute exportTask), .ops 2 [{}, {}, {}, {}], .crash 2,
    .start 3 (.execute exportTask), .ops 3 [{}, {}, {}], .finish 3]

/-- The first statement after the claim fails. -/
def unserved : List (System.Move JobCall Choice Empty) :=
  submitted ++ [.start 2 (.execute exportTask),
    .ops 2 [{}, {}, {}, {}, { fault := some .database }, {}], .finish 2]

def statuses (db : Db) : List BackgroundJobStatus × List OutboxStatus :=
  ((db .backgroundJobs).map (·.status), (db .outboxMessages).map (·.status))

end Orphans

/-- A job whose worker has died waits at the broker. -/
theorem no_job_is_orphaned_redelivered :
    ∃ pool : (jobSystem .plain {} ⟨false, 300, 30⟩ (2 ≤ ·)).Pool,
      System.Reachable (World.fresh Db.provisioned) pool ∧
      Orphans.statuses pool.shared.store.db = ([.running], [.published]) ∧
      pool.shared.queue = [Orphans.exportTask] ∧
      (pool.threads 3).error? = some (.jobLeaseActive 121) ∧
      ∀ job ∈ pool.shared.store.db .backgroundJobs, job.status.terminal = false →
        InHand pool job.id := by
  obtain ⟨pool, hreach, hobs⟩ := (Orphans.player (2 ≤ ·)).replay_map Orphans.redelivered
    (.init (World.fresh Db.provisioned)) (fun pool => (Orphans.statuses pool.shared.store.db,
      pool.shared.queue, (pool.threads 3).error?))
    (b := (([.running], [.published]), [Orphans.exportTask], some (.jobLeaseActive 121)))
    (by decide +kernel)
  obtain ⟨hstatuses, hobs⟩ := Prod.mk.inj hobs
  obtain ⟨hqueue, herror⟩ := Prod.mk.inj hobs
  exact ⟨pool, hreach, hstatuses, hqueue, herror,
    no_job_is_orphaned _ _ _ _ (World.quiet_fresh _) rfl rfl hreach⟩

/-- **An execution whose statement fails leaves a running job to nobody.** -/
theorem a_failed_statement_orphans_its_job :
    ∃ pool : (Orphans.deployed.system (fun _ _ => True) (fun _ _ _ _ => True) BesideWork).Pool,
      System.Reachable (World.fresh Db.provisioned) pool ∧
      Orphans.statuses pool.shared.store.db = ([.running], [.published]) ∧
      pool.shared.queue = [] ∧ ∀ i, (pool.threads i).unfinished? = none := by
  let player := Orphans.deployed.player BesideWork (fun _ _ => true) fun _ _ _ => trivial
  obtain ⟨pool, hplay, hobs⟩ := Option.map_eq_some_iff.mp
    (show (player.replay Orphans.unserved (.init (World.fresh Db.provisioned))).map (fun pool =>
        (Orphans.statuses pool.shared.store.db, pool.shared.queue,
          (List.range 3).all fun i => (pool.threads i).unfinished?.isNone)) =
      some (([.running], [.published]), [], true) by decide +kernel)
  obtain ⟨hstatuses, hobs⟩ := Prod.mk.inj hobs
  obtain ⟨hqueue, hended⟩ := Prod.mk.inj hobs
  refine ⟨pool, player.replay_steps hplay, hstatuses, hqueue, fun i => ?_⟩
  by_cases hi : i < 3
  · exact Option.isNone_iff_eq_none.mp (List.all_eq_true.mp hended i (List.mem_range.mpr hi))
  · have hother : some i ∉ Orphans.unserved.map System.Move.thread? := by
      show some i ∉ [some 0, some 0, some 0, some 1, some 1, some 1, some 2, some 2, some 2]
      simp
      omega
    have hidle : pool.threads i = .idle := player.replay_threads hplay hother
    rw [hidle]
    rfl

end Ticketing
