import Ticketing.Tasks.Execution

/-!
# `tasks/jobs.py`

The body of the Celery task that executes a job, `execute_background_job`
(`executeBackgroundJob`).

The task acknowledges late: its message is in flight until the body has ended, and is delivered
again when the worker process dies. A job that is deferred ends the body with `Retry`
(`deferred`), which sends the message once more; any other end acknowledges it, whatever the
exception.

Left out: the countdown of a retry, as a message may be delivered at any time, and what
`run_background_job` sets up around the executor.
-/

namespace Ticketing

/-- `execute_background_job`, for the `job_id` it is called with; what `Retry` is raised for is
`deferred`. -/
def executeBackgroundJob (P : Platform) (C : Settings) (jobId : Scalar) : Service Unit :=
  match jobId with
  | .str text =>
    match UUID.parse text with
    | some id => BackgroundJobExecutor.execute P C id
    | none => throw .valueError
  | .int _ => throw .attributeError
  | .null => throw .typeError

/-- The exceptions `execute_background_job` turns into a `Retry`. -/
def Exn.defers : Exn → Bool
  | .jobLeaseActive _ | .retryableJob _ => true
  | _ => false

def deferred : Except Exn Unit → Bool
  | .error e => e.defers
  | .ok _ => false

/-- The job a task message is for. -/
def TaskMessage.jobId? (m : TaskMessage) : Option UUID :=
  match m.payload.get "job_id" with
  | .str text => UUID.parse text
  | _ => none

theorem executeBackgroundJob_some {P : Platform} {C : Settings} {m : TaskMessage} {id : UUID}
    (h : m.jobId? = some id) :
    executeBackgroundJob P C (m.payload.get "job_id") = BackgroundJobExecutor.execute P C id := by
  unfold TaskMessage.jobId? at h
  split at h
  · rename_i text htext
    rw [htext]
    simp only [executeBackgroundJob, h]
  · cases h

/-- A message that names no job is done with at once. -/
theorem executeBackgroundJob_none {P : Platform} {C : Settings} {m : TaskMessage}
    (h : m.jobId? = none) :
    ∃ e, executeBackgroundJob P C (m.payload.get "job_id") = throw e := by
  unfold TaskMessage.jobId? at h
  rcases hid : m.payload.get "job_id" with _ | n | text
  · exact ⟨_, rfl⟩
  · exact ⟨_, rfl⟩
  · rw [hid] at h
    simp only at h
    exact ⟨.valueError, by simp only [executeBackgroundJob, h]⟩

end Ticketing
