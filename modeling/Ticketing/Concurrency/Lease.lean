import Ticketing.Concurrency.Attempts

/-!
# Exclusion by lease

Only `_claim` looks at a lease; the executor that holds a job writes it back from the object it
loaded, whatever has become of the row.

* `InTime` is what makes that safe: an executor does nothing any more once its lease has expired.
  `endsBeforeLease` asks for it outright; `withinHardLimit` asks for the hard time limit, which
  implies it where the lease outlasts the limit (`inTime_withinHardLimit`).
* Then the row of a job that runs under a lease is the object of the worker that claimed it last
  (`Held`), every write of a job row starts from the row as committed (`WrittenInTurn`), and the
  states follow `Changes`: a terminal row stays as it is.
* `Coherent` is the invariant: the shape of a job row in each state (`BackgroundJob.Coherent`),
  and for an email job that it has succeeded exactly when its delivery is `SENT`.

Results:
* `coherent_move`, `coherent_deliver`: what a write of a job row and one of a delivery keep.
  `lease_commit` makes of them what any commit of an executor keeps.
* `job_rows_stay_coherent`: job rows stay coherent, whatever fails, is cancelled or crashes, where
  each execution ends before its lease.
* `terminal_states_are_final`: where the lease outlasts the hard time limit, a terminal job never
  changes, and a worker that lost its job leaves it alone.
* `failed_job_is_overwritten`: a run with a shorter lease, in which a job that has failed
  succeeds.
-/

namespace Ticketing

open Lib (Prog Store System Outline)
open Lib.Outline (post)
open BackgroundJobExecutor

/-! ## What is written of a job -/

/-- The columns of a job row that agree with its state. -/
structure BackgroundJob.Coherent (job : BackgroundJob) : Prop where
  bound : 0 < job.maxAttempts
  pending_iff : job.status = .pending ↔ job.attemptCount = 0
  pending : job.status = .pending → job.startedAt = none ∧ job.leaseExpiresAt = none ∧
    job.result = none ∧ job.completedAt = none ∧ job.lastErrorCode = none
  running : job.status = .running → job.leaseExpiresAt.isSome ∧ job.startedAt.isSome ∧
    1 ≤ job.attemptCount ∧ job.attemptCount ≤ job.maxAttempts ∧ job.result = none ∧
    job.completedAt = none ∧ job.lastErrorCode = none
  retrying : job.status = .retrying → job.leaseExpiresAt = none ∧ job.lastErrorCode.isSome ∧
    job.result = none ∧ job.completedAt = none ∧ 1 ≤ job.attemptCount ∧
    job.attemptCount < job.maxAttempts
  succeeded : job.status = .succeeded → job.result.isSome ∧ job.completedAt.isSome ∧
    job.leaseExpiresAt = none ∧ job.lastErrorCode = none
  failed : job.status = .failed → job.lastErrorCode.isSome ∧ job.completedAt.isSome ∧
    job.leaseExpiresAt = none ∧ job.result = none

theorem BackgroundJob.Submitted.coherent {job : BackgroundJob} (h : job.Submitted) :
    job.Coherent := by
  constructor <;> simp [h.status, h.attemptCount, h.startedAt, h.leaseExpiresAt, h.result,
    h.completedAt, h.lastErrorCode, h.maxAttempts]

/-- A job row without the time of its last write. -/
def BackgroundJob.unstamped (job : BackgroundJob) : BackgroundJob := { job with updatedAt := 0 }

/-- The changes of state of a job, `running` under a lease of `lease` seconds. -/
structure Changes (lease : Nat) (job job' : BackgroundJob) : Prop where
  id : job'.id = job.id
  kind : job'.kind = job.kind
  step :
    job'.status = .running ∧ (job.status = .pending ∨ job.status = .retrying ∨
      job.status = .running ∧ ∃ expiry now, job.leaseExpiresAt = some expiry ∧ expiry ≤ now ∧
        job'.leaseExpiresAt = some (now + seconds lease)) ∨
    job.status = .running ∧
      (job'.status = .succeeded ∨ job'.status = .failed ∨ job'.status = .retrying)

section Writers

variable {P : Platform} {C : Settings} {row : BackgroundJob} {now : Time}

theorem coherent_stamped {job : BackgroundJob} (h : job.Coherent) (τ : Time) :
    ({ job with updatedAt := τ } : BackgroundJob).Coherent :=
  ⟨h.bound, h.pending_iff, h.pending, h.running, h.retrying, h.succeeded, h.failed⟩

/-- A running job that is not leased any more: its lease has expired. -/
theorem lapsed {expiry : Time} (hlease : row.leased now = none) (hstatus : row.status = .running)
    (he : row.leaseExpiresAt = some expiry) : expiry ≤ now := by
  by_contra hlt
  rw [BackgroundJob.leased, if_pos hstatus, he, Option.filter_some,
    if_pos (by simpa using hlt)] at hlease
  cases hlease

theorem changes_claimed (h : row.Coherent) (hstatus : row.status.terminal = false)
    (hlease : row.leased now = none) :
    Changes C.backgroundJobLeaseSeconds row (claimed C row now) := by
  refine ⟨rfl, rfl, .inl ⟨rfl, ?_⟩⟩
  cases hs : row.status with
  | pending => exact .inl rfl
  | retrying => exact .inr (.inl rfl)
  | running =>
    obtain ⟨expiry, he⟩ := Option.isSome_iff_exists.mp (h.running hs).1
    exact .inr (.inr ⟨rfl, expiry, now, he, lapsed hlease hs he, rfl⟩)
  | succeeded => rw [hs] at hstatus; cases hstatus
  | failed => rw [hs] at hstatus; cases hstatus

/-- Only a job that runs can have used up its attempts. -/
theorem running_of_exhausted (h : row.Coherent) (hstatus : row.status.terminal = false)
    (hattempts : row.maxAttempts ≤ row.attemptCount) : row.status = .running := by
  cases hs : row.status with
  | pending =>
    have := h.bound
    have := h.pending_iff.mp hs
    omega
  | running => rfl
  | retrying =>
    have := (h.retrying hs).2.2.2.2.2
    omega
  | succeeded => rw [hs] at hstatus; cases hstatus
  | failed => rw [hs] at hstatus; cases hstatus

theorem coherent_claimed (h : row.Coherent) (hstatus : row.status.terminal = false)
    (hattempts : row.attemptCount < row.maxAttempts) : (claimed C row now).Coherent := by
  have hdone : row.result = none ∧ row.completedAt = none := by
    cases hs : row.status with
    | pending => exact ⟨(h.pending hs).2.2.1, (h.pending hs).2.2.2.1⟩
    | retrying => exact ⟨(h.retrying hs).2.2.1, (h.retrying hs).2.2.2.1⟩
    | running => exact ⟨(h.running hs).2.2.2.2.1, (h.running hs).2.2.2.2.2.1⟩
    | succeeded => rw [hs] at hstatus; cases hstatus
    | failed => rw [hs] at hstatus; cases hstatus
  constructor <;> simp [claimed, hdone, h.bound]
  exact hattempts

/-- A job that fails, for whichever reason. -/
theorem coherent_failing {code : String} {message : Option String} (h : row.Coherent)
    (hstatus : row.status = .running) :
    ({ row with
        status := .failed
        lastErrorCode := some code
        lastErrorMessage := message
        completedAt := some now
        leaseExpiresAt := none } : BackgroundJob).Coherent := by
  constructor <;> simp [(h.running hstatus).2.2.2.2.1, h.bound]
  have := (h.running hstatus).2.2.1
  omega

theorem coherent_succeeded {result : JsonObject} (h : row.Coherent)
    (hstatus : row.status = .running) :
    (succeeded row result now).Coherent := by
  constructor <;> simp [succeeded, h.bound]
  have := (h.running hstatus).2.2.1
  omega

theorem coherent_retrying {code message : String} (h : row.Coherent)
    (hstatus : row.status = .running) (hattempts : row.attemptCount < row.maxAttempts) :
    (retrying row code message).Coherent := by
  have hr := h.running hstatus
  constructor <;> simp [retrying, hr.2.2.2.2.1, hr.2.2.2.2.2.1, hattempts, h.bound]
  · omega
  · omega

end Writers

/-- What a write changes of job `J`: the object as loaded, and as written. -/
def Write.jobWrite? (J : UUID) : Write → Option (BackgroundJob × BackgroundJob)
  | update .backgroundJobs l c => if l.id = J then some (l, c) else none
  | _ => none

theorem Write.jobWrite?_other {J : UUID} {w : Write} (h : .backgroundJobs ≠ w.table) :
    w.jobWrite? J = none := by
  cases w with
  | insert t row => rfl
  | update t l c => cases t <;> first | rfl | exact absurd rfl h
  | delete t p ids => rfl
  | revokeAllActive => rfl

section History

variable (J : UUID)

/-- What was written of job `J`, in the order of the commits. -/
def jobWrites (wal : List (Nat × List Write)) : List (BackgroundJob × BackgroundJob) :=
  wal.flatMap fun c => c.2.filterMap (Write.jobWrite? J)

/-- The worker that claimed job `J` last. -/
def holder (wal : List (Nat × List Write)) : Option Nat := (claimers J wal).getLast?

variable {J}

theorem jobWrites_append (wal : List (Nat × List Write)) (c : Nat × List Write) :
    jobWrites J (wal ++ [c]) = jobWrites J wal ++ c.2.filterMap (Write.jobWrite? J) := by
  simp [jobWrites]

theorem holder_append (wal : List (Nat × List Write)) (c : Nat × List Write) :
    holder J (wal ++ [c]) = if c.2.any (Write.claims J) then some c.1 else holder J wal := by
  rw [holder, claimers, committers_append]
  split
  · rw [List.getLast?_append]
    rfl
  · rw [List.append_nil]
    rfl

/-- A history of writes that starts from a pending job and ends at `job`; each write starts from
what the one before it left. -/
structure Changed (lease : Nat) (ws : List (BackgroundJob × BackgroundJob)) (job : BackgroundJob) :
    Prop where
  changes : ∀ w ∈ ws, Changes lease w.1 w.2
  chain : ∃ first : BackgroundJob, first.status = .pending ∧
    (first :: ws.map Prod.snd).map BackgroundJob.unstamped =
      (ws.map Prod.fst ++ [job]).map BackgroundJob.unstamped

theorem changed_nil {lease : Nat} {job : BackgroundJob} (h : job.status = .pending) :
    Changed lease [] job := ⟨fun _ h => absurd h List.not_mem_nil, job, h, rfl⟩

theorem Changed.snoc {lease : Nat} {ws : List (BackgroundJob × BackgroundJob)}
    {row l c : BackgroundJob} (h : Changed lease ws row) (hrow : row.unstamped = l.unstamped)
    (hc : Changes lease l c) : Changed lease (ws ++ [(l, c)]) c where
  changes w hw := by
    rcases List.mem_append.mp hw with hw | hw
    · exact h.changes w hw
    · rw [List.mem_singleton.mp hw]
      exact hc
  chain := by
    obtain ⟨first, hfirst, hchain⟩ := h.chain
    refine ⟨first, hfirst, ?_⟩
    rw [List.map_append, List.map_singleton, List.map_append, List.map_singleton,
      ← List.cons_append, List.map_append, hchain, List.map_append, List.map_append,
        List.map_append]
    simp [hrow]

/-- Only workers that had not claimed job `J`, or that claimed it last, wrote its row. -/
def WrittenInTurn (J : UUID) (wal : List (Nat × List Write)) : Prop :=
  ∀ pre c post, wal = pre ++ c :: post → c.2.filterMap (Write.jobWrite? J) ≠ [] →
    c.1 ∉ claimers J pre ∨ holder J pre = some c.1

theorem WrittenInTurn.snoc {wal : List (Nat × List Write)} {c : Nat × List Write}
    (h : WrittenInTurn J wal) (hc : c.2.filterMap (Write.jobWrite? J) ≠ [] →
      c.1 ∉ claimers J wal ∨ holder J wal = some c.1) : WrittenInTurn J (wal ++ [c]) := by
  intro pre x post he hx
  rcases List.eq_nil_or_concat post with rfl | ⟨post', y, rfl⟩
  · obtain ⟨rfl, hxc⟩ := List.append_inj' he rfl
    obtain rfl := List.singleton_inj.mp hxc
    exact hc hx
  · rw [List.concat_eq_append, ← List.cons_append, ← List.append_assoc] at he
    obtain ⟨hwal, -⟩ := List.append_inj' he rfl
    exact h pre x post' hwal hx

end History

/-! ## The outline -/

/-- The job rows agree with their states and with the deliveries. -/
structure Coherent (lease : Nat) (W : World) : Prop where
  jobIds : W.JobIds
  keys : DeliveryKeys W
  jobs : ∀ job ∈ W.store.db .backgroundJobs, job.Coherent
  known : ∀ d ∈ W.store.db .notificationDeliveries,
    ∃ job ∈ W.store.db .backgroundJobs, job.id = d.jobId
  sent : ∀ job ∈ W.store.db .backgroundJobs, job.kind = .emailNotification →
    (job.status = .succeeded ↔
      ∃ d ∈ W.store.db .notificationDeliveries, d.jobId = job.id ∧ d.status = .sent)
  changed : ∀ job ∈ W.store.db .backgroundJobs,
    Changed lease (jobWrites job.id W.store.wal) job
  unwritten : ∀ J, (∀ job ∈ W.store.db .backgroundJobs, job.id ≠ J) →
    jobWrites J W.store.wal = []
  claimers : ∀ J, (claimers J W.store.wal).Nodup
  turns : ∀ J, WrittenInTurn J W.store.wal

/-- What worker `i` relies on. -/
structure LeaseFrame (i : Nat) (W W' : World) : Prop where
  locks : World.Locks i W W'
  clock : W.clock ≤ W'.clock
  body : W'.bodies i = W.bodies i
  held : ∀ job ∈ W.store.db .backgroundJobs, job.status = .running →
    ∀ expiry, job.leaseExpiresAt = some expiry → W'.clock < expiry →
    holder job.id W.store.wal = some i →
    job ∈ W'.store.db .backgroundJobs ∧ holder job.id W'.store.wal = some i
  final : ∀ job ∈ W.store.db .backgroundJobs, job.status.terminal = true →
    job ∈ W'.store.db .backgroundJobs

theorem LeaseFrame.refl (i : Nat) (W : World) : LeaseFrame i W W :=
  ⟨.refl i W, Nat.le_refl _, rfl, fun _ h _ _ _ _ hh => ⟨h, hh⟩, fun _ h _ => h⟩

theorem LeaseFrame.trans {i : Nat} {W W' W'' : World}
    (hf : Store.Frame schema i W.store W'.store) (h : LeaseFrame i W W')
    (h' : LeaseFrame i W' W'') : LeaseFrame i W W'' where
  locks := h.locks.trans hf h'.locks
  clock := h.clock.trans h'.clock
  body := h'.body.trans h.body
  held job hjob hs expiry he hlt hh := by
    obtain ⟨hjob', hh'⟩ := h.held job hjob hs expiry he (Nat.lt_of_le_of_lt h'.clock hlt) hh
    exact h'.held job hjob' hs expiry he hlt hh'
  final job hjob ht := h'.final job (h.final job hjob ht) ht

section Local

variable {lease i j : Nat} {W W' : World}

theorem coherent_local (h : Store.Local i W.store W'.store) (hi : Coherent lease W) :
    Coherent lease W' where
  jobIds := by rw [World.JobIds, h.db]; exact hi.jobIds
  keys := hi.keys.of_eq (by rw [h.db])
  jobs := by rw [h.db]; exact hi.jobs
  known := by rw [h.db]; exact hi.known
  sent := by rw [h.db]; exact hi.sent
  changed := by rw [h.db, h.wal]; exact hi.changed
  unwritten := by rw [h.db, h.wal]; exact hi.unwritten
  claimers := by rw [h.wal]; exact hi.claimers
  turns := by rw [h.wal]; exact hi.turns

theorem leaseFrame_local (h : Store.Local i W.store W'.store) (hclock : W'.clock = W.clock)
    (hb : W'.bodies j = W.bodies j) : LeaseFrame j W W' where
  locks := .of_db h.db
  clock := hclock.ge
  body := hb
  held job hjob _ _ _ _ hh := ⟨by rw [h.db]; exact hjob, by rw [h.wal]; exact hh⟩
  final job hjob _ := by rw [h.db]; exact hjob

end Local

/-- The outline of executions under leases: it looks at the database, the clock and when each
execution began. -/
def leases (lease : Nat) : WorldOutline where
  inv := Coherent lease
  frame := LeaseFrame
  same W W' := W'.clock = W.clock ∧ W'.bodies = W.bodies
  blind _ := True
  refl := .refl
  trans _ _ _ _ := .trans
  same_setStore _ _ := ⟨rfl, rfl⟩
  same_blind _ hst := ⟨(opStep_part hst).clock, (opStep_part hst).bodies⟩
  inv_local h _ := coherent_local h
  frame_local _ h hs := leaseFrame_local h hs.1 (congrFun hs.2 _)

/-! ## What an executor knows -/

section Knows

variable (lease : Nat) (i : Nat)

/-- The claim of worker `i` that made the object `job`. -/
structure ClaimedAt (job : BackgroundJob) (now : Time) (W : World) : Prop where
  expiry : job.leaseExpiresAt = some (now + seconds lease)
  began : ∃ b, W.bodies i = some b ∧ b.started ≤ now
  written : ∃ ws ∈ W.store.wal, ws.1 = i ∧ ∃ l c, Write.update .backgroundJobs l c ∈ ws.2 ∧
    c.status = .running ∧ c.leaseExpiresAt = job.leaseExpiresAt

/-- The object of the worker's job: a job that runs, and the committed row while the lease lasts. -/
def Held (job : BackgroundJob) : (leases lease).outline.Assertion i where
  holds W := job.status = .running ∧ job.Coherent ∧ ∃ now, ClaimedAt lease i job now W ∧
    (W.clock < now + seconds lease → (∃ τ, ({ job with updatedAt := τ } : BackgroundJob) ∈
      W.store.db .backgroundJobs) ∧ holder job.id W.store.wal = some i)
  stable W W' h hm := by
    obtain ⟨hs, hc, now, ⟨hexp, ⟨b, hb, hle⟩, w, hw, hwi⟩, hrow⟩ := h
    obtain ⟨more, hwal, -⟩ := hm.2.1.wal
    refine ⟨hs, hc, now, ⟨hexp, ⟨b, hm.2.2.body.trans hb, hle⟩, w, ?_, hwi⟩, fun hlt => ?_⟩
    · rw [hwal]
      exact List.mem_append_left _ hw
    · obtain ⟨⟨τ, hmem⟩, hh⟩ := hrow (Nat.lt_of_le_of_lt hm.2.2.clock hlt)
      obtain ⟨hmem', hh'⟩ := hm.2.2.held _ hmem hs _ hexp hlt hh
      exact ⟨⟨τ, hmem'⟩, hh'⟩

/-- The execution has begun, and read the time. -/
def Began (now : Time) : (leases lease).outline.Assertion i where
  holds W := now ≤ W.clock ∧ ∃ b, W.bodies i = some b ∧ b.started ≤ now
  stable _ _ h hm := ⟨h.1.trans hm.2.2.clock, by rw [hm.2.2.body]; exact h.2⟩

/-- The execution runs. -/
def Runs : (leases lease).outline.Assertion i where
  holds W := ∃ b, W.bodies i = some b ∧ b.started ≤ W.clock
  stable _ _ h hm := by
    obtain ⟨b, hb, hle⟩ := h
    exact ⟨b, hm.2.2.body.trans hb, hle.trans hm.2.2.clock⟩

/-- What an executor knows in each phase. -/
def leaseHolds : Phase → (leases lease).outline.Assertion i
  | .fresh => ((leases lease).NoCommit i).and (Runs lease i)
  | .ready now => ((leases lease).NoCommit i).and (Began lease i now)
  | .claimed job | .marking job => Held lease i job
  | .opened job d | .started job d | .sent job d | .unsent job d =>
    (Held lease i job).and (.pure (d.status = .sending))
  | .retrying _ | .ended => .true

end Knows

/-! ## The commits -/

section Commits

variable {lease i : Nat} {W W' : World} {ws : List Write} {l c : BackgroundJob}

/-- A transaction makes `c` of the row of `l`, and writes no other job. -/
structure JobMoves (i : Nat) (W W' : World) (l c : BackgroundJob) : Prop where
  row : ∃ τ, ({ l with updatedAt := τ } : BackgroundJob) ∈ W.store.db .backgroundJobs
  id : c.id = l.id
  ids : W'.JobIds
  rows : ∀ r, r ∈ W'.store.db .backgroundJobs ↔
    r = c ∨ r ∈ W.store.db .backgroundJobs ∧ r.id ≠ l.id
  writes : ∀ J, (W.store.sessions i).writes.filterMap (Write.jobWrite? J) =
    if l.id = J then [(l, c)] else []
  claims : ∀ J, (W.store.sessions i).writes.any (Write.claims J) = true ↔
    l.id = J ∧ c.status = .running

/-- The update of a job whose row is the object it was loaded as. -/
theorem job_moved {τ : Time} (hids : W.JobIds) (hc : Store.Committed schema i W.store W'.store)
    (hw : Stamped (.update .backgroundJobs l c :: ws) (W.store.sessions i).writes)
    (hws : ∀ w ∈ ws, Table.backgroundJobs ≠ w.table)
    (hrow : ({ l with updatedAt := τ } : BackgroundJob) ∈ W.store.db .backgroundJobs)
    (hsame : Table.patch .backgroundJobs l c l = c) :
    ∃ τ', JobMoves i W W' l { c with updatedAt := τ' } := by
  obtain ⟨τ', vs, hwrites, hvs, hdb⟩ := job_updated hc hw hws
  have hid : c.id = l.id := by rw [← hsame]; rfl
  have hpatch : Table.patch .backgroundJobs l (Table.stampUpdate τ' .backgroundJobs c)
      ({ l with updatedAt := τ } : BackgroundJob) =
        ({ c with updatedAt := τ' } : BackgroundJob) := by
    calc Table.patch .backgroundJobs l (Table.stampUpdate τ' .backgroundJobs c)
          ({ l with updatedAt := τ } : BackgroundJob)
        = ({ (Table.patch .backgroundJobs l c l : BackgroundJob) with updatedAt := τ' } :
            BackgroundJob) := rfl
      _ = _ := by rw [hsame]
  have hothers : ∀ w ∈ vs, Table.backgroundJobs ≠ w.table := hvs.table hws
  refine ⟨τ', ⟨τ, hrow⟩, hid, ?_, fun r => ?_, fun J => ?_, fun J => ?_⟩
  · rw [World.JobIds, hdb, List.map_map]
    rw [World.JobIds] at hids
    convert hids using 2
    funext r
    simp only [Function.comp_apply]
    split <;> rfl
  · rw [hdb, List.mem_map]
    constructor
    · rintro ⟨x, hx, rfl⟩
      by_cases hxid : x.id = l.id
      · obtain rfl := List.inj_on_of_nodup_map hids hx hrow hxid
        exact .inl ((if_pos rfl).trans hpatch)
      · rw [if_neg hxid]
        exact .inr ⟨hx, hxid⟩
    · rintro (rfl | ⟨hr, hrid⟩)
      · exact ⟨_, hrow, (if_pos rfl).trans hpatch⟩
      · exact ⟨r, hr, if_neg hrid⟩
  · have hnil : vs.filterMap (Write.jobWrite? J) = [] :=
      List.filterMap_eq_nil_iff.mpr fun w hmem => Write.jobWrite?_other (hothers w hmem)
    rw [hwrites, List.filterMap_cons, hnil]
    by_cases hJ : l.id = J
    · simp [Write.stamp, Write.jobWrite?, Table.stampUpdate, hJ]
    · simp [Write.stamp, Write.jobWrite?, hJ]
  · have hnone : vs.any (Write.claims J) = false :=
      List.any_eq_false.mpr fun w hmem => by simp [Write.claims_other (hothers w hmem)]
    rw [hwrites, List.any_cons, hnone, Bool.or_false, Write.claims_stamp]
    simp [Write.claims]

/-- Only the delivery of job `J` is written. -/
structure DeliveryOf (J : UUID) (W W' : World) : Prop where
  keys : DeliveryKeys W'
  others : ∀ d : NotificationDelivery, d.jobId ≠ J →
    (d ∈ W'.store.db .notificationDeliveries ↔ d ∈ W.store.db .notificationDeliveries)

theorem DeliveryOf.same {J : UUID} (hk : DeliveryKeys W)
    (h : W'.store.db .notificationDeliveries = W.store.db .notificationDeliveries) :
    DeliveryOf J W W' := ⟨hk.of_eq h, fun d _ => by rw [h]⟩

/-- The deliveries still belong to jobs. -/
theorem DeliveryOf.known {J : UUID} (h : DeliveryOf J W W') (hi : Coherent lease W)
    (hJ : ∃ job ∈ W.store.db .backgroundJobs, job.id = J) {d : NotificationDelivery}
    (hd : d ∈ W'.store.db .notificationDeliveries) :
    ∃ job ∈ W.store.db .backgroundJobs, job.id = d.jobId := by
  by_cases hj : d.jobId = J
  · rw [hj]
    exact hJ
  · exact hi.known d ((h.others d hj).mp hd)

/-- What is known of a job other than `J` stays so. -/
theorem DeliveryOf.sent {J : UUID} (h : DeliveryOf J W W') {id : UUID} (hid : id ≠ J) :
    (∃ d ∈ W'.store.db .notificationDeliveries, d.jobId = id ∧ d.status = .sent) ↔
      ∃ d ∈ W.store.db .notificationDeliveries, d.jobId = id ∧ d.status = .sent := by
  refine exists_congr fun d => ⟨fun ⟨hd, hj, hs⟩ => ⟨?_, hj, hs⟩, fun ⟨hd, hj, hs⟩ => ⟨?_, hj, hs⟩⟩
  · exact (h.others d (by rwa [hj])).mp hd
  · exact (h.others d (by rwa [hj])).mpr hd

/-- A job's row is written by its holder, or by a worker that takes over. -/
theorem coherent_move (hi : Coherent lease W) (hl : W.store.LocksOk schema)
    (hc : Store.Committed schema i W.store W'.store) (hs : (leases lease).same W W')
    (hm : JobMoves i W W' l c) (hch : Changes lease l c) (hcoh : c.Coherent)
    (hturn : i ∉ claimers l.id W.store.wal ∨ holder l.id W.store.wal = some i)
    (hclaim : c.status = .running → i ∉ claimers l.id W.store.wal)
    (hlapsed : ∀ j, j ≠ i → l.status = .running → ∀ expiry, l.leaseExpiresAt = some expiry →
      W.clock < expiry → holder l.id W.store.wal ≠ some j)
    (hd : DeliveryOf l.id W W')
    (hsent : c.kind = .emailNotification → (c.status = .succeeded ↔
      ∃ d ∈ W'.store.db .notificationDeliveries, d.jobId = l.id ∧ d.status = .sent)) :
    Coherent lease W' ∧ ∀ j, j ≠ i → LeaseFrame j W W' := by
  obtain ⟨τ, hrow⟩ := hm.row
  have hwrites (J : UUID) : jobWrites J W'.store.wal =
      jobWrites J W.store.wal ++ if l.id = J then [(l, c)] else [] := by
    rw [hc.wal, jobWrites_append, hm.writes]
  have hclaims (J : UUID) : (W.store.sessions i).writes.any (Write.claims J) = true ↔
      l.id = J ∧ c.status = .running := hm.claims J
  have hholder {J : UUID} (hJ : J ≠ l.id) : holder J W'.store.wal = holder J W.store.wal := by
    rw [hc.wal, holder_append, if_neg fun h => hJ ((hclaims J).mp h).1.symm]
  have hold {job : BackgroundJob} (hjob : job ∈ W.store.db .backgroundJobs) :
      job = { l with updatedAt := τ } ∨
        job.id ≠ l.id ∧ job ∈ W'.store.db .backgroundJobs := by
    by_cases hid : job.id = l.id
    · exact .inl (List.inj_on_of_nodup_map hi.jobIds hjob hrow hid)
    · exact .inr ⟨hid, (hm.rows job).mpr (.inr ⟨hjob, hid⟩)⟩
  refine ⟨⟨hm.ids, hd.keys, fun job hjob => ?_, fun d hmem => ?_, fun job hjob hkind => ?_,
    fun job hjob => ?_, fun J hJ => ?_, fun J => ?_, fun J => ?_⟩, fun j hji =>
    ⟨.of_committed hc hl hji, hs.1.ge, by rw [hs.2], fun job hjob hst expiry he hlt hh => ?_,
      fun job hjob ht => ?_⟩⟩
  · rcases (hm.rows job).mp hjob with rfl | ⟨hjob, -⟩
    · exact hcoh
    · exact hi.jobs job hjob
  · obtain ⟨job, hjob, hid⟩ := hd.known hi ⟨_, hrow, rfl⟩ hmem
    rcases hold hjob with rfl | ⟨-, hjob'⟩
    · exact ⟨c, (hm.rows c).mpr (.inl rfl), hm.id.trans hid⟩
    · exact ⟨job, hjob', hid⟩
  · rcases (hm.rows job).mp hjob with rfl | ⟨hjob, hid⟩
    · rw [hm.id]
      exact hsent hkind
    · rw [hd.sent hid]
      exact hi.sent job hjob hkind
  · rcases (hm.rows job).mp hjob with rfl | ⟨hjob, hid⟩
    · rw [hm.id, hwrites, if_pos rfl]
      exact (hi.changed { l with updatedAt := τ } hrow).snoc rfl hch
    · rw [hwrites, if_neg (Ne.symm hid), List.append_nil]
      exact hi.changed job hjob
  · have hne : l.id ≠ J := fun h => hJ c ((hm.rows c).mpr (.inl rfl)) (hm.id.trans h)
    rw [hwrites, if_neg hne, List.append_nil]
    refine hi.unwritten J fun job hjob hid => ?_
    rcases hold hjob with rfl | ⟨-, hjob'⟩
    · exact hne hid
    · exact hJ job hjob' hid
  · rw [hc.wal, claimers, committers_append]
    split
    · rename_i h
      obtain ⟨rfl, hst⟩ := (hclaims J).mp h
      exact (hi.claimers _).append (List.nodup_singleton i)
        (List.disjoint_singleton.mpr (hclaim hst))
    · rw [List.append_nil]
      exact hi.claimers J
  · rw [hc.wal]
    refine (hi.turns J).snoc fun hne => ?_
    rw [hm.writes] at hne
    split at hne
    · rename_i h
      rw [← h]
      exact hturn
    · exact absurd rfl hne
  · rcases hold hjob with rfl | ⟨hid, hjob'⟩
    · exact absurd hh (hlapsed j hji hst expiry he (hs.1 ▸ hlt))
    · rw [hholder hid]
      exact ⟨hjob', hh⟩
  · rcases hold hjob with rfl | ⟨-, hjob'⟩
    · have hterm : l.status.terminal = true := ht
      rcases hch.step with ⟨-, h | h | ⟨h, -⟩⟩ | ⟨h, -⟩ <;> rw [h] at hterm <;> cases hterm
    · exact hjob'

/-- A transaction that writes no job. -/
structure JobsStay (i : Nat) (W W' : World) : Prop where
  db : W'.store.db .backgroundJobs = W.store.db .backgroundJobs
  writes : ∀ J, (W.store.sessions i).writes.filterMap (Write.jobWrite? J) = []
  claims : ∀ J, ¬(W.store.sessions i).writes.any (Write.claims J) = true

theorem jobsStay (hc : Store.Committed schema i W.store W'.store)
    (hw : Stamped ws (W.store.sessions i).writes) (hws : ∀ w ∈ ws, Table.backgroundJobs ≠ w.table) :
    JobsStay i W W' where
  db := committed_other hc hw hws
  writes J := List.filterMap_eq_nil_iff.mpr fun w hmem =>
    Write.jobWrite?_other (hw.table hws w hmem)
  claims J h := by
    obtain ⟨w, hmem, hclaims⟩ := List.any_eq_true.mp h
    rw [Write.claims_other (hw.table hws w hmem)] at hclaims
    cases hclaims

theorem JobsStay.jobWrites (h : JobsStay i W W') (hc : Store.Committed schema i W.store W'.store)
    (J : UUID) : jobWrites J W'.store.wal = Ticketing.jobWrites J W.store.wal := by
  rw [hc.wal, jobWrites_append, h.writes, List.append_nil]

theorem JobsStay.claimers (h : JobsStay i W W') (hc : Store.Committed schema i W.store W'.store)
    (J : UUID) : claimers J W'.store.wal = Ticketing.claimers J W.store.wal := by
  rw [hc.wal, Ticketing.claimers, committers_append, if_neg (h.claims J), List.append_nil]

/-- The delivery of a running job is written, and not as `SENT`. -/
theorem coherent_deliver {job : BackgroundJob} (hi : Coherent lease W)
    (hl : W.store.LocksOk schema) (hc : Store.Committed schema i W.store W'.store)
    (hs : (leases lease).same W W') (hst : JobsStay i W W')
    (hjob : job ∈ W.store.db .backgroundJobs) (hrun : job.status ≠ .succeeded)
    (hd : DeliveryOf job.id W W') (hunsent : job.kind = .emailNotification →
      ∀ d ∈ W'.store.db .notificationDeliveries, d.jobId = job.id → d.status ≠ .sent) :
    Coherent lease W' ∧ ∀ j, j ≠ i → LeaseFrame j W W' := by
  have hholder (J : UUID) : holder J W'.store.wal = holder J W.store.wal := by
    rw [holder, hst.claimers hc, holder]
  refine ⟨⟨?_, hd.keys, ?_, fun d hmem => ?_, fun r hr hkind => ?_, fun r hr => ?_, fun J hJ => ?_,
    fun J => ?_, fun J => ?_⟩, fun j hji => ⟨.of_committed hc hl hji, hs.1.ge, by rw [hs.2],
    fun r hr _ _ _ _ hh => ⟨by rw [hst.db]; exact hr, by rw [hholder]; exact hh⟩,
    fun r hr _ => by rw [hst.db]; exact hr⟩⟩
  · rw [World.JobIds, hst.db]
    exact hi.jobIds
  · rw [hst.db]
    exact hi.jobs
  · rw [hst.db]
    exact hd.known hi ⟨job, hjob, rfl⟩ hmem
  · rw [hst.db] at hr
    by_cases hid : r.id = job.id
    · obtain rfl := List.inj_on_of_nodup_map hi.jobIds hr hjob hid
      exact iff_of_false hrun fun ⟨d, hmem, hj, hsent⟩ => hunsent hkind d hmem hj hsent
    · rw [hd.sent hid]
      exact hi.sent r hr hkind
  · rw [hst.db] at hr
    rw [hst.jobWrites hc]
    exact hi.changed r hr
  · rw [hst.db] at hJ
    rw [hst.jobWrites hc]
    exact hi.unwritten J hJ
  · rw [hst.claimers hc]
    exact hi.claimers J
  · rw [hc.wal]
    exact (hi.turns J).snoc fun hne => absurd (hst.writes J) hne

/-- An executor does nothing any more once its lease has expired. -/
def InTime (lease : Nat) (admits : Admission) : Prop :=
  ∀ i W o c, admits i W o c → ∀ job now, ClaimedAt lease i job now W → W.clock < now + seconds lease

/-- The row of an executor that is in time is its object. -/
theorem held_row {admits : Admission} {job : BackgroundJob} {o : Op} {ch : Choice}
    (hin : InTime lease admits) (ha : admits i W o ch) (h : Held lease i job W) :
    (∃ τ, ({ job with updatedAt := τ } : BackgroundJob) ∈ W.store.db .backgroundJobs) ∧
      holder job.id W.store.wal = some i := by
  obtain ⟨-, -, now, hclaimed, hrow⟩ := h
  exact hrow (hin i W o ch ha job now hclaimed)

/-- A worker that has just claimed the job. -/
theorem held_claimed {C : Settings} {row : BackgroundJob} {now : Time} {τ : Time}
    (hc : Store.Committed schema i W.store W'.store)
    (hs : (leases C.backgroundJobLeaseSeconds).same W W') (hcoh : (claimed C row now).Coherent)
    (hb : Began C.backgroundJobLeaseSeconds i now W)
    (hm : JobMoves i W W' row { claimed C row now with updatedAt := τ }) :
    Held C.backgroundJobLeaseSeconds i (claimed C row now) W' := by
  have hclaims : (W.store.sessions i).writes.any (Write.claims row.id) = true :=
    (hm.claims row.id).mpr ⟨rfl, rfl⟩
  refine ⟨rfl, hcoh, now, ⟨rfl, by rw [hs.2]; exact hb.2, (i, (W.store.sessions i).writes), ?_,
    rfl, row,
    { claimed C row now with updatedAt := τ }, ?_, rfl, rfl⟩, fun _ => ⟨⟨τ, ?_⟩, ?_⟩⟩
  · rw [hc.wal]
    exact List.mem_append_right _ (List.mem_singleton.mpr rfl)
  · have hmem : (row, ({ claimed C row now with updatedAt := τ } : BackgroundJob)) ∈
        (W.store.sessions i).writes.filterMap (Write.jobWrite? row.id) := by
      rw [hm.writes, if_pos rfl]
      exact List.mem_singleton.mpr rfl
    obtain ⟨w, hw, hwj⟩ := List.mem_filterMap.mp hmem
    rcases w with _ | ⟨t, l, c⟩ | _ | _
    · cases hwj
    · cases t <;> try cases hwj
      rw [Write.jobWrite?] at hwj
      split at hwj
      · cases hwj
        exact hw
      · cases hwj
    · cases hwj
    · cases hwj
  · exact (hm.rows _).mpr (.inl rfl)
  · rw [hc.wal, holder_append]
    exact if_pos hclaims

/-- A transaction of a worker that writes no job leaves its hold on one. -/
theorem held_stays {job : BackgroundJob} (hc : Store.Committed schema i W.store W'.store)
    (hs : (leases lease).same W W') (hst : JobsStay i W W') (h : Held lease i job W) :
    Held lease i job W' := by
  obtain ⟨hrun, hcoh, now, ⟨hexp, hb, w, hw, hwi⟩, hrow⟩ := h
  refine ⟨hrun, hcoh, now, ⟨hexp, by rw [hs.2]; exact hb, w, ?_, hwi⟩, fun hlt => ?_⟩
  · rw [hc.wal]
    exact List.mem_append_left _ hw
  · rw [hst.db, holder, hst.claimers hc]
    exact hrow (hs.1 ▸ hlt)

theorem changes_stamped {job' : BackgroundJob} (h : Changes lease l job') (τ : Time) :
    Changes lease l { job' with updatedAt := τ } := ⟨h.id, h.kind, h.step⟩

/-- No mail of a job that has not succeeded counts as sent. -/
theorem Coherent.unsent (hi : Coherent lease W) {job : BackgroundJob}
    (hjob : job ∈ W.store.db .backgroundJobs) (hst : job.status ≠ .succeeded)
    (hkind : job.kind = .emailNotification) {d : NotificationDelivery}
    (hd : d ∈ W.store.db .notificationDeliveries) (hj : d.jobId = job.id) : d.status ≠ .sent :=
  fun hs => hst ((hi.sent job hjob hkind).mpr ⟨d, hd, hj, hs⟩)

/-- The worker that holds a job writes down how its execution ended. -/
theorem coherent_mark {job done : BackgroundJob} {τ : Time} (hi : Coherent lease W)
    (hl : W.store.LocksOk schema) (hc : Store.Committed schema i W.store W'.store)
    (hs : (leases lease).same W W') (hrun : job.status = .running)
    (hrow : ({ job with updatedAt := τ } : BackgroundJob) ∈ W.store.db .backgroundJobs)
    (hh : holder job.id W.store.wal = some i)
    (hw : Stamped (.update .backgroundJobs job done :: ws) (W.store.sessions i).writes)
    (hws : ∀ w ∈ ws, Table.backgroundJobs ≠ w.table)
    (hsame : Table.patch .backgroundJobs job done job = done) (hcoh : done.Coherent)
    (hst : done.status = .succeeded ∨ done.status = .failed ∨ done.status = .retrying)
    (hd : DeliveryOf job.id W W')
    (hsent : job.kind = .emailNotification → (done.status = .succeeded ↔
      ∃ d ∈ W'.store.db .notificationDeliveries, d.jobId = job.id ∧ d.status = .sent)) :
    Coherent lease W' ∧ ∀ j, j ≠ i → LeaseFrame j W W' := by
  obtain ⟨τ', hm⟩ := job_moved hi.jobIds hc hw hws hrow hsame
  have hch : Changes lease job done := by
    refine ⟨by rw [← hsame]; rfl, by rw [← hsame]; rfl, .inr ⟨hrun, ?_⟩⟩
    exact hst
  refine coherent_move hi hl hc hs hm (changes_stamped hch τ') (coherent_stamped hcoh τ') (.inr hh)
    (fun h => ?_) (fun j hji _ _ _ _ hj => ?_) hd fun hk => hsent (hch.kind ▸ hk)
  · have hnot : done.status = .running := h
    rw [hnot] at hst
    rcases hst with h | h | h <;> cases h
  · rw [hh] at hj
    exact hji (Option.some.inj hj).symm

/-- So does it where nothing was sent. -/
theorem coherent_unsent {job done : BackgroundJob} {τ : Time} (hi : Coherent lease W)
    (hl : W.store.LocksOk schema) (hc : Store.Committed schema i W.store W'.store)
    (hs : (leases lease).same W W') (hrun : job.status = .running)
    (hrow : ({ job with updatedAt := τ } : BackgroundJob) ∈ W.store.db .backgroundJobs)
    (hh : holder job.id W.store.wal = some i)
    (hw : Stamped [.update .backgroundJobs job done] (W.store.sessions i).writes)
    (hsame : Table.patch .backgroundJobs job done job = done) (hcoh : done.Coherent)
    (hst : done.status = .failed ∨ done.status = .retrying) :
    Coherent lease W' ∧ ∀ j, j ≠ i → LeaseFrame j W W' := by
  have hdb : W'.store.db .notificationDeliveries = W.store.db .notificationDeliveries :=
    committed_other hc hw (by simp [Write.table])
  refine coherent_mark hi hl hc hs hrun hrow hh hw (by simp) hsame hcoh (.inr hst)
    (.same hi.keys hdb) fun hkind => iff_of_false (fun h => ?_) ?_
  · rw [h] at hst
    rcases hst with h | h <;> cases h
  · rintro ⟨d, hd, hj, hsent⟩
    rw [hdb] at hd
    refine hi.unsent hrow (fun h => ?_) hkind hd hj hsent
    have hnot : job.status = .succeeded := h
    rw [hrun] at hnot
    cases hnot

/-- A transaction that updates the delivery of a job. -/
theorem DeliveryOf.updated {job : BackgroundJob} {row row' : NotificationDelivery}
    (hk : DeliveryKeys W) (hk' : DeliveryKeys W') (hrow : IsDelivery W job row)
    (hj : row'.jobId = row.jobId) (h : ∀ r, r ∈ W'.store.db .notificationDeliveries ↔
      r = row' ∨ r ∈ W.store.db .notificationDeliveries ∧ r.id ≠ row.id) :
    DeliveryOf job.id W W' := ⟨hk', fun d hd => hk.others hrow.1 hj h (by rwa [hrow.2])⟩

/-- A worker whose delivery object is at `SENDING` writes any other status. -/
theorem changed_reload {added : Bool} {delivery row : NotificationDelivery}
    {st : NotificationDeliveryStatus} (hd : delivery.status = .sending) (hst : .sending ≠ st) :
    Table.changed (reload added delivery row).status st row.status = st := by
  by_cases he : row.id = delivery.id
  · rw [(reload_held added he).2.2.2, hd, Table.changed, if_neg hst]
  · rw [reload, if_neg he]
    exact Table.changed_self _ _

variable {admits : Admission} {P : Platform} {C : Settings} {jobId : UUID} {ph ph' : Phase}
variable {ch : Choice}

/-- **What a worker that is in time commits keeps the outline.** -/
theorem lease_commit (hin : InTime C.backgroundJobLeaseSeconds admits)
    (hi : (leases C.backgroundJobLeaseSeconds).outline.inv W)
    (hh : leaseHolds C.backgroundJobLeaseSeconds i ph W) (ha : admits i W .commit ch)
    (hcm : Commits P C jobId W ph ws ph') (hw : Stamped ws (W.store.sessions i).writes)
    (hc : Store.Committed schema i W.store W'.store)
    (hs : (leases C.backgroundJobLeaseSeconds).same W W') :
    (leases C.backgroundJobLeaseSeconds).inv W' ∧
      (∀ j, j ≠ i → (leases C.backgroundJobLeaseSeconds).frame j W W') ∧
      leaseHolds C.backgroundJobLeaseSeconds i ph' W' := by
  have closing {φ ψ : Prop} (h : φ ∧ ψ) : φ ∧ ψ ∧ True := ⟨h.1, h.2, trivial⟩
  have unclaimed (J : UUID) (hn : ∀ w ∈ W.store.wal, w.1 ≠ i) : i ∉ claimers J W.store.wal :=
    fun h => by
      obtain ⟨x, hx, hxi⟩ := mem_committers h
      exact hn x hx hxi
  have running {c : BackgroundJob} {τ : Time} (hrun : c.status = .running)
      (hrow : ({ c with updatedAt := τ } : BackgroundJob) ∈ W.store.db .backgroundJobs)
      (hkind : c.kind = .emailNotification) {d : NotificationDelivery}
      (hd : d ∈ W.store.db .notificationDeliveries) (hj : d.jobId = c.id) : d.status ≠ .sent :=
    hi.2.unsent hrow (by show c.status ≠ _; rw [hrun]; simp) hkind hd hj
  have deliver {job : BackgroundJob} {row' : NotificationDelivery}
      (hheld : Held C.backgroundJobLeaseSeconds i job W)
      (hws : ∀ w ∈ ws, Table.backgroundJobs ≠ w.table) (hd : DeliveryOf job.id W W')
      (hmem : row' ∈ W'.store.db .notificationDeliveries) (hj : row'.jobId = job.id)
      (hst : row'.status ≠ .sent) : Coherent C.backgroundJobLeaseSeconds W' ∧
        (∀ j, j ≠ i → LeaseFrame j W W') ∧ Held C.backgroundJobLeaseSeconds i job W' := by
    have hstay := jobsStay hc hw hws
    obtain ⟨⟨τ, hrow⟩, -⟩ := held_row hin ha hheld
    obtain ⟨hinv, hf⟩ := coherent_deliver hi.2 hi.1 hc hs hstay hrow
      (by show job.status ≠ _; rw [hheld.1]; simp) hd fun _ d hd' hj' => by
        rwa [hd.keys.unique hmem hd' (hj'.trans hj.symm)]
    exact ⟨hinv, hf, held_stays hc hs hstay hheld⟩
  cases hcm with
  | @exhaust now row hrow hid hstatus hlease hattempts =>
    obtain ⟨hn, hnow, -⟩ := hh
    have hrun := running_of_exhausted (hi.2.jobs row hrow) hstatus hattempts
    obtain ⟨τ, hm⟩ := job_moved hi.2.jobIds hc hw (by simp) hrow
      (by simp [Table.patch, Table.changed_self, exhausted])
    have hch : Changes C.backgroundJobLeaseSeconds row (exhausted row now) :=
      ⟨rfl, rfl, .inr ⟨hrun, .inr (.inl rfl)⟩⟩
    have hdb : W'.store.db .notificationDeliveries = W.store.db .notificationDeliveries :=
      committed_other hc hw (by simp [Write.table])
    refine closing (coherent_move hi.2 hi.1 hc hs hm (changes_stamped hch τ)
      (coherent_stamped (coherent_failing (hi.2.jobs row hrow) hrun) τ) (.inl (unclaimed _ hn))
      (by rintro ⟨⟩) (fun j _ hst expiry he hlt => ?_) (.same hi.2.keys hdb) fun hkind =>
        iff_of_false (by rintro ⟨⟩) ?_)
    · exact absurd hlt (Nat.not_lt.mpr ((lapsed hlease hst he).trans hnow))
    · rintro ⟨d, hd, hj, hsent⟩
      exact running hrun hrow hkind (hdb ▸ hd) hj hsent
  | @claim now row hrow hid hstatus hlease hattempts =>
    obtain ⟨hn, hbegan⟩ := hh
    have hcoh := hi.2.jobs row hrow
    obtain ⟨τ, hm⟩ := job_moved hi.2.jobIds hc hw (by simp) hrow
      (by simp [Table.patch, Table.changed_self, claimed])
    have hdb : W'.store.db .notificationDeliveries = W.store.db .notificationDeliveries :=
      committed_other hc hw (by simp [Write.table])
    have hnew : (claimed C row now).Coherent := coherent_claimed hcoh hstatus hattempts
    obtain ⟨hinv, hf⟩ := coherent_move hi.2 hi.1 hc hs hm
      (changes_stamped (changes_claimed hcoh hstatus hlease) τ) (coherent_stamped hnew τ)
      (.inl (unclaimed _ hn)) (fun _ => unclaimed _ hn) (fun j _ hst expiry he hlt =>
        absurd hlt (Nat.not_lt.mpr ((lapsed hlease hst he).trans hbegan.1)))
      (.same hi.2.keys hdb) fun hkind => iff_of_false (by rintro ⟨⟩) (by
        rintro ⟨d, hd, hj, hsent⟩
        exact hi.2.unsent hrow (fun h => by rw [h] at hstatus; cases hstatus) hkind
          (hdb ▸ hd) hj hsent)
    exact ⟨hinv, hf, held_claimed hc hs hnew hbegan hm⟩
  | @alreadySent job row now hd hkind hstatus =>
    obtain ⟨⟨τ, hrow⟩, -⟩ := held_row hin ha hh
    exact absurd hstatus (running hh.1 hrow hkind hd.1 hd.2)
  | @exported job result now hkind =>
    obtain ⟨⟨τ, hrow⟩, hholder⟩ := held_row hin ha hh
    refine closing (coherent_mark hi.2 hi.1 hc hs hh.1 hrow hholder hw (by simp)
      (by simp [Table.patch, Table.changed_self, succeeded]) (coherent_succeeded hh.2.1 hh.1)
      (.inl rfl) (.same hi.2.keys (committed_other hc hw (by simp [Write.table]))) fun h => ?_)
    rw [hkind] at h
    cases h
  | fail =>
    obtain ⟨⟨τ, hrow⟩, hholder⟩ := held_row hin ha hh
    exact closing (coherent_unsent hi.2 hi.1 hc hs hh.1 hrow hholder hw
      (by simp [Table.patch, Table.changed_self, failed]) (coherent_failing hh.2.1 hh.1) (.inl rfl))
  | retry hattempts =>
    obtain ⟨⟨τ, hrow⟩, hholder⟩ := held_row hin ha hh
    exact closing (coherent_unsent hi.2 hi.1 hc hs hh.1 hrow hholder hw
      (by simp [Table.patch, Table.changed_self, retrying])
      (coherent_retrying hh.2.1 hh.1 hattempts) (.inr rfl))
  | retriesExhausted =>
    obtain ⟨⟨τ, hrow⟩, hholder⟩ := held_row hin ha hh
    exact closing (coherent_unsent hi.2 hi.1 hc hs hh.1 hrow hholder hw
      (by simp [Table.patch, Table.changed_self, retriesExhausted])
      (coherent_failing hh.2.1 hh.1) (.inl rfl))
  | unsentMissing =>
    obtain ⟨hheld, -⟩ := hh
    have hstay := jobsStay hc hw (by simp)
    have hdb : W'.store.db .notificationDeliveries = W.store.db .notificationDeliveries :=
      committed_other hc hw (by simp)
    obtain ⟨⟨τ, hrow⟩, -⟩ := held_row hin ha hheld
    obtain ⟨hinv, hf⟩ := coherent_deliver hi.2 hi.1 hc hs hstay hrow
      (by show _ ≠ _; rw [hheld.1]; simp) (.same hi.2.keys hdb) fun hkind d hd hj =>
        running hheld.1 hrow hkind (hdb ▸ hd) hj
    exact ⟨hinv, hf, held_stays hc hs hstay hheld⟩
  | ambiguous hd =>
    obtain ⟨hkeys, row', ht, hrows⟩ :=
      delivery_updated [] hi.2.keys hd.1 rfl hc hw (by simp)
    exact deliver hh (fun w hmem => by rw [updates_table hmem]; simp)
      (.updated hi.2.keys hkeys hd ht.jobId hrows) ((hrows row').mpr (.inl rfl))
      (ht.jobId.trans hd.2) (by rw [ht.status, Table.changed_self]; rintro ⟨⟩)
  | insert hkind hnew =>
    obtain ⟨hkeys, hfresh, row', ht, hrows⟩ := delivery_inserted hi.2.keys hnew hc hw
    obtain ⟨hinv, hf, hheld⟩ := deliver hh (by simp [Write.table])
      ⟨hkeys, fun d hd => (hrows d).trans (or_iff_right fun h => hd (h ▸ ht.jobId))⟩
      ((hrows row').mpr (.inl rfl)) ht.jobId (by rw [ht.status, Table.changed_self]; rintro ⟨⟩)
    exact ⟨hinv, hf, hheld, rfl⟩
  | @resend job row hd =>
    obtain ⟨hkeys, row', ht, hrows⟩ := delivery_updated [] (l := row) (c := resent row)
      hi.2.keys hd.1 rfl hc (by
        rwa [List.nil_append, Write.updates_of_ne NotificationDelivery.attemptCount
          (Nat.ne_of_lt (Nat.lt_succ_self _))]) (by simp)
    obtain ⟨hinv, hf, hheld⟩ := deliver hh (by simp [Write.table])
      (.updated hi.2.keys hkeys hd ht.jobId hrows) ((hrows row').mpr (.inl rfl))
      (ht.jobId.trans hd.2) (by rw [ht.status, Table.changed_self]; rintro ⟨⟩)
    exact ⟨hinv, hf, hheld, rfl⟩
  | unsent hd =>
    obtain ⟨hheld, hsending⟩ := hh
    obtain ⟨hkeys, row', ht, hrows⟩ := delivery_updated [] hi.2.keys hd.1
      reload_id hc hw (by simp)
    exact deliver hheld (fun w hmem => by rw [updates_table hmem]; simp)
      (.updated hi.2.keys hkeys hd ht.jobId hrows) ((hrows row').mpr (.inl rfl))
      (ht.jobId.trans hd.2)
      (by rw [ht.status.trans (changed_reload hsending (by rintro ⟨⟩))]; rintro ⟨⟩)
  | delivered hd =>
    obtain ⟨hheld, hsending⟩ := hh
    obtain ⟨hkeys, row', ht, hrows⟩ := delivery_updated [_] hi.2.keys hd.1
      reload_id hc hw (by simp [Write.table])
    obtain ⟨⟨τ, hrow⟩, hholder⟩ := held_row hin ha hheld
    exact closing (coherent_mark hi.2 hi.1 hc hs hheld.1 hrow hholder hw
      (fun w hmem => by rw [updates_table hmem]; simp)
      (by simp [Table.patch, Table.changed_self, succeeded])
      (coherent_succeeded hheld.2.1 hheld.1) (.inl rfl)
      (.updated hi.2.keys hkeys hd ht.jobId hrows) fun _ => iff_of_true rfl
        ⟨row', (hrows row').mpr (.inl rfl), ht.jobId.trans hd.2,
          ht.status.trans (changed_reload hsending (by rintro ⟨⟩))⟩)

/-! ## The rest of the world -/

/-- Time passes, and jobs are submitted. -/
theorem coherent_meanwhile (hi : Coherent lease W) (h : Meanwhile W W') :
    Coherent lease W' ∧ ∀ j, LeaseFrame j W W' := by
  obtain ⟨new, hnew, hsub⟩ := h.jobs
  have hids := h.jobIds hi.jobIds
  have hold : ∀ job ∈ W.store.db .backgroundJobs, job ∈ W'.store.db .backgroundJobs :=
    fun job hjob => by rw [hnew]; exact List.mem_append_left _ hjob
  have hfresh : ∀ job ∈ new, ∀ old ∈ W.store.db .backgroundJobs, old.id ≠ job.id :=
    fun job hjob old hmem hid => by
      rw [World.JobIds, hnew, List.map_append, List.nodup_append] at hids
      exact hids.2.2 _ (List.mem_map_of_mem hmem) _ (List.mem_map_of_mem hjob) hid
  refine ⟨⟨hids, hi.keys.of_eq h.deliveries, fun job hjob => ?_, fun d hd => ?_,
    fun job hjob hkind => ?_, fun job hjob => ?_, fun J hJ => ?_, ?_, ?_⟩,
    fun j => ⟨h.locks j, h.clock, by rw [h.bodies], fun job hjob _ _ _ _ hh =>
      ⟨hold job hjob, by rw [h.wal]; exact hh⟩, fun job hjob _ => hold job hjob⟩⟩
  · rw [hnew] at hjob
    rcases List.mem_append.mp hjob with hjob | hjob
    · exact hi.jobs job hjob
    · exact (hsub job hjob).coherent
  · rw [h.deliveries] at hd
    obtain ⟨job, hjob, hid⟩ := hi.known d hd
    exact ⟨job, hold job hjob, hid⟩
  · rw [h.deliveries]
    rw [hnew] at hjob
    rcases List.mem_append.mp hjob with hjob | hjob
    · exact hi.sent job hjob hkind
    · refine iff_of_false (by rw [(hsub job hjob).status]; nofun) fun ⟨d, hd, hj, _⟩ => ?_
      obtain ⟨old, hmem, hid⟩ := hi.known d hd
      exact hfresh job hjob old hmem (hid.trans hj)
  · rw [h.wal]
    rw [hnew] at hjob
    rcases List.mem_append.mp hjob with hjob | hjob
    · exact hi.changed job hjob
    · rw [hi.unwritten job.id (hfresh job hjob)]
      exact changed_nil (hsub job hjob).status
  · rw [h.wal]
    exact hi.unwritten J fun job hjob => hJ job (hold job hjob)
  · rw [h.wal]
    exact hi.claimers
  · rw [h.wal]
    exact hi.turns

/-- What is no transaction of the worker leaves its hold on a job. -/
theorem held_local {job : BackgroundJob} (hl : Store.Local i W.store W'.store)
    (hs : (leases lease).same W W') (h : Held lease i job W) : Held lease i job W' := by
  obtain ⟨hrun, hcoh, now, ⟨hexp, hb, w, hw, hwi⟩, hrow⟩ := h
  refine ⟨hrun, hcoh, now, ⟨hexp, by rw [hs.2]; exact hb, w, by rwa [hl.wal], hwi⟩, fun hlt => ?_⟩
  rw [hl.db, hl.wal]
  exact hrow (hs.1 ▸ hlt)

theorem leaseHolds_local {ph : Phase} (hl : Store.Local i W.store W'.store)
    (hs : (leases lease).same W W') (h : leaseHolds lease i ph W) : leaseHolds lease i ph W' := by
  have noCommit (h : (leases lease).NoCommit i W) : (leases lease).NoCommit i W' := by
    show ∀ c ∈ W'.store.wal, c.1 ≠ i
    rw [hl.wal]
    exact h
  cases ph with
  | fresh =>
    obtain ⟨hn, b, hb, hle⟩ := h
    exact ⟨noCommit hn, b, by rwa [hs.2], by rwa [hs.1]⟩
  | ready now =>
    obtain ⟨hn, hle, hb⟩ := h
    exact ⟨noCommit hn, by rwa [hs.1], by rwa [hs.2]⟩
  | claimed | marking => exact held_local hl hs h
  | opened | started | sent | unsent => exact ⟨held_local hl hs h.1, h.2⟩
  | retrying | ended => trivial

/-- Mail comes and goes. -/
theorem lease_mail (hi : (leases lease).outline.inv W) (hl : Store.Local i W.store W'.store)
    (hs : (leases lease).same W W') :
    (leases lease).inv W' ∧ ∀ j, j ≠ i → (leases lease).frame j W W' :=
  ⟨coherent_local hl hi.2, fun j _ => leaseFrame_local hl hs.1 (congrFun hs.2 j)⟩

/-- Thread `i` starts or ends: nothing of the others changes. -/
theorem lease_thread {b : Option Body} (hi : (leases lease).outline.inv W)
    (hd : Store.Dropped i W.store W'.store) (hclock : W'.clock = W.clock)
    (hb : W'.bodies = Function.update W.bodies i b) : (leases lease).outline.Guar i W W' :=
  ⟨⟨hd.locksOk hi.1, coherent_local hd.toLocal hi.2⟩, fun _ hj => ⟨hd.toLocal.frame hj,
    leaseFrame_local hd.toLocal hclock (by rw [hb, Function.update_of_ne hj])⟩⟩

end Commits

/-! ## Executors that are in time -/

/-- What `execute` does to the jobs, phase by phase. -/
def leaseFollows {admits : Admission} (P : Platform) (C : Settings)
    (hin : InTime C.backgroundJobLeaseSeconds admits) (i : Nat) (jobId : UUID) :
    Follows (leases C.backgroundJobLeaseSeconds) admits P C i jobId where
  holds := leaseHolds C.backgroundJobLeaseSeconds i
  lost := .true
  locks h := h.locks
  blind _ _ _ _ := trivial
  own := leaseHolds_local
  read _ h := ⟨h.1, Nat.le_refl _, h.2⟩
  missed _ _ _ := trivial
  fail {ph job W} hph h := by
    cases ph <;> cases hph
    · exact h
    · exact h.1
    · exact h.1
    · exact h.1
    · exact h
  commit hi hh ha hcm hw hc hs := lease_commit hin hi hh ha hcm hw hc hs
  send {W c job delivery message} hi hh _ _ := by
    intro W'
    have hs : (leases C.backgroundJobLeaseSeconds).same W W' := ⟨rfl, rfl⟩
    have hl : Store.Local i W.store W'.store := .refl i _
    have hh' : leaseHolds C.backgroundJobLeaseSeconds i (.started job delivery) W := hh
    obtain ⟨hinv, hf⟩ := lease_mail hi hl hs
    exact ⟨hinv, hf, leaseHolds_local hl hs hh'⟩
  await {W c r W' job delivery} hi hh hst hstore := by
    have hs : (leases C.backgroundJobLeaseSeconds).same W W' :=
      ⟨(opStep_part hst).clock, (opStep_part hst).bodies⟩
    have hl : Store.Local i W.store W'.store := by
      rw [hstore]
      exact .refl i _
    obtain ⟨hinv, hf⟩ := lease_mail hi hl hs
    have hh' : leaseHolds C.backgroundJobLeaseSeconds i (.started job delivery) W' :=
      leaseHolds_local hl hs hh
    exact ⟨hinv, hf, fun _ => hh', fun _ _ _ => hh'⟩
  drop _ _ _ _ _ := trivial

theorem leases_ok {admits : Admission} (P : Platform) (C : Settings)
    (hin : InTime C.backgroundJobLeaseSeconds admits) :
    (leases C.backgroundJobLeaseSeconds).outline.Ok (workers P C admits)
      (fun i jobId => post (fun _ => leaseHolds C.backgroundJobLeaseSeconds i .ended)
        (leaseFollows P C hin i jobId).Outcome)
      fun _ _ _ _ => True :=
  executors_ok (leaseFollows P C hin)
    (fun i _ W hi hu => ⟨lease_thread hi (WorldOutline.dropped_accept W i none) rfl rfl, hu.1,
      ⟨none, W.clock⟩, Function.update_self .., Nat.le_refl _⟩)
    (fun i W again hi => lease_thread hi (WorldOutline.dropped_settle W i again) rfl rfl)
    fun _ _ hi h => coherent_meanwhile hi.2 h

theorem coherent_untried {lease : Nat} {W : World} (h : W.Untried) :
    (leases lease).outline.inv W := by
  have hwrites (J : UUID) : jobWrites J W.store.wal = [] := by rw [h.wal]; rfl
  have hd : ∀ d, d ∉ W.store.db .notificationDeliveries := by simp [h.deliveries]
  refine ⟨fun i w hw => ?_, h.jobIds, ⟨?_, ?_⟩, fun job hjob => (h.jobs job hjob).coherent,
    fun d hmem => absurd hmem (hd d), fun job hjob _ => ?_, fun job hjob => ?_,
    fun J _ => hwrites J, fun J => ?_, fun J pre c post he => ?_⟩
  · rw [h.sessions i] at hw
    cases hw
  · rw [h.deliveries]
    exact List.nodup_nil
  · rw [h.deliveries]
    exact List.nodup_nil
  · refine iff_of_false (by rw [(h.jobs job hjob).status]; nofun) fun ⟨d, hmem, _⟩ => hd d hmem
  · rw [hwrites]
    exact changed_nil (h.jobs job hjob).status
  · rw [h.wal]
    exact List.nodup_nil
  · rw [h.wal] at he
    cases pre <;> cases he

/-- It is not the claim of a job under a lease that has expired. -/
def Write.unexpired (clock : Time) : Write → Bool
  | update .backgroundJobs _ c => c.status ≠ .running || c.leaseExpiresAt.all (clock < ·)
  | _ => true

/-- No operation of an execution comes after the lease of its claim has expired. -/
def endsBeforeLease : Admission := fun i W _ _ =>
  ∀ ws ∈ W.store.wal, ws.1 = i → ws.2.all (Write.unexpired W.clock) = true

theorem inTime_endsBeforeLease (lease : Nat) : InTime lease endsBeforeLease := by
  intro i W o c ha job now hclaimed
  obtain ⟨hexpiry, -, ws, hws, hi, l, x, hx, hst, hle⟩ := hclaimed
  have hlater := List.all_eq_true.mp (ha ws hws hi) _ hx
  -- the kernel is not to compute with the number of microseconds
  generalize now + seconds lease = expiry at hexpiry ⊢
  rw [Write.unexpired, hst, hle, hexpiry, Option.all_some, Bool.or_eq_true] at hlater
  exact of_decide_eq_true (hlater.resolve_left fun hne => of_decide_eq_true hne rfl)

/-- **Job rows stay coherent**, whatever fails, is cancelled or crashes, where each execution ends
before its lease. -/
theorem job_rows_stay_coherent (P : Platform) (C : Settings) {W₀ : World} (h₀ : W₀.Untried)
    {pool : (workers P C endsBeforeLease).Pool} (h : System.Reachable W₀ pool)
    (job : BackgroundJob) (hjob : job ∈ pool.shared.store.db .backgroundJobs) :
    job.Coherent ∧
    (job.kind = .emailNotification → (job.status = .succeeded ↔
      ∃ d ∈ pool.shared.store.db .notificationDeliveries, d.jobId = job.id ∧ d.status = .sent)) ∧
    Changed C.backgroundJobLeaseSeconds (jobWrites job.id pool.shared.store.wal) job := by
  have hinv := ((leases_ok P C (inTime_endsBeforeLease _)).sound (coherent_untried h₀) h).inv.2
  exact ⟨hinv.jobs job hjob, hinv.sent job hjob, hinv.changed job hjob⟩

/-- Runs of executors that end before their leases. -/
def leasedPlayer (P : Platform) (C : Settings) : (workers P C endsBeforeLease).Player Choice Nat :=
  workersPlayer P C (fun i W _ _ =>
      W.store.wal.all fun ws => ws.1 ≠ i || ws.2.all (Write.unexpired W.clock))
    fun i W o c h ws hws hi => by
      have hall := List.all_eq_true.mp h ws hws
      rw [Bool.or_eq_true] at hall
      exact hall.resolve_left fun hne => of_decide_eq_true hne hi

/-- A worker dies once it has claimed the job; another one takes over when the lease has expired. -/
theorem job_rows_stay_coherent_lapsed :
    ∃ (pool : (workers .plain {} endsBeforeLease).Pool) (job : BackgroundJob),
      System.Reachable (World.fresh Db.submitted) pool ∧
      job ∈ pool.shared.store.db .backgroundJobs ∧ job.status = .succeeded ∧ job.Coherent ∧
      Changed ({} : Settings).backgroundJobLeaseSeconds (jobWrites job.id pool.shared.store.wal)
        job := by
  let moves : List (System.Move UUID Choice Nat) :=
    [.start 0 2, .ops 0 (List.replicate 4 {}), .crash 0, .env 120000000, .start 1 2,
      .ops 1 (List.replicate 16 {}), .finish 1]
  obtain ⟨pool, hreach, hobs⟩ := (leasedPlayer .plain {}).replay_map moves
    (.init (World.fresh Db.submitted))
    (fun pool => (pool.shared.store.db .backgroundJobs).map BackgroundJob.status)
    (b := [.succeeded]) (by decide +kernel)
  obtain ⟨job, hjobs, hst⟩ := List.map_eq_singleton_iff.mp hobs
  have hjob : job ∈ pool.shared.store.db .backgroundJobs := by
    rw [hjobs]
    exact List.mem_singleton.mpr rfl
  obtain ⟨hcoh, -, hchanged⟩ :=
    job_rows_stay_coherent _ _ World.untried_submitted hreach job hjob
  exact ⟨pool, job, hreach, hjob, hst, hcoh, hchanged⟩

/-- Every execution lasts at most the hard time limit. -/
def withinHardLimit (C : Settings) : Admission := fun i W _ _ =>
  ∃ b, W.bodies i = some b ∧ W.clock ≤ b.started + seconds C.backgroundJobHardTimeLimitSeconds

theorem inTime_withinHardLimit {C : Settings}
    (h : C.backgroundJobHardTimeLimitSeconds < C.backgroundJobLeaseSeconds) :
    InTime C.backgroundJobLeaseSeconds (withinHardLimit C) := by
  intro i W o c ha job now hclaimed
  obtain ⟨b, hb, hle⟩ := ha
  obtain ⟨b', hb', hstart⟩ := hclaimed.began
  obtain rfl := Option.some.inj (hb.symm.trans hb')
  have hseconds : seconds C.backgroundJobHardTimeLimitSeconds <
      seconds C.backgroundJobLeaseSeconds := by
    unfold seconds
    omega
  calc W.clock ≤ b.started + seconds C.backgroundJobHardTimeLimitSeconds := hle
    _ ≤ now + seconds C.backgroundJobHardTimeLimitSeconds := Nat.add_le_add_right hstart _
    _ < now + seconds C.backgroundJobLeaseSeconds := Nat.add_lt_add_left hseconds _

/-- **Terminal states are final**, and a worker that lost its job leaves it alone, where the lease
outlasts the hard time limit. -/
theorem terminal_states_are_final (P : Platform) (C : Settings)
    (hlimit : C.backgroundJobHardTimeLimitSeconds < C.backgroundJobLeaseSeconds) {W₀ : World}
    (h₀ : W₀.Untried) {pool : (workers P C (withinHardLimit C)).Pool}
    (h : System.Reachable W₀ pool) :
    (∀ job ∈ pool.shared.store.db .backgroundJobs, job.status.terminal = true →
      ∀ pool', System.Steps pool pool' → ∀ job' ∈ pool'.shared.store.db .backgroundJobs,
        job'.id = job.id → job' = job) ∧
    ∀ J pre j ws mid i ws' post,
      pool.shared.store.wal = pre ++ (j, ws) :: (mid ++ (i, ws') :: post) → i ≠ j →
      i ∈ claimers J pre → ws.any (Write.claims J) = true →
      ws'.filterMap (Write.jobWrite? J) = [] := by
  have hok := leases_ok P C (inTime_withinHardLimit hlimit)
  have hpool := hok.sound (coherent_untried h₀) h
  refine ⟨fun job hjob hterminal pool' hsteps job' hjob' hid => ?_, ?_⟩
  · have hstays : job ∈ pool'.shared.store.db .backgroundJobs :=
      hok.lasting (K := fun W => job ∈ W.store.db .backgroundJobs)
        (fun j W W' hf hmem => hf.2.final job hmem hterminal) hpool hjob hsteps
    exact List.inj_on_of_nodup_map (hpool.steps hok hsteps).inv.2.jobIds hjob' hstays hid
  · intro J pre j ws mid i ws' post hwal hij hi hj
    have hwal' : pool.shared.store.wal = (pre ++ (j, ws) :: mid) ++ (i, ws') :: post := by
      rw [hwal, List.append_assoc, List.cons_append]
    by_contra hne
    have hlist : claimers J (pre ++ (j, ws) :: mid) = claimers J pre ++ (j :: claimers J mid) := by
      simp [claimers, committers, hj]
    have hnodup := hpool.inv.2.claimers J
    rw [hwal', claimers, committers, List.filter_append, List.map_append] at hnodup
    have hbefore : (claimers J (pre ++ (j, ws) :: mid)).Nodup := hnodup.of_append_left
    rw [hlist] at hbefore
    have hlater : i ∉ j :: claimers J mid := fun hmem =>
      (List.nodup_append.mp hbefore).2.2 i hi i hmem rfl
    rcases hpool.inv.2.turns J _ (i, ws') post hwal' hne with h' | h'
    · rw [hlist] at h'
      exact h' (List.mem_append_left _ hi)
    · rw [holder, hlist, List.getLast?_append_of_ne_nil _ (List.cons_ne_nil _ _)] at h'
      exact hlater (List.mem_of_getLast? h')

/-- Runs of executors that keep to the hard time limit. -/
def limitedPlayer (P : Platform) (C : Settings) :
    (workers P C (withinHardLimit C)).Player Choice Nat :=
  workersPlayer P C (fun i W _ _ => (W.bodies i).any fun b =>
      W.clock ≤ b.started + seconds C.backgroundJobHardTimeLimitSeconds)
    fun i W o c h => by
      obtain ⟨b, hb, hle⟩ := (Option.any_eq_true _ _).mp h
      exact ⟨b, hb, of_decide_eq_true hle⟩

/-- A message that is delivered again finds the job failed, and leaves it so. -/
theorem terminal_states_are_final_redelivered :
    ∃ (pool pool' : (workers .plain {} (withinHardLimit {})).Pool) (job : BackgroundJob),
      System.Reachable (World.fresh Db.submitted) pool ∧ System.Steps pool pool' ∧
      job ∈ pool.shared.store.db .backgroundJobs ∧ job.status = .failed ∧
      (pool'.threads 2).Stopped ∧
      ∀ job' ∈ pool'.shared.store.db .backgroundJobs, job'.id = job.id → job' = job := by
  let moves : List (System.Move UUID Choice Nat) :=
    [.start 0 2, .ops 0 (List.replicate 9 { uuid := 3 }), .crash 0, .env 120000000,
      .start 1 2, .ops 1 (List.replicate 10 {}), .finish 1]
  let moves' : List (System.Move UUID Choice Nat) :=
    [.start 2 2, .ops 2 (List.replicate 3 {}), .finish 2]
  obtain ⟨pool, pool', hreach, hsteps, hobs, hobs'⟩ := (limitedPlayer .plain {}).replay_map₂ moves
    moves' (.init (World.fresh Db.submitted))
    (fun pool => (pool.shared.store.db .backgroundJobs).map BackgroundJob.status)
    (fun pool => decide (pool.threads 2).Stopped) (b := [.failed]) (d := true) (by decide +kernel)
  obtain ⟨job, hjobs, hst⟩ := List.map_eq_singleton_iff.mp hobs
  have hjob : job ∈ pool.shared.store.db .backgroundJobs := by
    rw [hjobs]
    exact List.mem_singleton.mpr rfl
  have hfinal := (terminal_states_are_final .plain {} (by decide) World.untried_submitted
    hreach).1 job hjob (by rw [hst]; rfl) pool' hsteps
  exact ⟨pool, pool', job, hreach, hsteps, hjob, hst, of_decide_eq_true hobs', hfinal⟩

/-- Accepted settings under which a worker that outlived its lease makes a failed job succeed. -/
theorem failed_job_is_overwritten :
    ({ backgroundJobLeaseSeconds := 10 } : Settings).Accepted ∧
    ∃ pool pool' : (workers .plain { backgroundJobLeaseSeconds := 10 }
        (withinHardLimit { backgroundJobLeaseSeconds := 10 })).Pool,
      System.Reachable (World.fresh Db.submitted) pool ∧ System.Steps pool pool' ∧
      ((pool.shared.store.db .backgroundJobs).map fun job => (job.id, job.status)) =
        [(2, .failed)] ∧
      ((pool'.shared.store.db .backgroundJobs).map fun job => (job.id, job.status)) =
        [(2, .succeeded)] := by
  let moves : List (System.Move UUID Choice Nat) :=
    [.start 0 2, .ops 0 (List.replicate 9 { uuid := 3 }), .env 10000000,
      .start 1 2, .ops 1 (List.replicate 10 {})]
  let moves' : List (System.Move UUID Choice Nat) := [.ops 0 (List.replicate 7 {})]
  exact ⟨⟨by decide, rfl⟩, (limitedPlayer .plain { backgroundJobLeaseSeconds := 10 }).replay_map₂
    moves moves' (.init (World.fresh Db.submitted))
    (fun pool => (pool.shared.store.db .backgroundJobs).map fun job => (job.id, job.status))
    (fun pool => (pool.shared.store.db .backgroundJobs).map fun job => (job.id, job.status))
    (by decide +kernel)⟩

end Ticketing
