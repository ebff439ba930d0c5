import Ticketing.Concurrency.Delivery

/-!
# Attempts are counted and bounded

Three counters and three lists of workers, in the pool of `Executors.lean` under any faults,
crashes and redeliveries: `claimers` are those that committed a claim of the job (`Write.claims`),
`openers` those that opened its delivery (`Write.opens`), `callers` those that called `send`.

* `Counted` is the invariant: no worker is twice in a list, each list is part of the one before,
  `attempt_count` of the job is the length of the first and that of the delivery the length of the
  second.
* `attemptHolds` is what a worker knows in each phase of its execution: which of the three lists
  it is in.

Results:
* `counted_commit`, `attempt_commit`, `attempt_send`: what a commit and a call of `send` make of
  the lists.
* `attempts_are_counted`: the invariant in every reachable state, with the bound of `max_attempts`
  and what it makes of a whole run: the counters never go down, and a job is sent no more often
  than its delivery counts.
-/

namespace Ticketing

open Lib (Prog Store System Outline)
open Lib.Outline (post)
open BackgroundJobExecutor (messageId newDelivery resent claimed reload)

/-- The commit of a claim of job `J`: nothing else writes `RUNNING`. -/
def Write.claims (J : UUID) : Write → Bool
  | update .backgroundJobs l c => l.id = J && c.status = .running
  | _ => false

theorem Write.claims_stamp (J : UUID) (τ : Time) (w : Write) :
    (w.stamp τ).claims J = w.claims J := by
  cases w with
  | insert t row => rfl
  | update t l c => cases t <;> rfl
  | delete t p ids => rfl
  | revokeAllActive => rfl

theorem Write.claims_other {J : UUID} {w : Write} (h : .backgroundJobs ≠ w.table) :
    w.claims J = false := by
  cases w with
  | insert t row => rfl
  | update t l c => cases t <;> first | rfl | exact absurd rfl h
  | delete t p ids => rfl
  | revokeAllActive => rfl

section Lists

variable (J : UUID)

/-- The workers whose commits satisfy `f`, in the order of the commits. -/
def committers (f : Write → Bool) (wal : List (Nat × List Write)) : List Nat :=
  (wal.filter fun c => c.2.any f).map Prod.fst

/-- The workers that have committed a claim of job `J`. -/
abbrev claimers : List (Nat × List Write) → List Nat := committers (Write.claims J)

/-- The workers that have committed `SENDING` for job `J`. -/
abbrev openers : List (Nat × List Write) → List Nat := committers (Write.opens J)

/-- The workers that have called `send` for job `J`. -/
def callers (W : World) : List Nat := (W.callsFor J).map Send.worker

theorem committers_append (f : Write → Bool) (wal : List (Nat × List Write))
    (c : Nat × List Write) :
    committers f (wal ++ [c]) = committers f wal ++ if c.2.any f then [c.1] else [] := by
  unfold committers
  rw [List.filter_append, List.map_append]
  congr 1
  by_cases h : c.2.any f = true
  · simp [h]
  · simp [h]

theorem mem_committers {f : Write → Bool} {wal : List (Nat × List Write)} {i : Nat}
    (h : i ∈ committers f wal) : ∃ c ∈ wal, c.1 = i := by
  obtain ⟨c, hc, rfl⟩ := List.mem_map.mp h
  exact ⟨c, (List.mem_filter.mp hc).1, rfl⟩

/-- What others commit does not make `i` a committer. -/
theorem mem_committers_frame {f : Write → Bool} {s s' : Store Db Write Key} {i : Nat}
    (h : Store.Frame schema i s s') : i ∈ committers f s'.wal ↔ i ∈ committers f s.wal := by
  obtain ⟨more, hw, hn⟩ := h.wal
  have hnone : i ∉ committers f more := fun hi => by
    obtain ⟨c, hc, hci⟩ := mem_committers hi
    exact hn c hc hci
  rw [hw, committers, List.filter_append, List.map_append, List.mem_append]
  exact or_iff_left hnone

end Lists

/-! ## The outline -/

/-- What the counters count. -/
structure Counted (W : World) : Prop where
  jobIds : W.JobIds
  keys : DeliveryKeys W
  attempts : ∀ job ∈ W.store.db .backgroundJobs,
    job.attemptCount = (claimers job.id W.store.wal).length ∧ job.attemptCount ≤ job.maxAttempts
  claimed : ∀ J, claimers J W.store.wal ≠ [] → ∃ job ∈ W.store.db .backgroundJobs, job.id = J
  openings : ∀ d ∈ W.store.db .notificationDeliveries,
    d.attemptCount = (openers d.jobId W.store.wal).length
  unopened : ∀ J, (∀ d ∈ W.store.db .notificationDeliveries, d.jobId ≠ J) →
    openers J W.store.wal = []
  claimers : ∀ J, (claimers J W.store.wal).Nodup
  openers : ∀ J, (openers J W.store.wal).Nodup ∧
    openers J W.store.wal ⊆ Ticketing.claimers J W.store.wal
  callers : ∀ J, (callers J W).Nodup ∧ callers J W ⊆ Ticketing.openers J W.store.wal

/-- What worker `i` relies on. -/
structure AttemptFrame (i : Nat) (W W' : World) : Prop where
  locks : World.Locks i W W'
  silent : (∀ s ∈ W.sends, s.worker ≠ i) → ∀ s ∈ W'.sends, s.worker ≠ i

/-- The outline of the claim. -/
def attempts : WorldOutline where
  inv := Counted
  frame := AttemptFrame
  same W W' := W'.sends = W.sends
  blind o := o.part ≠ some .sends
  refl j W := ⟨.refl j W, fun h => h⟩
  trans _ _ _ _ hf h h' := ⟨h.locks.trans hf h'.locks, fun hs => h'.silent (h.silent hs)⟩
  same_setStore := World.sends_setStore
  same_blind := opStep_sends
  inv_local {i W W'} h hs hi := by
    have hcallers (J : UUID) : callers J W' = callers J W := by
      rw [callers, World.callsFor, hs]
      rfl
    refine ⟨?_, hi.keys.of_eq (by rw [h.db]), ?_, ?_, ?_, ?_, ?_, ?_, fun J => ?_⟩
    · rw [World.JobIds, h.db]
      exact hi.jobIds
    · rw [h.db, h.wal]
      exact hi.attempts
    · rw [h.db, h.wal]
      exact hi.claimed
    · rw [h.db, h.wal]
      exact hi.openings
    · rw [h.db, h.wal]
      exact hi.unopened
    · rw [h.wal]
      exact hi.claimers
    · rw [h.wal]
      exact hi.openers
    · rw [hcallers, h.wal]
      exact hi.callers J
  frame_local _ h hs := ⟨.of_db h.db, fun hsilent => by rwa [hs]⟩

/-! ## What a worker knows -/

section Knows

variable (i : Nat)

/-- The worker has called nothing. -/
def Uncalled : attempts.outline.Assertion i where
  holds W := ∀ s ∈ W.sends, s.worker ≠ i
  stable _ _ h hm := hm.2.2.silent h

/-- The worker is, or is not, among those whose commits satisfy `f`. -/
def Committer (f : Write → Bool) (b : Bool) : attempts.outline.Assertion i where
  holds W := decide (i ∈ committers f W.store.wal) = b
  stable _ _ h hm := by rwa [decide_eq_decide.mpr (mem_committers_frame hm.2.1)]

/-- It has not opened any delivery. -/
def Unopened : attempts.outline.Assertion i where
  holds W := ∀ J, i ∉ openers J W.store.wal
  stable _ _ h hm J hJ := h J ((mem_committers_frame hm.2.1).mp hJ)

/-- What a worker knows in each phase. -/
def attemptHolds : Phase → attempts.outline.Assertion i
  | .fresh | .ready _ => (Uncalled i).and (attempts.NoCommit i)
  | .claimed job => (Uncalled i).and ((Committer i (Write.claims job.id) true).and (Unopened i))
  | .opened job _ => (Uncalled i).and (Committer i (Write.opens job.id) true)
  | _ => .true

end Knows

/-! ## The commits -/

section Commits

variable {i : Nat} {W W' : World} {ws : List Write}

/-- What a transaction of worker `i` makes of the jobs' counters. -/
structure JobsGo (i : Nat) (W W' : World) : Prop where
  ids : W'.JobIds
  back : ∀ job' ∈ W'.store.db .backgroundJobs, ∃ job ∈ W.store.db .backgroundJobs,
    job'.id = job.id ∧ job'.maxAttempts = job.maxAttempts ∧
      if (W.store.sessions i).writes.any (Write.claims job.id) then
        job'.attemptCount = job.attemptCount + 1 ∧ job.attemptCount < job.maxAttempts
      else job'.attemptCount = job.attemptCount
  forth : ∀ job ∈ W.store.db .backgroundJobs, ∃ job' ∈ W'.store.db .backgroundJobs, job'.id = job.id
  claims : ∀ J, (W.store.sessions i).writes.any (Write.claims J) = true →
    i ∉ claimers J W.store.wal ∧ ∃ job ∈ W.store.db .backgroundJobs, job.id = J

/-- What it makes of the deliveries' counters. -/
structure DeliveriesGo (i : Nat) (W W' : World) : Prop where
  keys : DeliveryKeys W'
  back : ∀ d' ∈ W'.store.db .notificationDeliveries,
    (∃ d ∈ W.store.db .notificationDeliveries, d'.jobId = d.jobId ∧
      d'.attemptCount = d.attemptCount +
        if (W.store.sessions i).writes.any (Write.opens d.jobId) then 1 else 0) ∨
    (∀ d ∈ W.store.db .notificationDeliveries, d.jobId ≠ d'.jobId) ∧ d'.attemptCount = 1 ∧
      (W.store.sessions i).writes.any (Write.opens d'.jobId) = true
  forth : ∀ d ∈ W.store.db .notificationDeliveries,
    ∃ d' ∈ W'.store.db .notificationDeliveries, d'.jobId = d.jobId
  opens : ∀ J, (W.store.sessions i).writes.any (Write.opens J) = true →
    i ∈ claimers J W.store.wal ∧ i ∉ openers J W.store.wal ∧
      ∃ d' ∈ W'.store.db .notificationDeliveries, d'.jobId = J

theorem counted_commit (hi : Counted W) (hl : W.store.LocksOk schema)
    (hc : Store.Committed schema i W.store W'.store) (hs : W'.sends = W.sends)
    (hj : JobsGo i W W') (hd : DeliveriesGo i W W') :
    Counted W' ∧ ∀ j, j ≠ i → AttemptFrame j W W' := by
  have hclaimers (J : UUID) : claimers J W'.store.wal = claimers J W.store.wal ++
      if (W.store.sessions i).writes.any (Write.claims J) then [i] else [] := by
    rw [hc.wal]
    exact committers_append ..
  have hopeners (J : UUID) : openers J W'.store.wal = openers J W.store.wal ++
      if (W.store.sessions i).writes.any (Write.opens J) then [i] else [] := by
    rw [hc.wal]
    exact committers_append ..
  have hcallers (J : UUID) : callers J W' = callers J W := by
    rw [callers, World.callsFor, hs]
    rfl
  refine ⟨⟨hj.ids, hd.keys, fun job' hjob' => ?_, fun J hJ => ?_, fun d' hd' => ?_, fun J hJ => ?_,
    fun J => ?_, fun J => ⟨?_, ?_⟩, fun J => ⟨?_, ?_⟩⟩,
    fun j hji => ⟨.of_committed hc hl hji, fun hsilent => by rwa [hs]⟩⟩
  · obtain ⟨job, hjob, hid, hmax, hatt⟩ := hj.back job' hjob'
    obtain ⟨hcount, hle⟩ := hi.attempts job hjob
    rw [hid, hmax, hclaimers]
    split at hatt
    · rename_i hclaims
      rw [if_pos hclaims, List.length_append, List.length_singleton]
      omega
    · rename_i hclaims
      rw [if_neg hclaims, List.append_nil]
      omega
  · rw [hclaimers] at hJ
    have hold : ∃ job ∈ W.store.db .backgroundJobs, job.id = J := by
      by_cases hclaims : (W.store.sessions i).writes.any (Write.claims J) = true
      · exact (hj.claims J hclaims).2
      · rw [if_neg hclaims, List.append_nil] at hJ
        exact hi.claimed J hJ
    obtain ⟨job, hjob, rfl⟩ := hold
    exact hj.forth job hjob
  · rw [hopeners]
    rcases hd.back d' hd' with ⟨d, hmem, hjid, hatt⟩ | ⟨hnew, hatt, hopens⟩
    · rw [hatt, hjid, List.length_append, hi.openings d hmem]
      split <;> rfl
    · rw [hi.unopened _ hnew, if_pos hopens, hatt]
      rfl
  · rw [hopeners]
    have hopens : ¬(W.store.sessions i).writes.any (Write.opens J) = true := fun h => by
      obtain ⟨-, -, d', hd', hjid⟩ := hd.opens J h
      exact hJ d' hd' hjid
    rw [if_neg hopens, List.append_nil]
    refine hi.unopened J fun d hmem hjid => ?_
    obtain ⟨d', hd', hjid'⟩ := hd.forth d hmem
    exact hJ d' hd' (hjid'.trans hjid)
  · rw [hclaimers]
    split
    · rename_i hclaims
      exact (hi.claimers J).append (List.nodup_singleton i) (by simpa using (hj.claims J hclaims).1)
    · simpa using hi.claimers J
  · rw [hopeners]
    split
    · rename_i hopens
      exact (hi.openers J).1.append (List.nodup_singleton i)
        (by simpa using (hd.opens J hopens).2.1)
    · simpa using (hi.openers J).1
  · rw [hopeners, hclaimers]
    intro j hj
    rcases List.mem_append.mp hj with hj | hj
    · exact List.mem_append_left _ ((hi.openers J).2 hj)
    · split at hj
      · rename_i hopens
        rw [List.mem_singleton.mp hj]
        exact List.mem_append_left _ (hd.opens J hopens).1
      · cases hj
  · rw [hcallers]
    exact (hi.callers J).1
  · rw [hcallers, hopeners]
    exact fun j hj => List.mem_append_left _ ((hi.callers J).2 hj)

theorem jobsGo_same (hi : Counted W) (hc : Store.Committed schema i W.store W'.store)
    (hw : Stamped ws (W.store.sessions i).writes)
    (hws : ∀ w ∈ ws, Table.backgroundJobs ≠ w.table) : JobsGo i W W' := by
  have hdb := committed_other hc hw hws
  have hnone (J : UUID) : ¬(W.store.sessions i).writes.any (Write.claims J) = true := by
    rw [List.any_eq_true]
    rintro ⟨w, hmem, hw'⟩
    rw [Write.claims_other (hw.table hws w hmem)] at hw'
    cases hw'
  refine ⟨?_, fun job hjob => ?_, fun job hjob => ?_, fun J hJ => absurd hJ (hnone J)⟩
  · rw [World.JobIds, hdb]
    exact hi.jobIds
  · rw [hdb] at hjob
    exact ⟨job, hjob, rfl, rfl, by rw [if_neg (hnone _)]⟩
  · rw [hdb]
    exact ⟨job, hjob, rfl⟩

/-- The ids and bounds of the jobs after an update. -/
theorem jobIds_updated {l c : BackgroundJob} {τ : Time} (hi : Counted W)
    (hdb : W'.store.db .backgroundJobs = (W.store.db .backgroundJobs).map fun r : BackgroundJob =>
      if r.id = l.id then
        Table.patch .backgroundJobs l (Table.stampUpdate τ .backgroundJobs c) r
      else r) :
    W'.JobIds ∧ ∀ job ∈ W.store.db .backgroundJobs,
      ∃ job' ∈ W'.store.db .backgroundJobs, job'.id = job.id := by
  constructor
  · have hids := hi.jobIds
    rw [World.JobIds, hdb, List.map_map]
    rw [World.JobIds] at hids
    convert hids using 2
    funext r
    simp only [Function.comp_apply]
    split <;> rfl
  · intro job hjob
    rw [hdb]
    refine ⟨_, List.mem_map_of_mem hjob, ?_⟩
    split <;> rfl

theorem jobsGo_kept {l c : BackgroundJob} (hi : Counted W)
    (hc : Store.Committed schema i W.store W'.store)
    (hw : Stamped (.update .backgroundJobs l c :: ws) (W.store.sessions i).writes)
    (hws : ∀ w ∈ ws, Table.backgroundJobs ≠ w.table) (hatt : l.attemptCount = c.attemptCount)
    (hst : c.status ≠ .running) : JobsGo i W W' := by
  obtain ⟨τ, -, -, -, hdb⟩ := job_updated hc hw hws
  obtain ⟨hids, hforth⟩ := jobIds_updated hi hdb
  have hnone (J : UUID) : ¬(W.store.sessions i).writes.any (Write.claims J) = true := by
    rw [hw.any (Write.claims_stamp J), List.any_cons, Bool.or_eq_true, not_or, List.any_eq_true]
    refine ⟨by simp [Write.claims, hst], ?_⟩
    rintro ⟨w, hmem, hw'⟩
    rw [Write.claims_other (hws w hmem)] at hw'
    cases hw'
  refine ⟨hids, fun job' hjob' => ?_, hforth, fun J hJ => absurd hJ (hnone J)⟩
  rw [hdb] at hjob'
  obtain ⟨job, hjob, rfl⟩ := List.mem_map.mp hjob'
  refine ⟨job, hjob, ?_⟩
  rw [if_neg (hnone _)]
  split
  · exact ⟨rfl, rfl, if_pos hatt⟩
  · exact ⟨rfl, rfl, rfl⟩

theorem jobsGo_claim {C : Settings} {row : BackgroundJob} {now : Time} (hi : Counted W)
    (hc : Store.Committed schema i W.store W'.store)
    (hw : Stamped [.update .backgroundJobs row (claimed C row now)] (W.store.sessions i).writes)
    (hrow : row ∈ W.store.db .backgroundJobs) (hatt : row.attemptCount < row.maxAttempts)
    (hn : ∀ c ∈ W.store.wal, c.1 ≠ i) : JobsGo i W W' := by
  obtain ⟨τ, -, -, -, hdb⟩ := job_updated hc hw (by simp)
  obtain ⟨hids, hforth⟩ := jobIds_updated hi hdb
  have hclaims (J : UUID) :
      (W.store.sessions i).writes.any (Write.claims J) = true ↔ row.id = J := by
    rw [hw.any (Write.claims_stamp J)]
    simp [Write.claims, claimed]
  refine ⟨hids, fun job' hjob' => ?_, hforth, fun J hJ => ⟨fun hmem => ?_, row, hrow, ?_⟩⟩
  · rw [hdb] at hjob'
    obtain ⟨job, hjob, rfl⟩ := List.mem_map.mp hjob'
    refine ⟨job, hjob, ?_⟩
    by_cases hid : job.id = row.id
    · obtain rfl := List.inj_on_of_nodup_map hi.jobIds hjob hrow hid
      rw [if_pos rfl, if_pos ((hclaims _).mpr rfl)]
      exact ⟨rfl, rfl, if_neg (Nat.ne_of_lt (Nat.lt_succ_self _)), hatt⟩
    · rw [if_neg hid, if_neg fun h => hid ((hclaims _).mp h).symm]
      exact ⟨rfl, rfl, rfl⟩
  · obtain ⟨x, hx, hxi⟩ := mem_committers hmem
    exact hn x hx hxi
  · exact (hclaims J).mp hJ

theorem deliveriesGo_same (hi : Counted W) (hc : Store.Committed schema i W.store W'.store)
    (hw : Stamped ws (W.store.sessions i).writes)
    (hws : ∀ w ∈ ws, Table.notificationDeliveries ≠ w.table) : DeliveriesGo i W W' := by
  have hdb := committed_other hc hw hws
  have hnone (J : UUID) : ¬(W.store.sessions i).writes.any (Write.opens J) = true := by
    rw [List.any_eq_true]
    rintro ⟨w, hmem, hw'⟩
    rw [Write.opens_other (hw.table hws w hmem)] at hw'
    cases hw'
  refine ⟨hi.keys.of_eq hdb, fun d hd => .inl ?_, fun d hd => ?_,
    fun J hJ => absurd hJ (hnone J)⟩
  · rw [hdb] at hd
    exact ⟨d, hd, rfl, by rw [if_neg (hnone _)]; rfl⟩
  · rw [hdb]
    exact ⟨d, hd, rfl⟩

/-- The rows an update leaves, and where they come from. -/
theorem deliveriesGo_updated {l c row row' : NotificationDelivery} (hi : Counted W)
    (hkeys : DeliveryKeys W') (hrow : row ∈ W.store.db .notificationDeliveries)
    (ht : Turns l c row row')
    (hrows : ∀ r, r ∈ W'.store.db .notificationDeliveries ↔
      r = row' ∨ r ∈ W.store.db .notificationDeliveries ∧ r.id ≠ row.id)
    (hopens : ∀ J, (W.store.sessions i).writes.any (Write.opens J) = true → row.jobId = J)
    (hatt : row'.attemptCount = row.attemptCount +
      if (W.store.sessions i).writes.any (Write.opens row.jobId) then 1 else 0)
    (hmay : ∀ J, (W.store.sessions i).writes.any (Write.opens J) = true →
      i ∈ claimers J W.store.wal ∧ i ∉ openers J W.store.wal) : DeliveriesGo i W W' := by
  refine ⟨hkeys, fun d hd => .inl ?_, fun d hd => ?_, fun J hJ => ?_⟩
  · rcases (hrows d).mp hd with rfl | ⟨hmem, hid⟩
    · exact ⟨row, hrow, ht.jobId, hatt⟩
    · refine ⟨d, hmem, rfl, ?_⟩
      rw [if_neg fun h => hid ?_]
      · rfl
      · rw [hi.keys.unique hrow hmem (hopens _ h).symm]
  · by_cases hid : d.id = row.id
    · obtain rfl := List.inj_on_of_nodup_map hi.keys.ids hd hrow hid
      exact ⟨row', (hrows row').mpr (.inl rfl), ht.jobId⟩
    · exact ⟨d, (hrows d).mpr (.inr ⟨hd, hid⟩), rfl⟩
  · obtain ⟨hclaimed, hopened⟩ := hmay J hJ
    exact ⟨hclaimed, hopened, row', (hrows row').mpr (.inl rfl), ht.jobId.trans (hopens J hJ)⟩

/-- An update that sends nobody. -/
theorem deliveriesGo_kept (ws : List Write) {l c row : NotificationDelivery} (hi : Counted W)
    (hrow : row ∈ W.store.db .notificationDeliveries) (hl : l.id = row.id)
    (hc : Store.Committed schema i W.store W'.store)
    (hw : Stamped (ws ++ Write.updates .notificationDeliveries l c) (W.store.sessions i).writes)
    (hws : ∀ w ∈ ws, Table.notificationDeliveries ≠ w.table)
    (hatt : l.attemptCount = c.attemptCount) (hst : c.status ≠ .sending) : DeliveriesGo i W W' := by
  obtain ⟨hkeys, row', ht, hrows⟩ := delivery_updated ws hi.keys hrow hl hc hw hws
  have hnone (J : UUID) : ¬(W.store.sessions i).writes.any (Write.opens J) = true := by
    rw [hw.any fun τ w => Write.opens_stamp J τ w, List.any_append, Bool.or_eq_true, not_or,
      List.any_eq_true, updates_any]
    refine ⟨?_, by simp [Write.opens, hst]⟩
    rintro ⟨w, hmem, hw'⟩
    rw [Write.opens_other (hws w hmem)] at hw'
    cases hw'
  refine deliveriesGo_updated hi hkeys hrow ht hrows (fun J hJ => absurd hJ (hnone J)) ?_
    fun J hJ => absurd hJ (hnone J)
  rw [if_neg (hnone _), ht.attemptCount]
  exact if_pos hatt

/-- The delivery is opened once more. -/
theorem deliveriesGo_resend {job : BackgroundJob} {row : NotificationDelivery} (hi : Counted W)
    (hrow : IsDelivery W job row) (hc : Store.Committed schema i W.store W'.store)
    (hw : Stamped [.update .notificationDeliveries row (resent row)]
      (W.store.sessions i).writes) (hclaimed : i ∈ claimers job.id W.store.wal)
    (hopened : i ∉ openers job.id W.store.wal) : DeliveriesGo i W W' := by
  have hne : row.attemptCount ≠ (resent row).attemptCount := Nat.ne_of_lt (Nat.lt_succ_self _)
  obtain ⟨hkeys, row', ht, hrows⟩ := delivery_updated [] (l := row) (c := resent row)
    hi.keys hrow.1 rfl hc
    (by rwa [List.nil_append, Write.updates_of_ne NotificationDelivery.attemptCount hne]) (by simp)
  have hopens (J : UUID) : (W.store.sessions i).writes.any (Write.opens J) = true ↔ job.id = J := by
    rw [hw.any fun τ w => Write.opens_stamp J τ w]
    simp [Write.opens, resent, hrow.2]
  refine deliveriesGo_updated hi hkeys hrow.1 ht hrows
    (fun J hJ => hrow.2.trans ((hopens J).mp hJ)) ?_
    fun J hJ => (hopens J).mp hJ ▸ ⟨hclaimed, hopened⟩
  rw [if_pos ((hopens _).mpr hrow.2.symm), ht.attemptCount]
  exact if_neg hne

/-- The delivery is opened for the first time. -/
theorem deliveriesGo_insert {job : BackgroundJob} {recipient : String} {id : UUID}
    (hi : Counted W) (hc : Store.Committed schema i W.store W'.store)
    (hw : Stamped [.insert .notificationDeliveries (newDelivery job recipient id)]
      (W.store.sessions i).writes)
    (hnew : ∀ k ∈ Table.keys .notificationDeliveries (newDelivery job recipient id),
      W.store.db.present k = false) (hclaimed : i ∈ claimers job.id W.store.wal)
    (hopened : i ∉ openers job.id W.store.wal) : DeliveriesGo i W W' := by
  obtain ⟨hkeys, hfresh, row', ht, hrows⟩ := delivery_inserted hi.keys hnew hc hw
  have hopens (J : UUID) : (W.store.sessions i).writes.any (Write.opens J) = true ↔ job.id = J := by
    rw [hw.any fun τ w => Write.opens_stamp J τ w]
    simp [Write.opens, newDelivery]
  have hmem := (hrows row').mpr (.inl rfl)
  refine ⟨hkeys, fun d hd => ?_, fun d hd => ⟨d, (hrows d).mpr (.inr hd), rfl⟩, fun J hJ => ?_⟩
  · rcases (hrows d).mp hd with rfl | hold
    · refine .inr ⟨fun d' hd' => ?_, ?_, (hopens _).mpr ht.jobId.symm⟩
      · rw [ht.jobId]
        exact hfresh d' hd'
      · exact ht.attemptCount.trans (if_pos rfl)
    · refine .inl ⟨d, hold, rfl, ?_⟩
      rw [if_neg fun h => hfresh d hold ((hopens _).mp h).symm]
      rfl
  · obtain rfl := (hopens J).mp hJ
    exact ⟨hclaimed, hopened, row', hmem, ht.jobId⟩

variable {P : Platform} {C : Settings} {jobId : UUID} {ph ph' : Phase}

/-- **What a worker commits keeps the outline.** -/
theorem attempt_commit (hi : attempts.outline.inv W) (hh : attemptHolds i ph W)
    (hcm : Commits P C jobId W ph ws ph') (hw : Stamped ws (W.store.sessions i).writes)
    (hc : Store.Committed schema i W.store W'.store) (hs : W'.sends = W.sends) :
    attempts.inv W' ∧ (∀ j, j ≠ i → attempts.frame j W W') ∧ attemptHolds i ph' W' := by
  have both (hj : JobsGo i W W') (hd : DeliveriesGo i W W') (h : attemptHolds i ph' W') :
      attempts.inv W' ∧ (∀ j, j ≠ i → attempts.frame j W W') ∧ attemptHolds i ph' W' := by
    obtain ⟨hinv, hf⟩ := counted_commit hi.2 hi.1 hc hs hj hd
    exact ⟨hinv, hf, h⟩
  have uncalled (h : Uncalled i W) : Uncalled i W' := by
    show ∀ s ∈ W'.sends, s.worker ≠ i
    rw [hs]
    exact h
  have joined {f : Write → Bool} (h : (W.store.sessions i).writes.any f = true) :
      Committer i f true W' := by
    refine decide_eq_true ?_
    rw [hc.wal, committers_append, if_pos h]
    exact List.mem_append_right _ (List.mem_singleton.mpr rfl)
  cases hcm with
  | exhaust =>
    exact both (jobsGo_kept hi.2 hc hw (by simp) rfl (by rintro ⟨⟩))
      (deliveriesGo_same hi.2 hc hw (by simp [Write.table])) trivial
  | claim hrow hid hstatus hlease hattempts =>
    refine both (jobsGo_claim hi.2 hc hw hrow hattempts hh.2)
      (deliveriesGo_same hi.2 hc hw (by simp [Write.table]))
      ⟨uncalled hh.1, joined ?_, fun J hJ => ?_⟩
    · rw [hw.any (Write.claims_stamp _)]
      simp [Write.claims, BackgroundJobExecutor.claimed]
    · rw [hc.wal, openers, committers_append, hw.any fun τ w => Write.opens_stamp J τ w] at hJ
      obtain ⟨x, hx, hxi⟩ := mem_committers (by simpa [Write.opens] using hJ)
      exact hh.2 x hx hxi
  | fail =>
    exact both (jobsGo_kept hi.2 hc hw (by simp) rfl (by rintro ⟨⟩))
      (deliveriesGo_same hi.2 hc hw (by simp [Write.table])) trivial
  | retry =>
    exact both (jobsGo_kept hi.2 hc hw (by simp) rfl (by rintro ⟨⟩))
      (deliveriesGo_same hi.2 hc hw (by simp [Write.table])) trivial
  | retriesExhausted =>
    exact both (jobsGo_kept hi.2 hc hw (by simp) rfl (by rintro ⟨⟩))
      (deliveriesGo_same hi.2 hc hw (by simp [Write.table])) trivial
  | alreadySent =>
    exact both (jobsGo_kept hi.2 hc hw (by simp) rfl (by rintro ⟨⟩))
      (deliveriesGo_same hi.2 hc hw (by simp [Write.table])) trivial
  | exported =>
    exact both (jobsGo_kept hi.2 hc hw (by simp) rfl (by rintro ⟨⟩))
      (deliveriesGo_same hi.2 hc hw (by simp [Write.table])) trivial
  | unsentMissing =>
    exact both (jobsGo_same hi.2 hc hw (by simp)) (deliveriesGo_same hi.2 hc hw (by simp)) trivial
  | ambiguous hrow =>
    exact both (jobsGo_same hi.2 hc hw fun w hmem => by rw [updates_table hmem]; simp)
      (deliveriesGo_kept [] hi.2 hrow.1 rfl hc hw (by simp) rfl (by rintro ⟨⟩)) trivial
  | insert hkind hnew =>
    obtain ⟨hsilent, hclaimed, hopened⟩ := hh
    refine both (jobsGo_same hi.2 hc hw (by simp [Write.table]))
      (deliveriesGo_insert hi.2 hc hw hnew (of_decide_eq_true hclaimed) (hopened _))
      ⟨uncalled hsilent, joined ?_⟩
    rw [hw.any fun τ w => Write.opens_stamp _ τ w]
    simp [Write.opens, newDelivery]
  | resend hrow =>
    obtain ⟨hsilent, hclaimed, hopened⟩ := hh
    refine both (jobsGo_same hi.2 hc hw (by simp [Write.table]))
      (deliveriesGo_resend hi.2 hrow hc hw (of_decide_eq_true hclaimed) (hopened _))
      ⟨uncalled hsilent, joined ?_⟩
    rw [hw.any fun τ w => Write.opens_stamp _ τ w]
    simp [Write.opens, resent, hrow.2]
  | unsent hrow =>
    exact both (jobsGo_same hi.2 hc hw fun w hmem => by rw [updates_table hmem]; simp)
      (deliveriesGo_kept [] hi.2 hrow.1 reload_id hc hw (by simp) rfl (by rintro ⟨⟩)) trivial
  | delivered hrow =>
    exact both (jobsGo_kept hi.2 hc hw (fun w hmem => by rw [updates_table hmem]; simp) rfl
        (by rintro ⟨⟩))
      (deliveriesGo_kept [_] hi.2 hrow.1 reload_id hc hw (by simp [Write.table]) rfl
        (by rintro ⟨⟩)) trivial

/-! ## The calls and the rest of the world -/

theorem callers_goes (J : UUID) (h : List.Forall₂ Send.Goes W.sends W'.sends) :
    callers J W' = callers J W := by
  unfold callers World.callsFor
  revert h
  generalize W.sends = l, W'.sends = l'
  intro h
  induction h with
  | nil => rfl
  | cons hs _ ih =>
    rw [List.filter_cons, List.filter_cons, hs.message]
    split
    · rw [List.map_cons, List.map_cons, hs.worker, ih]
    · exact ih

/-- A call starts. -/
theorem attempt_send {job : BackgroundJob} {delivery : NotificationDelivery}
    {message : EmailMessage} (hi : attempts.outline.inv W)
    (hh : attemptHolds i (.opened job delivery) W) (hm : message.messageId = messageId job.id)
    (hW : W' = { W with sends := W.sends ++ [⟨i, message, .running⟩] }) :
    attempts.inv W' ∧ ∀ j, j ≠ i → attempts.frame j W W' := by
  obtain ⟨hsilent, hopened⟩ := hh
  have hinv := hi.2
  subst hW
  refine ⟨⟨hinv.jobIds, hinv.keys.of_eq rfl, hinv.attempts, hinv.claimed, hinv.openings,
    hinv.unopened, hinv.claimers, hinv.openers, fun J => ?_⟩,
    fun j hj => ⟨.refl j W, fun hs s hmem => ?_⟩⟩
  · unfold callers World.callsFor
    rw [List.filter_append, List.map_append]
    by_cases hJ : J = job.id
    · subst hJ
      have hnone : i ∉ (W.callsFor job.id).map Send.worker := fun hmem => by
        obtain ⟨s, hs, hw⟩ := List.mem_map.mp hmem
        exact hsilent s (List.mem_filter.mp hs).1 hw
      rw [List.filter_cons_of_pos (by simpa using hm), List.filter_nil, List.map_singleton]
      refine ⟨(hinv.callers job.id).1.append (List.nodup_singleton i)
        (List.disjoint_singleton.mpr hnone), fun j hj => ?_⟩
      rcases List.mem_append.mp hj with hj | hj
      · exact (hinv.callers job.id).2 hj
      · rw [List.mem_singleton.mp hj]
        exact of_decide_eq_true hopened
    · rw [List.filter_cons_of_neg
        (by simpa [hm, Send.messageId_injective.eq_iff] using Ne.symm hJ), List.filter_nil,
        List.map_nil, List.append_nil]
      exact hinv.callers J
  · rcases List.mem_append.mp hmem with hmem | hmem
    · exact hs s hmem
    · rw [List.mem_singleton.mp hmem]
      exact Ne.symm hj

/-- Calls go on, and jobs are submitted. -/
theorem counted_goes (hi : Counted W) (hlocks : ∀ j, World.Locks j W W')
    (hids : W'.JobIds) (hjobs : ∃ new, W'.store.db .backgroundJobs =
      W.store.db .backgroundJobs ++ new ∧ ∀ job ∈ new, job.Submitted)
    (hdb : W'.store.db .notificationDeliveries = W.store.db .notificationDeliveries)
    (hwal : W'.store.wal = W.store.wal) (hs : List.Forall₂ Send.Goes W.sends W'.sends) :
    Counted W' ∧ ∀ j, AttemptFrame j W W' := by
  obtain ⟨new, hnew, hsub⟩ := hjobs
  refine ⟨⟨hids, hi.keys.of_eq hdb, fun job hjob => ?_, fun J hJ => ?_, ?_, ?_, ?_, ?_,
    fun J => ?_⟩, fun j => ⟨hlocks j, fun hsilent s hmem => ?_⟩⟩
  · rw [hnew, List.mem_append] at hjob
    rw [hwal]
    rcases hjob with hjob | hjob
    · exact hi.attempts job hjob
    · have hnone : claimers job.id W.store.wal = [] := by
        by_contra hne
        obtain ⟨old, hold, hid⟩ := hi.claimed job.id hne
        rw [World.JobIds, hnew, List.map_append, List.nodup_append] at hids
        exact hids.2.2 _ (List.mem_map_of_mem hold) _ (List.mem_map_of_mem hjob) hid
      rw [hnone, (hsub job hjob).attemptCount]
      exact ⟨rfl, Nat.zero_le _⟩
  · rw [hwal] at hJ
    obtain ⟨job, hjob, hid⟩ := hi.claimed J hJ
    exact ⟨job, by rw [hnew]; exact List.mem_append_left _ hjob, hid⟩
  · rw [hdb, hwal]
    exact hi.openings
  · rw [hdb, hwal]
    exact hi.unopened
  · rw [hwal]
    exact hi.claimers
  · rw [hwal]
    exact hi.openers
  · rw [callers_goes J hs, hwal]
    exact hi.callers J
  · obtain ⟨s₀, hs₀, hg⟩ := mem_goes hs hmem
    rw [hg.worker]
    exact hsilent s₀ hs₀

theorem attempt_await {c : Choice} {r : Except Exn Unit} (hi : attempts.outline.inv W)
    (hst : opStep i c .awaitSend W = some (r, W')) (hstore : W'.store = W.store) :
    attempts.inv W' ∧ ∀ j, j ≠ i → attempts.frame j W W' := by
  obtain ⟨hinv, hf⟩ : Counted W' ∧ ∀ j, AttemptFrame j W W' :=
    counted_goes hi.2 (fun j => .of_db (by rw [hstore]))
    (by rw [World.JobIds, hstore]; exact hi.2.jobIds)
    ⟨[], by rw [hstore, List.append_nil], fun _ h => absurd h List.not_mem_nil⟩
    (by rw [hstore]) (by rw [hstore]) (await_goes hst)
  exact ⟨hinv, fun j _ => hf j⟩

end Commits

/-! ## The result -/

/-- What `execute` does to the counters, phase by phase. -/
def attemptFollows (P : Platform) (C : Settings) (i : Nat) (jobId : UUID) :
    Follows attempts (fun _ _ _ _ => True) P C i jobId where
  holds := attemptHolds i
  lost := .true
  locks h := h.locks
  blind _ _ h _ := h
  own {ph W W'} hl hs h := by
    have uncalled (h : Uncalled i W) : Uncalled i W' := by
      show ∀ s ∈ W'.sends, s.worker ≠ i
      rw [hs]
      exact h
    have wal {A : List (Nat × List Write) → Prop} (h : A W.store.wal) : A W'.store.wal := by
      rwa [hl.wal]
    cases ph with
    | fresh | ready => exact ⟨uncalled h.1, wal (A := fun l => ∀ c ∈ l, c.1 ≠ i) h.2⟩
    | claimed job =>
      exact ⟨uncalled h.1, wal (A := fun l => decide (i ∈ claimers job.id l) = true) h.2.1,
        wal (A := fun l => ∀ J, i ∉ openers J l) h.2.2⟩
    | opened job d =>
      exact ⟨uncalled h.1, wal (A := fun l => decide (i ∈ openers job.id l) = true) h.2⟩
    | _ => trivial
  read _ h := h
  missed _ _ _ := trivial
  fail _ _ := trivial
  commit hi hh _ hcm hw hc hs := attempt_commit hi hh hcm hw hc hs
  send hi hh _ hm := by
    obtain ⟨hinv, hf⟩ := attempt_send hi hh hm rfl
    exact ⟨hinv, hf, trivial⟩
  await hi _ hst hstore := by
    obtain ⟨hinv, hf⟩ := attempt_await hi hst hstore
    exact ⟨hinv, hf, fun _ => trivial, fun _ _ _ => trivial⟩
  drop _ _ _ _ _ := trivial

theorem attempts_ok (P : Platform) (C : Settings) :
    attempts.outline.Ok (workers P C fun _ _ _ _ => True)
      (fun i jobId => post (fun _ => attemptHolds i .ended) (attemptFollows P C i jobId).Outcome)
      fun _ _ _ _ => True :=
  executors_ok (attemptFollows P C)
    (fun i _ W hi hu => ⟨WorldOutline.guar_dropped (WorldOutline.dropped_accept W i none) rfl hi,
      hu.2.1, hu.1⟩)
    (fun i W again hi => WorldOutline.guar_dropped (WorldOutline.dropped_settle W i again) rfl hi)
    fun _ _ hi h => counted_goes hi.2 h.locks (h.jobIds hi.2.jobIds) h.jobs h.deliveries h.wal
      h.sends

theorem counted_untried {W : World} (h : W.Untried) : attempts.outline.inv W := by
  have hclaimers (J : UUID) : claimers J W.store.wal = [] := by rw [h.wal]; rfl
  have hopeners (J : UUID) : openers J W.store.wal = [] := by rw [h.wal]; rfl
  have hcallers (J : UUID) : callers J W = [] := by
    rw [callers, World.callsFor, h.sends]
    rfl
  have hd : ∀ d, d ∉ W.store.db .notificationDeliveries := by simp [h.deliveries]
  refine ⟨fun i w hw => ?_, h.jobIds, ⟨?_, ?_⟩, fun job hjob => ?_, fun J hJ =>
    absurd (hclaimers J) hJ,
    fun d hmem => absurd hmem (hd d), fun J _ => hopeners J, fun J => ?_, fun J => ⟨?_, ?_⟩,
    fun J => ⟨?_, ?_⟩⟩
  · rw [h.sessions i] at hw
    cases hw
  · rw [h.deliveries]
    exact List.nodup_nil
  · rw [h.deliveries]
    exact List.nodup_nil
  · rw [(h.jobs job hjob).attemptCount]
    exact ⟨(congrArg List.length (hclaimers _)).symm, Nat.zero_le _⟩
  · rw [hclaimers]
    exact List.nodup_nil
  · rw [hopeners]
    exact List.nodup_nil
  · rw [hopeners]
    exact List.nil_subset _
  · rw [hcallers]
    exact List.nodup_nil
  · rw [hcallers]
    exact List.nil_subset _

/-- **Attempts are counted and bounded.** -/
theorem attempts_are_counted (P : Platform) (C : Settings) {W₀ : World} (h₀ : W₀.Untried)
    {pool : (workers P C fun _ _ _ _ => True).Pool} (h : System.Reachable W₀ pool)
    (job : BackgroundJob) (hjob : job ∈ pool.shared.store.db .backgroundJobs) :
    (claimers job.id pool.shared.store.wal).Nodup ∧
    job.attemptCount = (claimers job.id pool.shared.store.wal).length ∧
    job.attemptCount ≤ job.maxAttempts ∧
    (∀ pool', System.Steps pool pool' → ∀ job' ∈ pool'.shared.store.db .backgroundJobs,
      job'.id = job.id → job.attemptCount ≤ job'.attemptCount) ∧
    (∀ d ∈ pool.shared.store.db .notificationDeliveries, d.jobId = job.id →
      (pool.shared.callsFor job.id).length ≤ d.attemptCount ∧ d.attemptCount ≤ job.attemptCount) ∧
    ((∀ d ∈ pool.shared.store.db .notificationDeliveries, d.jobId ≠ job.id) →
      pool.shared.callsFor job.id = []) ∧
    (pool.shared.callsFor job.id).length ≤ job.maxAttempts := by
  have hok := (attempts_ok P C).sound (counted_untried h₀) h
  have hinv := hok.inv.2
  have le_of {l l' : List Nat} (hl : l.Nodup ∧ l ⊆ l') : l.length ≤ l'.length :=
    (List.subperm_of_subset hl.1 hl.2).length_le
  have hcalls : (pool.shared.callsFor job.id).length = (callers job.id pool.shared).length :=
    (List.length_map _).symm
  obtain ⟨hcount, hmax⟩ := hinv.attempts job hjob
  have hopeners := le_of (hinv.openers job.id)
  have hcallers := le_of (hinv.callers job.id)
  refine ⟨hinv.claimers _, hcount, hmax, fun pool' hsteps job' hjob' hid => ?_, fun d hd hid => ?_,
    fun hnone => ?_, ?_⟩
  · obtain ⟨hcount', -⟩ := (hok.steps (attempts_ok P C) hsteps).inv.2.attempts job' hjob'
    have hwal := Calls.wal_prefix (fun _ _ h => h.wal) hsteps
    rw [hcount, hcount', hid]
    exact ((hwal.sublist.filter _).map Prod.fst).length_le
  · rw [hinv.openings d hd, hid, hcalls, hcount]
    exact ⟨hcallers, hopeners⟩
  · rw [hinv.unopened job.id hnone, ← hcalls] at hcallers
    exact List.length_eq_zero_iff.mp (Nat.le_zero.mp hcallers)
  · omega

/-- Two claims and one call: the second worker finds the delivery under way. -/
theorem attempts_are_counted_twice :
    ∃ (pool : (workers .plain {} fun _ _ _ _ => True).Pool) (job : BackgroundJob),
      System.Reachable (World.fresh Db.submitted) pool ∧
      job ∈ pool.shared.store.db .backgroundJobs ∧ job.attemptCount = 2 ∧
      (claimers job.id pool.shared.store.wal).length = 2 ∧
      ∀ d ∈ pool.shared.store.db .notificationDeliveries, d.jobId = job.id →
        (pool.shared.callsFor job.id).length ≤ d.attemptCount ∧
          d.attemptCount ≤ job.attemptCount := by
  let moves : List (System.Move UUID Choice Nat) :=
    [.start 0 2, .ops 0 (List.replicate 9 { uuid := 3 }), .crash 0, .env 300000000,
      .start 1 2, .ops 1 (List.replicate 7 {})]
  obtain ⟨pool, hreach, hobs⟩ := (workersPlayer .plain {} (fun _ _ _ _ => true)
    fun _ _ _ _ _ => trivial).replay_map moves (.init (World.fresh Db.submitted))
    (fun pool => (pool.shared.store.db .backgroundJobs).map BackgroundJob.attemptCount)
    (b := [2]) (by decide +kernel)
  obtain ⟨job, hjobs, hatt⟩ := List.map_eq_singleton_iff.mp hobs
  have hjob : job ∈ pool.shared.store.db .backgroundJobs := by
    rw [hjobs]
    exact List.mem_singleton.mpr rfl
  obtain ⟨-, hcount, -, -, hd, -⟩ :=
    attempts_are_counted _ _ World.untried_submitted hreach job hjob
  exact ⟨pool, job, hreach, hjob, hatt, hcount.symm.trans hatt, hd⟩

end Ticketing
