import Ticketing.Concurrency.History
import Ticketing.Tasks.Execution

/-!
# What an executor does, as seen from outside

An executor is between two of its commits in a `Phase`. `Commits` says which writes it may commit
there, on what grounds, and where it is then: the state machine behind
`BackgroundJobExecutor.execute`. A proof about executors gives each phase an assertion and shows
what one step keeps (`Follows`).

Two ways out are not of that machine. A statement that fails in the claim ends the call, and so
does whatever leaves the session unusable or cancels the task (`lost`): the handlers of `execute`
cannot mark the job then. Every other exception ends in `marking`.

Results:
* `claim_triple`, `executeEmail_triple`, `executeExport_triple`, `handleFailure_triple`: the
  functions of `execute` take an executor from phase to phase.
* `execute_triple`: the one walk through the program. Whatever a proof gives for the phases holds
  of every executor where it stands.
-/

namespace Ticketing

open Lib (Prog Store System Outline)
open Lib.Outline (Triple Assertion post)
open BackgroundJobExecutor

/-- Where an executor stands; `job` is its job object and `delivery` its delivery object. -/
inductive Phase
  | fresh
  /-- It has read the time. -/
  | ready (now : Time)
  | claimed (job : BackgroundJob)
  /-- `SENDING` is committed and the mail thread does not run yet. -/
  | opened (job : BackgroundJob) (delivery : NotificationDelivery)
  | started (job : BackgroundJob) (delivery : NotificationDelivery)
  /-- `send` has returned. -/
  | sent (job : BackgroundJob) (delivery : NotificationDelivery)
  /-- `send` has raised. -/
  | unsent (job : BackgroundJob) (delivery : NotificationDelivery)
  /-- Nothing is left to do but to mark the job. -/
  | marking (job : BackgroundJob)
  /-- `RETRYING` is committed. -/
  | retrying (job : BackgroundJob)
  | ended

namespace Phase

/-- The job has not been claimed. -/
def unclaimed : Phase → Prop
  | fresh | ready _ => True
  | _ => False

/-- The object an exception sends to the handlers of `execute`. -/
def job? : Phase → Option BackgroundJob
  | claimed job | opened job _ | sent job _ | unsent job _ | marking job => some job
  | _ => none

end Phase

section

variable (P : Platform) (C : Settings) (jobId : UUID) (W : World)

/-- The row of the job's delivery. -/
def IsDelivery (job : BackgroundJob) (row : NotificationDelivery) : Prop :=
  row ∈ W.store.db .notificationDeliveries ∧ row.jobId = job.id

/-- What the executor of `jobId` may commit in the world `W`. -/
inductive Commits : Phase → List Write → Phase → Prop
  | exhaust {now : Time} {row : BackgroundJob} (hrow : row ∈ W.store.db .backgroundJobs)
      (hid : row.id = jobId) (hstatus : row.status.terminal = false)
      (hlease : row.leased now = none)
      (hattempts : row.maxAttempts ≤ row.attemptCount) :
      Commits (.ready now) [.update .backgroundJobs row (exhausted row now)] .ended
  | claim {now : Time} {row : BackgroundJob} (hrow : row ∈ W.store.db .backgroundJobs)
      (hid : row.id = jobId) (hstatus : row.status.terminal = false)
      (hlease : row.leased now = none)
      (hattempts : row.attemptCount < row.maxAttempts) :
      Commits (.ready now) [.update .backgroundJobs row (claimed C row now)]
        (.claimed (claimed C row now))
  | ambiguous {job : BackgroundJob} {row : NotificationDelivery} (hrow : IsDelivery W job row)
      (hkind : job.kind = .emailNotification)
      (hstatus : row.status = .sending ∨ row.status = .ambiguousFailure) :
      Commits (.claimed job) (Write.updates .notificationDeliveries row (ambiguous row))
        (.marking job)
  | insert {job : BackgroundJob} {recipient : String} {id : UUID}
      (hkind : job.kind = .emailNotification)
      (hnew : ∀ k ∈ Table.keys .notificationDeliveries (newDelivery job recipient id),
        W.store.db.present k = false) :
      Commits (.claimed job) [.insert .notificationDeliveries (newDelivery job recipient id)]
        (.opened job (newDelivery job recipient id))
  | resend {job : BackgroundJob} {row : NotificationDelivery} (hrow : IsDelivery W job row)
      (hkind : job.kind = .emailNotification) (hstatus : row.status = .retryableFailure) :
      Commits (.claimed job) [.update .notificationDeliveries row (resent row)]
        (.opened job (resent row))
  | unsent {job : BackgroundJob} {added : Bool} {delivery row : NotificationDelivery} {e : Exn}
      (hrow : IsDelivery W job row) :
      Commits (.unsent job delivery) (Write.updates .notificationDeliveries
        (reload added delivery row) (undelivered P (reload added delivery row) e)) (.marking job)
  | unsentMissing {job : BackgroundJob} {delivery : NotificationDelivery} :
      Commits (.unsent job delivery) [] (.marking job)
  | delivered {job : BackgroundJob} {added : Bool} {delivery row : NotificationDelivery}
      {now now' : Time} (hrow : IsDelivery W job row) :
      Commits (.sent job delivery)
        (.update .backgroundJobs job (succeeded job (sentResult C) now') ::
          Write.updates .notificationDeliveries (reload added delivery row)
            (delivered (reload added delivery row) now)) .ended
  | alreadySent {job : BackgroundJob} {row : NotificationDelivery} {now : Time}
      (hrow : IsDelivery W job row) (hkind : job.kind = .emailNotification)
      (hstatus : row.status = .sent) :
      Commits (.claimed job) [.update .backgroundJobs job (succeeded job (sentResult C) now)] .ended
  | exported {job : BackgroundJob} {result : JsonObject} {now : Time}
      (hkind : job.kind = .ticketExport) :
      Commits (.claimed job) [.update .backgroundJobs job (succeeded job result now)] .ended
  | fail {job : BackgroundJob} {code message : String} {now : Time} :
      Commits (.marking job) [.update .backgroundJobs job (failed job code message now)] .ended
  | retry {job : BackgroundJob} {code message : String}
      (hattempts : job.attemptCount < job.maxAttempts) :
      Commits (.marking job) [.update .backgroundJobs job (retrying job code message)]
        (.retrying job)
  | retriesExhausted {job : BackgroundJob} {code message : String} {now : Time}
      (hattempts : job.maxAttempts ≤ job.attemptCount) :
      Commits (.marking job) [.update .backgroundJobs job (retriesExhausted job code message now)]
        .ended

end

/-- What a proof gives for the executor of `jobId` in thread `i`. -/
structure Follows (T : WorldOutline) (admits : Admission) (P : Platform) (C : Settings) (i : Nat)
    (jobId : UUID) where
  holds : Phase → T.outline.Assertion i
  /-- What holds when nothing can be committed any more. -/
  lost : T.outline.Assertion i
  locks : ∀ {W W'}, T.frame i W W' → World.Locks i W W'
  blind : ∀ o : Op, o.Quiet → o.part ≠ some .sends → o.part ≠ some .queue → T.blind o
  /-- No phase is about the session. -/
  own : ∀ {ph W W'}, Store.Local i W.store W'.store → T.same W W' → holds ph W → holds ph W'
  read : ∀ {W}, T.outline.inv W → holds .fresh W → holds (.ready W.clock) W
  missed : ∀ {W now}, T.outline.inv W → holds (.ready now) W →
    (∀ row, W.store.db.get .backgroundJobs jobId = some row → row.status.terminal = true) →
    holds .ended W
  fail : ∀ {ph job W}, ph.job? = some job → holds ph W → holds (.marking job) W
  commit : ∀ {W c W' ph ws ph'}, T.outline.inv W → holds ph W → admits i W .commit c →
    Commits P C jobId W ph ws ph' → Stamped ws (W.store.sessions i).writes →
    Store.Committed schema i W.store W'.store → T.same W W' →
    T.inv W' ∧ (∀ j, j ≠ i → T.frame j W W') ∧ holds ph' W'
  send : ∀ {W c job delivery message}, T.outline.inv W → holds (.opened job delivery) W →
    admits i W (.startSend message) c → message.messageId = messageId job.id →
    let W' : World := { W with sends := W.sends ++ [⟨i, message, .running⟩] }
    T.inv W' ∧ (∀ j, j ≠ i → T.frame j W W') ∧ holds (.started job delivery) W'
  await : ∀ {W c r W' job delivery}, T.outline.inv W → holds (.started job delivery) W →
    opStep i c .awaitSend W = some (r, W') → W'.store = W.store →
    T.inv W' ∧ (∀ j, j ≠ i → T.frame j W W') ∧ (r = .ok () → holds (.sent job delivery) W') ∧
      ∀ e, r = .error e → e.isException = true → holds (.unsent job delivery) W'
  drop : ∀ {ph o c W e W'}, T.outline.inv W → holds ph W → admits i W o c →
    opStep i c o W = some (.error e, W') →
    ph.unclaimed ∨ e.isException = false ∨ (W'.store.sessions i).broken = true → lost W'

namespace Follows

variable {T : WorldOutline} {admits : Admission} {P : Platform} {C : Settings} {i : Nat}
variable {jobId : UUID} (D : Follows T admits P C i jobId)

/-- The executor stands at `ph`, and its session has written `ws`. -/
def At (ph : Phase) (ws : List Write) : T.outline.Assertion i :=
  (D.holds ph).and (T.Writes i (Stamped ws))

/-- The session is unusable. -/
def Broken (T : WorldOutline) (i : Nat) : T.outline.Assertion i where
  holds W := (W.store.sessions i).broken = true
  stable _ _ h hm := by rwa [hm.2.1.session]

/-- The task is cancelled or its session unusable. -/
def Fatal (e : Exn) : T.outline.Assertion i :=
  D.lost.and ((Assertion.pure (e.isException = false)).or (Broken T i))

/-- What is left of a call that raised. -/
def Outcome : Exn → T.outline.Assertion i
  | .jobLeaseActive _ | .retryableJob _ => .true
  | _ => D.lost

/-- What the handlers of `execute` find. -/
def Failed (job : BackgroundJob) (e : Exn) : T.outline.Assertion i :=
  ((D.At (.marking job) []).and (.pure (e.isException = true))).or (D.Fatal e)

/-- A row the session has locked. -/
def Locked {t : Table} (row : t.Row) : T.outline.Assertion i where
  holds W := W.store.owner (.row t (t.id row)) = some i ∧ row ∈ W.store.db t
  stable _ _ h hm := ⟨(hm.2.1.owner _).mpr h.1, (D.locks hm.2.2 t _ h.1 row rfl).mpr h.2⟩

/-- The session holds keys no committed row has. -/
def Reserving (T : WorldOutline) (i : Nat) (ks : List Key) : T.outline.Assertion i where
  holds W := ∀ k ∈ ks, T.Reserved i k W
  stable _ _ h hm k hk := (T.Reserved i k).stable _ _ (h k hk) hm

variable {D} {job : BackgroundJob} {X : T.outline.Assertion i} {E : Exn → T.outline.Assertion i}
variable {ph ph' : Phase} {ws : List Write}

theorem own_locked {t : Table} (row : t.Row) : WorldOutline.Own (D.Locked row) :=
  fun hl ho _ h => ⟨ho _ h.1, by rw [hl.db]; exact h.2⟩

theorem own_pure (φ : Prop) : WorldOutline.Own (T := T) (i := i) (.pure φ) := fun _ _ _ h => h

theorem outcome_of_lost {e : Exn} {W : World} (h : D.lost W) : D.Outcome e W := by
  cases e <;> first | exact h | trivial

theorem at_keeps {W W' : World} (hk : Store.Keeps i W.store W'.store) (hs : T.same W W')
    (h : D.At ph ws W) : D.At ph ws W' :=
  ⟨D.own hk.toLocal hs h.1, by
    have := h.2
    simpa only [WorldOutline.Writes, hk.writes] using this⟩

theorem at_nil {W : World} (h : D.At ph [] W) : (W.store.sessions i).writes = [] :=
  stamped_nil.mp h.2

/-- Before anything is written a session sees the committed rows. -/
theorem at_view {W : World} (h : D.At ph [] W) : W.store.view schema i = W.store.db :=
  WorldOutline.view_eq (at_nil h)

/-! ### Statements -/

/-- An exception of an operation before the claim ends the call. -/
theorem claiming (hph : ph.unclaimed) (hX : WorldOutline.Own X) :
    WorldOutline.LocalAt admits ((D.At ph []).and X) D.Outcome where
  keeps hk hs h := ⟨at_keeps hk hs h.1, hX hk.toLocal hk.own hs h.2⟩
  raise hi h hadm _ hst _ _ := outcome_of_lost (D.drop hi h.1.1 hadm hst (.inl hph))

/-- An exception of an operation after it goes to the handlers. -/
theorem working (hph : ph.job? = some job) (hX : WorldOutline.Own X) :
    WorldOutline.LocalAt admits ((D.At ph []).and X) (D.Failed job) where
  keeps hk hs h := ⟨at_keeps hk hs h.1, hX hk.toLocal hk.own hs h.2⟩
  raise := fun {_ _ e _ W'} hi h hadm _ hst hl hs => by
    by_cases hu : e.isException = false ∨ (W'.store.sessions i).broken = true
    · exact .inr ⟨D.drop hi h.1.1 hadm hst (.inr hu), hu⟩
    · rw [not_or, Bool.not_eq_false] at hu
      rcases hl with hk | ⟨-, hbr⟩
      · have h' := at_keeps hk hs h.1
        exact .inl ⟨⟨D.fail hph h'.1, h'.2⟩, hu.1⟩
      · exact absurd hbr hu.2

/-- A flush that raises leaves nothing to be done. -/
theorem writing {w : Write} {B : Unit → T.outline.Assertion i}
    (hE : ∀ e W, D.Fatal e W → E e W)
    (hB : ∀ W W' t, T.outline.inv W → D.At ph ws W → X W →
      Store.Wrote schema i t w W.store W'.store → T.same W W' → B () W') :
    Triple (callStep admits i) ((D.At ph ws).and X) (Lib.Prog.perform (Op.write w)) B E :=
  WorldOutline.writeAt (fun W W' t hi h hw hs => hB W W' t hi h.1 h.2 hw hs)
    fun W c e W' hi h hadm hst _ hl => by
      have hu : e.isException = false ∨ (W'.store.sessions i).broken = true := by
        rcases hl with ⟨-, rfl⟩ | ⟨-, hbr⟩
        · exact .inl rfl
        · exact .inr hbr
      exact hE e W' ⟨D.drop hi h.1.1 hadm hst (.inr hu), hu⟩

theorem at_wrote {W W' : World} {t : Nat} {w : Write}
    (hw : Store.Wrote schema i t w W.store W'.store) (hs : T.same W W') (h : D.At ph ws W) :
    D.At ph (ws ++ [w]) W' :=
  ⟨D.own hw.toLocal hs h.1, by
    show Stamped (ws ++ [w]) (W'.store.sessions i).writes
    rw [hw.writes]
    exact h.2.snoc w t⟩

theorem updating {t : Table} {l c : t.Row} (hX : WorldOutline.Own X)
    (hE : ∀ e W, D.Fatal e W → E e W) :
    Triple (callStep admits i) ((D.At ph ws).and X) (Service.update t l c)
      (fun _ => (D.At ph (ws ++ Write.updates t l c)).and X) E := by
  unfold Service.update Write.updates
  split
  · exact Triple.ret fun W _ h => by simpa using h
  · exact writing hE fun W W' τ _ h hx hw hs => ⟨at_wrote hw hs h, hX hw.toLocal hw.own hs hx⟩

/-- The keys of a first write are reserved. -/
theorem inserting {t : Table} {row : t.Row} (hE : ∀ e W, D.Fatal e W → E e W) :
    Triple (callStep admits i) ((D.At ph []).and X) (Service.insert t row)
      (fun _ => (D.At ph [.insert t row]).and (Reserving T i (t.keys row))) E :=
  writing hE fun W W' τ _ h _ hw hs => ⟨at_wrote hw hs h, fun k hk => by
    refine ⟨hw.keys k hk, ?_⟩
    have hf : Db.present k (W.store.view schema i) = false := hw.fresh k hk
    rwa [at_view h, ← hw.db] at hf⟩

theorem committing (hE : ∀ e W, D.Fatal e W → E e W)
    (h : ∀ W, T.outline.inv W → D.At ph ws W → X W → Commits P C jobId W ph ws ph') :
    Triple (callStep admits i) ((D.At ph ws).and X) Service.commit (fun _ => D.At ph' []) E :=
  WorldOutline.commitAt
    (fun W c W' hi hA hadm hc hs => by
      obtain ⟨hI, hF, hq⟩ := D.commit hi hA.1.1 hadm (h W hi hA.1 hA.2) hA.1.2 hc hs
      exact ⟨hI, hF, hq, stamped_nil.mpr hc.writes⟩)
    fun W c e W' hi hA hadm hst _ hl => by
      have hu : e.isException = false ∨ (W'.store.sessions i).broken = true := by
        rcases hl with ⟨-, ⟨-, -, hbr⟩ | ⟨rfl, -⟩⟩ | ⟨-, hbr⟩
        · exact .inr hbr
        · exact .inl rfl
        · exact .inr hbr
      exact hE e W' ⟨D.drop hi hA.1.1 hadm hst (.inr hu), hu⟩

/-- A rollback is only ever cancelled. -/
theorem rollingBack (hE : ∀ e W, D.Fatal e W → E e W) :
    Triple (callStep admits i) ((D.At ph []).and X) Service.rollback (fun _ => D.At ph []) E :=
  WorldOutline.rollbackAt
    (fun W W' _ h hd hs => ⟨D.own hd.toLocal hs h.1.1, stamped_nil.mpr hd.writes⟩)
    fun W c e W' hi h hadm hst _ _ => by
      have he : e.isException = false := by
        simp only [opStep, World.awaiting] at hst
        split at hst <;> cases hst <;> rfl
      exact hE e W' ⟨D.drop hi h.1.1 hadm hst (.inr (.inl he)), .inl he⟩

/-! ### Claiming -/

/-- What a claim finds. -/
def Found (D : Follows T admits P C i jobId) (now : Time) :
    Option BackgroundJob → T.outline.Assertion i
  | none => D.At .ended []
  | some row =>
    if row.status.terminal then D.At .ended []
    else (D.At (.ready now) []).and
      ((D.Locked (t := .backgroundJobs) row).and (.pure (row.id = jobId)))

/-- What a claim returns. -/
def Claimed (D : Follows T admits P C i jobId) : Option BackgroundJob → T.outline.Assertion i
  | none => D.At .ended []
  | some job => (D.At (.claimed job) []).and (.pure (job.status = .running))

theorem find_triple (now : Time) :
    Triple (callStep admits i) (D.At (.ready now) [])
      (Service.selectForUpdate .backgroundJobs fun db => db.get .backgroundJobs jobId)
      (D.Found now) D.Outcome := by
  have h := WorldOutline.selectForUpdateAt (t := .backgroundJobs)
    (q := fun db => db.get .backgroundJobs jobId) (B := D.Found now)
    (show WorldOutline.LocalAt admits ((D.At (.ready now) []).and .true) D.Outcome from
      claiming trivial WorldOutline.own_true) fun W W' hi h hk hs hl => ?_
  · exact h.pre fun W _ h => ⟨h, trivial⟩
  · rw [at_view h.1] at hl ⊢
    have h' := at_keeps hk hs h.1
    have hover (hterm : ∀ row, W.store.db.get .backgroundJobs jobId = some row →
        row.status.terminal = true) : D.At .ended [] W' :=
      ⟨D.own hk.toLocal hs (D.missed hi h.1.1 hterm), h'.2⟩
    rcases hget : W.store.db.get .backgroundJobs jobId with _ | row
    · exact hover fun row hrow => by rw [hget] at hrow; cases hrow
    · unfold Found
      dsimp only
      split
      · rename_i hterm
        refine hover fun row' hrow => ?_
        obtain rfl := Option.some.inj (hget.symm.trans hrow)
        exact hterm
      · exact ⟨h', ⟨hl row hget, by rw [hk.db]; exact List.mem_of_find?_eq_some hget⟩,
          Db.id_of_get hget⟩

theorem claim_triple :
    Triple (callStep admits i) (D.At .fresh []) (claim C jobId) D.Claimed D.Outcome := by
  have fatal (e : Exn) (W : World) (h : D.Fatal e W) : D.Outcome e W := outcome_of_lost h.1
  refine Triple.bind (M := fun now => D.At (.ready now) []) ?_ fun now =>
    Triple.bind (find_triple now) fun found => ?_
  · refine Triple.op fun W r W' hi h ⟨c, _, hst⟩ => ?_
    cases hst
    exact ⟨⟨hi, fun j _ => T.outline.refl j W⟩, D.read hi h.1, h.2⟩
  · rcases found with _ | row
    · refine Triple.bind (M := fun _ => D.At .ended []) ?_ fun _ => Triple.ret fun W _ h => h
      exact (rollingBack (X := .true) fatal).pre fun W _ h => ⟨h, trivial⟩
    · dsimp only [Found]
      by_cases hterm : row.status.terminal = true
      · rw [if_pos hterm, if_pos hterm]
        refine Triple.bind (M := fun _ => D.At .ended []) ?_ fun _ => Triple.ret fun W _ h => h
        exact (rollingBack (X := .true) fatal).pre fun W _ h => ⟨h, trivial⟩
      · rw [if_neg hterm, if_neg hterm]
        rw [Bool.not_eq_true] at hterm
        rcases hlease : row.leased now with _ | expiry
        · dsimp only
          by_cases hattempts : row.maxAttempts ≤ row.attemptCount
          · rw [if_pos hattempts]
            have hne : row.status ≠ (exhausted row now).status := by
              intro he
              rw [he] at hterm
              cases hterm
            refine Triple.bind (updating (WorldOutline.Own.and (own_locked row) (own_pure _)) fatal)
              fun _ => Triple.bind (committing fatal fun W _ _ hx => ?_) fun _ =>
              Triple.ret fun W _ h => h
            rw [List.nil_append, Write.updates_of_ne BackgroundJob.status hne]
            exact .exhaust hx.1.2 hx.2 hterm hlease hattempts
          · rw [if_neg hattempts]
            have hne : row.attemptCount ≠ (claimed C row now).attemptCount :=
              Nat.ne_of_lt (Nat.lt_succ_self _)
            refine Triple.bind (updating (WorldOutline.Own.and (own_locked row) (own_pure _)) fatal)
              fun _ => Triple.bind (M := fun _ => D.At (.claimed (claimed C row now)) [])
                (committing fatal fun W _ _ hx => ?_) fun _ =>
              Triple.ret fun W _ h => ⟨h, rfl⟩
            rw [List.nil_append, Write.updates_of_ne BackgroundJob.attemptCount hne]
            exact .claim hx.1.2 hx.2 hterm hlease (Nat.lt_of_not_le hattempts)
        · exact Triple.bind (rollingBack fatal) fun _ => Triple.raise fun W _ _ => trivial

/-! ### Executing -/

theorem failed_of_fatal {e : Exn} {W : World} (h : D.Fatal e W) : D.Failed job e W := .inr h

/-- An exception the executor raises itself. -/
theorem failed_of_at (hph : ph.job? = some job) {e : Exn} (he : e.isException = true) {W : World}
    (h : D.At ph [] W) : D.Failed job e W := .inl ⟨⟨D.fail hph h.1, h.2⟩, he⟩

theorem now_triple {A : T.outline.Assertion i} :
    Triple (callStep admits i) A Service.now (fun _ => A) E :=
  Triple.op fun W r W' hi h ⟨c, _, hst⟩ => by
    cases hst
    exact ⟨⟨hi, fun j _ => T.outline.refl j W⟩, h⟩

theorem uuid4_triple {A : T.outline.Assertion i} :
    Triple (callStep admits i) A Service.uuid4 (fun _ => A) E :=
  Triple.op fun W r W' hi h ⟨c, _, hst⟩ => by
    cases hst
    exact ⟨⟨hi, fun j _ => T.outline.refl j W⟩, h⟩

theorem markSucceeded_triple {result : JsonObject}
    {delivery : Option (NotificationDelivery × NotificationDelivery)}
    (hs : job.status = .running) (hX : WorldOutline.Own X)
    (h : ∀ now W, X W → Commits P C jobId W ph
      (.update .backgroundJobs job (succeeded job result now) ::
        delivery.elim [] fun d => Write.updates .notificationDeliveries d.1 d.2) .ended) :
    Triple (callStep admits i) ((D.At ph []).and X) (markSucceeded job result delivery)
      (fun _ => D.At .ended []) (D.Failed job) := by
  have hne (now : Time) : job.status ≠ (succeeded job result now).status := by
    rw [hs]
    nofun
  refine Triple.bind now_triple fun now => Triple.bind (updating hX fun _ _ => failed_of_fatal)
    fun _ => ?_
  rw [List.nil_append, Write.updates_of_ne BackgroundJob.status (hne now)]
  rcases delivery with _ | ⟨loaded, current⟩
  · exact committing (fun _ _ => failed_of_fatal) fun W _ _ hx => h now W hx
  · exact Triple.bind (updating hX fun _ _ => failed_of_fatal) fun _ =>
      committing (fun _ _ => failed_of_fatal) fun W _ _ hx => h now W hx

/-- The row of the job's delivery, as a select for update finds it. -/
def FoundDelivery (D : Follows T admits P C i jobId) (ph : Phase) (job : BackgroundJob) :
    Option NotificationDelivery → T.outline.Assertion i
  | none => D.At ph []
  | some row => (D.At ph []).and ((D.Locked (t := .notificationDeliveries) row).and
      (.pure (row.jobId = job.id)))

theorem findDelivery_triple (hph : ph.job? = some job) :
    Triple (callStep admits i) (D.At ph [])
      (Service.selectForUpdate .notificationDeliveries (findDelivery job.id))
      (D.FoundDelivery ph job) (D.Failed job) := by
  have h := WorldOutline.selectForUpdateAt (t := .notificationDeliveries)
    (q := findDelivery job.id) (B := D.FoundDelivery ph job)
    (working (D := D) hph WorldOutline.own_true) fun W W' hi h hk hs hl => ?_
  · exact h.pre fun W _ h => ⟨h, trivial⟩
  · rw [at_view h.1] at hl ⊢
    have h' := at_keeps hk hs h.1
    rcases hfind : findDelivery job.id W.store.db with _ | row
    · exact h'
    · have hid : row.jobId = job.id := by
        have hp := List.find?_some hfind
        exact of_decide_eq_true hp
      exact ⟨h', ⟨hl row hfind, by rw [hk.db]; exact List.mem_of_find?_eq_some hfind⟩, hid⟩

theorem isDelivery_of_locked {row : NotificationDelivery} {W : World}
    (h : ((D.Locked (t := .notificationDeliveries) row).and (.pure (row.jobId = job.id))) W) :
    IsDelivery W job row := ⟨h.1.2, h.2⟩

theorem own_delivery (row : NotificationDelivery) :
    WorldOutline.Own ((D.Locked (t := .notificationDeliveries) row).and
      (.pure (row.jobId = job.id))) :=
  WorldOutline.Own.and (own_locked (t := .notificationDeliveries) row) (own_pure _)

/-- What a call of `send` leaves when it raises. -/
def SendFailed (D : Follows T admits P C i jobId) (job : BackgroundJob)
    (delivery : NotificationDelivery) (e : Exn) : T.outline.Assertion i :=
  ((D.At (.unsent job delivery) []).and (.pure (e.isException = true))).or
    (D.lost.and (.pure (e.isException = false)))

theorem send_triple {delivery : NotificationDelivery} {message : EmailMessage}
    (hm : message.messageId = messageId job.id) :
    Triple (callStep admits i) (D.At (.opened job delivery) [])
      (BackgroundJobExecutor.send message)
      (fun _ => D.At (.sent job delivery) []) (D.SendFailed job delivery) := by
  refine Triple.bind (M := fun _ => D.At (.started job delivery) []) ?_ fun _ => ?_
  · refine Triple.op fun W r W' hi h ⟨c, hadm, hst⟩ => ?_
    cases hst
    obtain ⟨hI, hF, hq⟩ := D.send hi h.1 hadm hm
    exact ⟨⟨⟨hi.1, hI⟩, fun j hj => ⟨.refl j _, hF j hj⟩⟩, hq, h.2⟩
  · refine Triple.op fun W r W' hi h ⟨c, hadm, hst⟩ => ?_
    have hstore : W'.store = W.store := by
      simp only [opStep] at hst
      split at hst
      · cases hst; rfl
      · split at hst
        · cases hst
        · split at hst <;> cases hst <;> rfl
    obtain ⟨hI, hF, hok, herr⟩ := D.await hi h.1 hst hstore
    refine ⟨⟨⟨by rw [hstore]; exact hi.1, hI⟩, fun j hj => ⟨by rw [hstore]; exact .refl j _,
      hF j hj⟩⟩, ?_⟩
    have hw : Stamped [] (W'.store.sessions i).writes := by rw [hstore]; exact h.2
    rcases r with e | u
    · by_cases he : e.isException = true
      · exact .inl ⟨⟨herr e rfl he, hw⟩, he⟩
      · rw [Bool.not_eq_true] at he
        exact .inr ⟨D.drop hi h.1 hadm hst (.inr (.inl he)), he⟩
    · exact ⟨hok rfl, hw⟩

theorem deliver_triple {added : Bool} {delivery : NotificationDelivery} {message : EmailMessage}
    (hs : job.status = .running) (hm : message.messageId = messageId job.id) :
    Triple (callStep admits i) (D.At (.opened job delivery) [])
      (deliver P C job added delivery message) (fun _ => D.At .ended []) (D.Failed job) := by
  refine Triple.bind (Triple.handle (send_triple hm) fun e => ?_) fun _ => ?_
  · refine Triple.or (Triple.assume fun he => ?_) (Triple.assume fun he => ?_)
    · have commit (ws : List Write) (X : T.outline.Assertion i)
          (h : ∀ W, X W → Commits P C jobId W (.unsent job delivery) ws (.marking job)) :
          Triple (callStep admits i) ((D.At (.unsent job delivery) ws).and X)
            (Service.commit.bind fun _ => .raise e)
            (fun _ : Unit => D.At (.sent job delivery) []) (D.Failed job) :=
        Triple.bind (committing (fun _ _ => failed_of_fatal) fun W _ _ hx => h W hx) fun _ =>
          Triple.raise fun W _ h => failed_of_at rfl he h
      rw [if_pos he]
      refine Triple.bind (findDelivery_triple rfl) fun found => ?_
      rcases found with _ | row
      · exact (commit [] .true fun W _ => .unsentMissing).pre fun W _ h => ⟨h, trivial⟩
      · exact Triple.bind (updating (own_delivery row) fun _ _ => failed_of_fatal) fun _ =>
          commit _ _ fun W hx => .unsent (isDelivery_of_locked hx)
    · rw [if_neg (by rw [he]; exact Bool.false_ne_true)]
      exact Triple.raise fun W _ h => failed_of_fatal ⟨h, .inl he⟩
  · refine Triple.bind (findDelivery_triple rfl) fun found => ?_
    rcases found with _ | row
    · exact Triple.raise fun W _ h => failed_of_at rfl rfl h
    · exact Triple.bind now_triple fun now => markSucceeded_triple hs (own_delivery row)
        fun now' W hx => .delivered (isDelivery_of_locked hx)

theorem payloadString_triple {key : String} :
    Triple (callStep admits i) (D.At (.claimed job) []) (payloadString job key)
      (fun _ => D.At (.claimed job) []) (D.Failed job) := by
  unfold payloadString
  split
  · split
    · exact Triple.raise fun W _ h => failed_of_at rfl rfl h
    · exact Triple.ret fun W _ h => h
  · exact Triple.raise fun W _ h => failed_of_at rfl rfl h

theorem executeEmail_triple (hs : job.status = .running) (hk : job.kind = .emailNotification) :
    Triple (callStep admits i) (D.At (.claimed job) []) (executeEmail P C job)
      (fun _ => D.At .ended []) (D.Failed job) := by
  refine Triple.bind payloadString_triple fun recipient => Triple.bind payloadString_triple
    fun subject => Triple.bind payloadString_triple fun body =>
    Triple.bind (findDelivery_triple rfl) fun found => ?_
  rcases found with _ | row
  · refine Triple.bind uuid4_triple fun id => Triple.bind
      (M := fun _ => (D.At (.claimed job) [.insert .notificationDeliveries _]).and
        (Reserving T i (Table.keys .notificationDeliveries (newDelivery job recipient id))))
      ((inserting (X := .true) fun _ _ => failed_of_fatal).pre fun W _ h => ⟨h, trivial⟩)
      fun _ => Triple.bind (committing (fun _ _ => failed_of_fatal) fun W _ _ hx => ?_)
      fun _ => deliver_triple hs rfl
    exact .insert hk fun k hk => (hx k hk).2
  · have suppress (h : row.status = .sending ∨ row.status = .ambiguousFailure) :
        Triple (callStep admits i) ((D.At (.claimed job) []).and
          ((D.Locked (t := .notificationDeliveries) row).and (.pure (row.jobId = job.id))))
          ((Service.update .notificationDeliveries row (ambiguous row)).bind fun _ =>
            Service.commit.bind fun _ => .raise (.permanentJob "email_delivery_ambiguous"
              "Email delivery outcome is ambiguous; automatic resend was suppressed"))
          (fun _ : Unit => D.At .ended []) (D.Failed job) :=
      Triple.bind (updating (own_delivery row) fun _ _ => failed_of_fatal) fun _ =>
        Triple.bind (committing (fun _ _ => failed_of_fatal) fun W _ _ hx =>
          .ambiguous (isDelivery_of_locked hx) hk h) fun _ =>
        Triple.raise fun W _ h => failed_of_at rfl rfl h
    dsimp only [FoundDelivery]
    rcases hstatus : row.status
    · exact suppress (.inl hstatus)
    · exact markSucceeded_triple hs (own_delivery row) fun now W hx =>
        .alreadySent (isDelivery_of_locked hx) hk hstatus
    · have hne : row.attemptCount ≠ (resent row).attemptCount := Nat.ne_of_lt (Nat.lt_succ_self _)
      refine Triple.bind (updating (own_delivery row) fun _ _ => failed_of_fatal) fun _ =>
        Triple.bind (committing (fun _ _ => failed_of_fatal) fun W _ _ hx => ?_) fun _ =>
        deliver_triple hs rfl
      rw [List.nil_append, Write.updates_of_ne NotificationDelivery.attemptCount hne]
      exact .resend (isDelivery_of_locked hx) hk hstatus
    · exact suppress (.inr hstatus)

/-- What raises nothing but errors, performs no statement that writes and sends nothing. -/
theorem straight_triple {α : Type} {p : Service α} (hph : ph.job? = some job)
    (hp : p.Straight (fun o => o.Quiet ∧ o.part ≠ some .sends ∧ o.part ≠ some .queue)
      fun e => e.isException = true) :
    Triple (callStep admits i) (D.At ph []) p (fun _ => D.At ph []) (D.Failed job) := by
  have h := WorldOutline.quietAt hp (fun o ho => ⟨ho.1, D.blind o ho.1 ho.2.1 ho.2.2⟩)
    (working (D := D) hph WorldOutline.own_true) fun e W he h => failed_of_at hph he h.1
  exact h.conseq (fun W _ h => ⟨h, trivial⟩) (fun _ W _ h => h.1) fun _ W _ h => h

theorem straight_exportFilter {α : Type} {value : Scalar} {text : String}
    {parse : String → Option α} {φ : Op → Prop} :
    (exportFilter value text parse).Straight φ fun e => e.isException = true := by
  unfold exportFilter
  split
  · trivial
  · split
    · trivial
    · exact rfl
  · exact rfl

theorem executeExport_triple (hs : job.status = .running) (hk : job.kind = .ticketExport) :
    Triple (callStep admits i) (D.At (.claimed job) []) (executeExport C job)
      (fun _ => D.At .ended []) (D.Failed job) := by
  have filter {α : Type} {value : Scalar} {text : String} {parse : String → Option α} :
      Triple (callStep admits i) (D.At (.claimed job) []) (exportFilter value text parse)
        (fun _ => D.At (.claimed job) []) (D.Failed job) :=
    straight_triple rfl straight_exportFilter
  have reading {β : Type} (q : Db → β) :
      Triple (callStep admits i) (D.At (.claimed job) []) (Service.select q)
        (fun _ => D.At (.claimed job) []) (D.Failed job) :=
    straight_triple rfl (.perform ⟨trivial, nofun, nofun⟩)
  refine Triple.bind filter fun status => Triple.bind filter fun priority =>
    Triple.bind filter fun creator => Triple.bind (reading _) fun tickets => ?_
  by_cases hmax : C.exportMaxRows < tickets.length
  · rw [if_pos hmax]
    exact Triple.raise fun W _ h => failed_of_at rfl rfl h
  · rw [if_neg hmax]
    refine Triple.bind (straight_triple rfl (.bind (.perform ⟨trivial, nofun, nofun⟩) fun _ =>
      .perform ⟨trivial, nofun, nofun⟩)) fun _ => ?_
    exact (markSucceeded_triple (X := .true) hs WorldOutline.own_true fun now W _ =>
      .exported hk).pre fun W _ h => ⟨h, trivial⟩

theorem executeKind_triple (hs : job.status = .running) :
    Triple (callStep admits i) (D.At (.claimed job) []) (executeKind P C job)
      (fun _ => D.At .ended []) (D.Failed job) := by
  unfold executeKind
  split
  · rename_i hk
    exact executeEmail_triple hs hk
  · rename_i hk
    exact executeExport_triple hs hk

/-! ### The handlers -/

/-- A statement on an unusable session. -/
theorem broken_triple {w : Write} {B : Unit → T.outline.Assertion i} :
    Triple (callStep admits i) (D.lost.and (Broken T i)) (Lib.Prog.perform (Op.write w)) B
      D.Outcome :=
  Triple.op fun W r W' hi h ⟨c, _, hst⟩ => by
    have hb : (W.store.sessions i).broken = true := h.2
    simp only [opStep, World.ofStore, Store.write, Store.statement, if_pos hb] at hst
    cases hst
    exact ⟨⟨hi, fun j _ => T.outline.refl j W⟩, h.1⟩

/-- The flush and the commit of a marked job; an unusable session refuses them. -/
theorem mark_triple {current : BackgroundJob} {e : Exn} (he : e.isException = true)
    (hs : job.status ≠ current.status)
    (h : ∀ W, Commits P C jobId W (.marking job) [.update .backgroundJobs job current] ph') :
    Triple (callStep admits i) (D.Failed job e)
      ((Service.update .backgroundJobs job current).bind fun _ => Service.commit)
      (fun _ => D.At ph' []) D.Outcome := by
  have fatal (e : Exn) (W : World) (h : D.Fatal e W) : D.Outcome e W := outcome_of_lost h.1
  have hupd := Write.updates_of_ne (t := .backgroundJobs) BackgroundJob.status hs
  refine Triple.or (Triple.bind (updating (own_pure _) fatal) fun _ => ?_) ?_
  · rw [hupd]
    exact committing fatal fun W _ _ _ => h W
  · have hbroken : ∀ W, T.outline.inv W → D.Fatal e W → (D.lost.and (Broken T i)) W := by
      rintro W - ⟨hl, hf | hb⟩
      · exact absurd (he.symm.trans hf) Bool.noConfusion
      · exact ⟨hl, hb⟩
    unfold Service.update
    rw [if_neg fun heq => hs (congrArg BackgroundJob.status heq)]
    exact (Triple.bind (M := fun _ => .pure False) broken_triple fun _ _ _ h => h.elim).pre hbroken

theorem handleFailure_triple {e : Exn} (hs : job.status = .running) :
    Triple (callStep admits i) (D.Failed job e) (handleFailure P C job e)
      (fun _ => D.At .ended []) D.Outcome := by
  have hne {current : BackgroundJob} (h : current.status ≠ .running) :
      job.status ≠ current.status := fun heq => h (heq ▸ hs)
  unfold handleFailure
  split
  · exact Triple.bind now_triple fun now => mark_triple rfl (hne nofun) fun W => .fail
  · split
    · rename_i he
      refine Triple.bind (M := fun again : Bool => if again then .true else D.At .ended []) ?_
        fun again => ?_
      · unfold markRetryableFailure
        by_cases hattempts : job.maxAttempts ≤ job.attemptCount
        · rw [if_pos hattempts]
          refine Triple.bind now_triple fun now => ?_
          rw [Prog.bind_eq, Prog.bind_eq, ← Prog.bind_assoc]
          exact Triple.bind (mark_triple he (hne nofun) fun W => .retriesExhausted hattempts)
            fun _ => Triple.ret fun W _ h => h
        · rw [if_neg hattempts, Prog.bind_eq, Prog.bind_eq, ← Prog.bind_assoc]
          exact Triple.bind (mark_triple he (hne nofun) fun W =>
            .retry (Nat.lt_of_not_le hattempts)) fun _ => Triple.ret fun W _ _ => trivial
      · cases again
        · exact Triple.ret fun W _ h => h
        · exact Triple.raise fun W _ _ => trivial
    · rename_i he
      rw [Bool.not_eq_true] at he
      refine Triple.raise fun W _ h => ?_
      rcases h with ⟨-, ht⟩ | hf
      · exact absurd (he.symm.trans ht) Bool.noConfusion
      · exact outcome_of_lost hf.1

/-- **An executor follows its machine.** -/
theorem execute_triple :
    Triple (callStep admits i) (D.At .fresh []) (execute P C jobId) (fun _ => D.holds .ended)
      D.Outcome := by
  refine Triple.bind claim_triple fun found => ?_
  rcases found with _ | job
  · exact Triple.ret fun W _ h => h.1
  · refine Triple.assume fun hs => ?_
    exact (Triple.handle (executeKind_triple hs) fun e => handleFailure_triple hs).conseq
      (fun _ _ h => h) (fun _ W _ h => h.1) fun _ _ _ h => h

end Follows

end Ticketing
