import Ticketing.Concurrency.Records
import Ticketing.Lib.Monitor
import Ticketing.Tasks.Jobs

/-!
# How far an execution is

An execution of a job is in charge of it until it has found it finished or has committed an end of
it; a monitor (`Lib/Monitor.lean`) reads off its trace whether it still is.

* `Progress` is the monitor's state: what the session has sent since its last commit, and whether
  the execution is in charge. `next` moves it on.
* `Serves`: the operation was not refused by the database, and nobody cancelled it. Sends and
  files may fail (`Op.delivers`).
* `Entitled`: the writes that an execution may commit, which are about its job and the delivery.

Results:
* `walks_execute`: while it is served, an execution writes only to its job and the delivery,
  commits only while it is in charge, returns only when it no longer is, and raises only what
  defers the job.
* `pending_of`: what a session is going to commit is what its thread has sent since its last
  commit, so the monitor's state says it in every pool.
-/

namespace Ticketing

open Lib (Prog Store System)
open Service (perform)

/-- Where an execution is: what it has sent since its last commit, and whether it is still in charge
of its job. -/
structure Progress where
  pending : List Write
  inCharge : Bool

namespace Progress

/-- The write ends job `J`. -/
def ends (J : UUID) : Write → Bool
  | .update .backgroundJobs loaded current =>
    decide (loaded.id = J) && !loaded.status.terminal && current.status.terminal
  | _ => false

/-- The monitor of an execution of job `J`. -/
def next (J : UUID) (s : Progress) : (Σ o : Op, Except Exn o.Res) → Progress
  | ⟨.write w, .ok _⟩ => { s with pending := s.pending ++ [w] }
  | ⟨.commit, .ok _⟩ => ⟨[], s.inCharge && !s.pending.any (ends J)⟩
  | ⟨.rollback, .ok _⟩ => { s with pending := [] }
  | ⟨.selectForUpdate .backgroundJobs _, .ok found⟩ =>
    { s with inCharge := s.inCharge && found.any fun job : BackgroundJob => !job.status.terminal }
  | _ => s

/-- An execution at its start, and between its transactions. -/
def idle : Progress := ⟨[], true⟩

/-- Where a thread is that executes job `J`. -/
def of (J : UUID) (t : Trace) : Progress := t.foldl (next J) idle

theorem of_snoc (J : UUID) (t : Trace) (x : Σ o : Op, Except Exn o.Res) :
    of J (t ++ [x]) = next J (of J t) x := by
  rw [of, List.foldl_append]
  rfl

end Progress

/-- What an execution delivers a result with: these may fail. -/
def Op.delivers : Op → Bool
  | .startSend _ | .awaitSend | .replaceExport .. => true
  | _ => false

/-- The database answers, and nobody cancels the task. -/
def Serves (o : Op) (r : Except Exn o.Res) : Prop :=
  r ≠ .error .cancelled ∧ (o.delivers = false → ∃ a, r = .ok a)

theorem serves_ok {o : Op} (a : o.Res) : Serves o (.ok a) := by
  refine ⟨fun h => ?_, fun _ => ⟨a, rfl⟩⟩
  cases h

theorem serves_error {o : Op} {e : Exn} :
    Serves o (.error e) ↔ e ≠ .cancelled ∧ o.delivers = true := by
  constructor
  · rintro ⟨hne, hok⟩
    refine ⟨fun he => hne (congrArg _ he), ?_⟩
    by_contra hd
    obtain ⟨a, ha⟩ := hok (Bool.eq_false_iff.mpr hd)
    cases ha
  · rintro ⟨hne, hd⟩
    refine ⟨fun he => hne (Except.error.inj he), fun hd' => ?_⟩
    rw [hd] at hd'
    cases hd'

instance instDecidableServes (o : Op) : (r : Except Exn o.Res) → Decidable (Serves o r)
  | .ok a => isTrue (serves_ok a)
  | .error _ => decidable_of_iff' _ serves_error

namespace Progress

/-- What an execution of job `J` may commit. -/
inductive Entitled (J : UUID) : List Write → Prop
  | deliveries {ws : List Write} (h : ∀ w ∈ ws, w.table = .notificationDeliveries) : Entitled J ws
  | job {l c : BackgroundJob} {ws : List Write} (hid : l.id = J) (hl : l.status.terminal = false)
      (h : ∀ w ∈ ws, w.table = .notificationDeliveries) :
      Entitled J (.update .backgroundJobs l c :: ws)

/-- What an execution may come to do. -/
def Allowed (J : UUID) (s : Progress) : Op → Prop
  | .commit => s.inCharge = true ∧ Entitled J s.pending
  | .selectForUpdate .backgroundJobs q => (q = fun db => db.get .backgroundJobs J) ∧ s.pending = []
  | .publish _ | .selectSkipLocked .. => False
  | _ => True

/-- What an operation of an execution answers. -/
def Answered (o : Op) (r : Except Exn o.Res) : Prop := Serves o r ∧ Traced.Answers o r

/-- What `p` does in an execution of job `J` that is where `A` says. -/
def Walks (J : UUID) {α : Type} (A : Progress → Prop) (p : Service α) (B : α → Progress → Prop)
    (E : Exn → Progress → Prop) : Prop :=
  ∀ s, A s → p.Watched (next J) Answered (Allowed J) B E s

/-- Nothing is pending but writes `ws`, and what a flush takes with them. -/
def Sent (ws : List Write) (s : Progress) : Prop :=
  s.inCharge = true ∧ ∃ vs, s.pending = ws ++ vs ∧ ∀ w ∈ vs, w.table = .notificationDeliveries

theorem sent_idle : Sent [] idle := ⟨rfl, [], rfl, List.forall_mem_nil _⟩

section Rules

variable {J : UUID} {α β : Type} {A : Progress → Prop} {p : Service α}
variable {B : α → Progress → Prop} {E : Exn → Progress → Prop}

theorem Walks.bind {C : β → Progress → Prop} {f : α → Service β} (hp : Walks J A p B E)
    (hf : ∀ a, Walks J (B a) (f a) C E) : Walks J A (p.bind f) C E := fun s hs =>
  .bind ((hp s hs).mono (fun a s' h => hf a s' h) fun _ _ h => h)

theorem Walks.handle {F : Exn → Progress → Prop} {f : Exn → Service α} (hp : Walks J A p B F)
    (hf : ∀ e, Walks J (F e) (f e) B E) : Walks J A (p.handle f) B E := fun s hs =>
  .handle ((hp s hs).mono (fun _ _ h => h) fun e s' h => hf e s' h)

theorem Walks.ret {a : α} (h : ∀ s, A s → B a s) : Walks J A (pure a) B E := h

theorem Walks.raise {e : Exn} (h : ∀ s, A s → E e s) : Walks J A (throw e) B E := h

theorem Walks.pre {A' : Progress → Prop} (hp : Walks J A p B E) (h : ∀ s, A' s → A s) :
    Walks J A' p B E := fun s hs => hp s (h s hs)

/-- An operation the monitor takes no notice of. -/
theorem Walks.aside {o : Op} (hallowed : ∀ s, Allowed J s o)
    (hnext : ∀ s r, next J s ⟨o, r⟩ = s)
    (hE : ∀ e s, A s → o.delivers = true → e ≠ .cancelled → E e s) :
    Walks J A (perform o) (fun a s => A s ∧ Traced.Answers o (.ok a)) E := fun s hs =>
  .perform (hallowed s) (fun a ha => ⟨(hnext s _).symm ▸ hs, ha.2⟩) fun e he => by
    rw [hnext]
    refine hE e s hs ?_ fun hc => he.1.1 (congrArg _ hc)
    cases ho : o.delivers with
    | true => rfl
    | false =>
      obtain ⟨a, ha⟩ := he.1.2 ho
      cases ha

/-- An operation that does not fail. -/
theorem Walks.statement {o : Op} {B : o.Res → Progress → Prop} (ho : o.delivers = false)
    (hallowed : ∀ s, A s → Allowed J s o)
    (hB : ∀ a s, A s → Traced.Answers o (.ok a) → B a (next J s ⟨o, .ok a⟩)) :
    Walks J A (perform o) B E := fun s hs =>
  .perform (hallowed s hs) (fun a ha => hB a s hs ha.2) fun e he => by
    obtain ⟨a, ha⟩ := he.1.2 ho
    cases ha

theorem Walks.mono {B' : α → Progress → Prop} {F : Exn → Progress → Prop} (hp : Walks J A p B E)
    (hB : ∀ a s, B a s → B' a s) (hE : ∀ e s, E e s → F e s) : Walks J A p B' F := fun s hs =>
  (hp s hs).mono hB hE

theorem Walks.assume {a : Prop} (hp : a → Walks J A p B E) :
    Walks J (fun s => A s ∧ a) p B E := fun s hs => hp hs.2 s hs.1

/-- An operation that does not fail and that the monitor takes no notice of. -/
theorem Walks.reads {o : Op} (ho : o.delivers = false) (hallowed : ∀ s, Allowed J s o)
    (hnext : ∀ s r, next J s ⟨o, r⟩ = s) : Walks J A (perform o) (fun _ => A) E := fun s hs =>
  (Walks.aside hallowed hnext (fun _ _ _ hd => absurd hd (by rw [ho]; exact Bool.false_ne_true))
    s hs).mono (fun _ _ h => h.1) fun _ _ h => h

theorem Walks.now : Walks J A Service.now (fun _ => A) E :=
  .reads rfl (fun _ => trivial) fun _ _ => rfl

theorem Walks.uuid4 : Walks J A Service.uuid4 (fun _ => A) E :=
  .reads rfl (fun _ => trivial) fun _ _ => rfl

/-- The query for the delivery. -/
theorem Walks.findDelivery (q : Db → Option NotificationDelivery) :
    Walks J A (Service.selectForUpdate .notificationDeliveries q) (fun _ => A) E :=
  .reads rfl (fun _ => trivial) fun _ r => by cases r <;> rfl

/-- The job object changed. -/
theorem Walks.updateJob {l c : BackgroundJob} (h : l.status ≠ c.status ∨
      l.attemptCount ≠ c.attemptCount) :
    Walks J (· = idle) (Service.update .backgroundJobs l c)
      (fun _ => Sent [.update .backgroundJobs l c]) E := by
  have hne : l ≠ c := by
    rintro rfl
    rcases h with h | h <;> exact h rfl
  unfold Service.update
  rw [if_neg hne]
  refine .statement rfl (fun _ _ => trivial) fun _ s hs _ => ?_
  subst hs
  exact ⟨rfl, [], rfl, List.forall_mem_nil _⟩

theorem Walks.writeDelivery {ws : List Write} {w : Write}
    (hw : w.table = .notificationDeliveries) :
    Walks J (Sent ws) (perform (Op.write w)) (fun _ => Sent ws) E := by
  refine .statement rfl (fun _ _ => trivial) fun _ s hs _ => ?_
  obtain ⟨hcharge, vs, hpending, hvs⟩ := hs
  refine ⟨hcharge, vs ++ [w], ?_, fun v hv => ?_⟩
  · show s.pending ++ [w] = _
    rw [hpending, List.append_assoc]
  · rcases List.mem_append.mp hv with hv | hv
    · exact hvs v hv
    · rw [List.mem_singleton.mp hv]
      exact hw

theorem Walks.updateDelivery {ws : List Write} (l c : NotificationDelivery) :
    Walks J (Sent ws) (Service.update .notificationDeliveries l c) (fun _ => Sent ws) E := by
  unfold Service.update
  split
  · exact .ret fun _ hs => hs
  · exact .writeDelivery rfl

theorem ends_delivery {w : Write} (hw : w.table = .notificationDeliveries) : ends J w = false := by
  rcases w with ⟨t, row⟩ | ⟨t, l, c⟩ | _ | _
  · rfl
  · obtain rfl : t = .notificationDeliveries := hw
    rfl
  · rfl
  · rfl

theorem any_ends_deliveries {ws : List Write} (h : ∀ w ∈ ws, w.table = .notificationDeliveries) :
    ws.any (ends J) = false :=
  List.any_eq_false.mpr fun w hw => by rw [ends_delivery (h w hw)]; exact Bool.false_ne_true

/-- A commit of deliveries alone. -/
theorem Walks.commitDeliveries :
    Walks J (Sent []) Service.commit (fun _ s => s = idle) E := by
  refine .statement rfl (fun s hs => ?_) fun _ s hs _ => ?_
  · obtain ⟨hcharge, vs, hpending, hvs⟩ := hs
    refine ⟨hcharge, ?_⟩
    rw [hpending]
    exact .deliveries hvs
  · obtain ⟨hcharge, vs, hpending, hvs⟩ := hs
    simp only [next, hcharge, hpending, List.nil_append, any_ends_deliveries hvs]
    rfl

/-- A commit of the job; one that ends it ends the charge. -/
theorem Walks.commitJob {l c : BackgroundJob} (hid : l.id = J) (hl : l.status.terminal = false) :
    Walks J (Sent [.update .backgroundJobs l c]) Service.commit
      (fun _ s => s = ⟨[], !c.status.terminal⟩) E := by
  refine .statement rfl (fun s hs => ?_) fun _ s hs _ => ?_
  · obtain ⟨hcharge, vs, hpending, hvs⟩ := hs
    refine ⟨hcharge, ?_⟩
    rw [hpending]
    exact .job hid hl hvs
  · obtain ⟨hcharge, vs, hpending, hvs⟩ := hs
    simp only [next, hcharge, hpending, List.cons_append, List.nil_append, List.any_cons,
      any_ends_deliveries hvs, ends, hid, hl, decide_true, Bool.not_false, Bool.true_and,
      Bool.or_false]

end Rules

section Execution

open BackgroundJobExecutor

variable {P : Platform} {C : Settings} {J : UUID} {job : BackgroundJob}

theorem live_ne {job c : BackgroundJob} (hl : job.status.terminal = false)
    (hc : c.status.terminal = true) : job.status ≠ c.status := fun he => by
  rw [he, hc] at hl
  cases hl

/-- What a claim of job `J` comes back with. -/
def Claimed (J : UUID) : Option BackgroundJob → Progress → Prop
  | none, s => s.inCharge = false
  | some job, s => s = idle ∧ job.id = J ∧ job.status = .running

theorem walks_claim : Walks J (· = idle) (claim C J) (Claimed J) fun e _ => e.defers = true := by
  refine .bind .now fun now => .bind (B := fun found s => s = ⟨[], found.any fun
    job : BackgroundJob => !job.status.terminal⟩ ∧ ∀ job ∈ found, job.id = J) ?_ fun found => ?_
  · refine .statement rfl (fun s hs => ?_) fun found s hs ha => ⟨?_, fun job hjob => ?_⟩
    · subst hs
      exact ⟨rfl, rfl⟩
    · subst hs
      rfl
    · obtain ⟨db, hdb⟩ := ha _ rfl
      rw [hdb] at hjob
      have hfound := List.find?_some (Option.mem_def.mp hjob)
      exact of_decide_eq_true hfound
  refine .assume fun hids => ?_
  have finished (hf : (found.any fun job : BackgroundJob => !job.status.terminal) = false) :
      Walks J (· = ⟨[], found.any fun job : BackgroundJob => !job.status.terminal⟩)
        (Service.rollback.bind fun _ => pure (none : Option BackgroundJob)) (Claimed J)
        fun e _ => e.defers = true := by
    refine .bind (B := fun _ s => s.inCharge = false) (.statement rfl (fun _ _ => trivial)
      fun _ s hs _ => ?_) fun _ => .ret fun _ hs => hs
    rw [hs, hf]
    rfl
  rcases found with _ | job
  · exact finished rfl
  dsimp only
  split
  · rename_i hterm
    exact finished (by simp [hterm])
  · rename_i hterm
    have hl : job.status.terminal = false := by simpa using hterm
    have hid : job.id = J := hids job rfl
    refine Walks.pre (A := (· = idle)) ?_ fun s hs => by rw [hs]; simp [hl, idle]
    split
    · exact .bind (B := fun _ _ => True) (.statement rfl (fun _ _ => trivial)
        fun _ _ _ _ => trivial) fun _ => .raise fun _ _ => rfl
    · split
      · exact .bind (.updateJob (.inl (live_ne hl rfl))) fun _ =>
          .bind (.commitJob hid hl) fun _ => .ret fun s hs => by rw [hs]; rfl
      · refine .bind (.updateJob (.inr (Nat.ne_of_lt (Nat.lt_succ_self _)))) fun _ =>
          .bind (.commitJob hid hl) fun _ => .ret fun s hs => ⟨hs, hid, rfl⟩

section Marks

variable (hid : job.id = J) (hrun : job.status = .running)

include hrun

theorem live_of_running : job.status.terminal = false := by rw [hrun]; rfl

include hid

/-- An update that ends the job, and its commit. -/
theorem walks_end {c : BackgroundJob} {E : Exn → Progress → Prop}
    (hc : c.status.terminal = true) :
    Walks J (Sent [.update .backgroundJobs job c]) Service.commit
      (fun _ s => s.inCharge = false) E :=
  (Walks.commitJob hid (live_of_running hrun)).mono (fun _ s hs => by rw [hs, hc]; rfl)
    fun _ _ h => h

theorem walks_markSucceeded {E : Exn → Progress → Prop} (result : JsonObject)
    (delivery : Option (NotificationDelivery × NotificationDelivery)) :
    Walks J (· = idle) (markSucceeded job result delivery) (fun _ s => s.inCharge = false) E := by
  refine .bind .now fun now =>
    .bind (.updateJob (.inl (live_ne (live_of_running hrun) rfl))) fun _ => ?_
  rcases delivery with _ | ⟨loaded, current⟩
  · exact walks_end hid hrun rfl
  · exact .bind (.updateDelivery loaded current) fun _ => walks_end hid hrun rfl

theorem walks_markFailed {E : Exn → Progress → Prop} (code message : String) :
    Walks J (· = idle) (markFailed job code message) (fun _ s => s.inCharge = false) E :=
  .bind .now fun _ => .bind (.updateJob (.inl (live_ne (live_of_running hrun) rfl))) fun _ =>
    walks_end hid hrun rfl

theorem walks_markRetryableFailure {E : Exn → Progress → Prop} (code message : String) :
    Walks J (· = idle) (markRetryableFailure job code message)
      (fun retry s => if retry then s = idle else s.inCharge = false) E := by
  unfold markRetryableFailure
  split
  · exact .bind .now fun _ => .bind (.updateJob (.inl (live_ne (live_of_running hrun) rfl)))
      fun _ => .bind (walks_end hid hrun rfl) fun _ => .ret fun _ hs => hs
  · exact .bind (.updateJob (.inl (by rw [hrun]; exact BackgroundJobStatus.noConfusion))) fun _ =>
      .bind (.commitJob hid (live_of_running hrun)) fun _ => .ret fun _ hs => hs

end Marks

/-- A failure of the body: nothing is pending, and a handler catches it. -/
def Fails (e : Exn) (s : Progress) : Prop := s = idle ∧ e.isException = true

theorem isException_of_ne {e : Exn} (h : e ≠ .cancelled) : e.isException = true := by
  cases e <;> first | rfl | exact absurd rfl h

theorem walks_payloadString (key : String) :
    Walks J (· = idle) (payloadString job key) (fun _ s => s = idle) Fails := by
  unfold payloadString
  split
  · split
    · exact .raise fun _ hs => ⟨hs, rfl⟩
    · exact .ret fun _ hs => hs
  · exact .raise fun _ hs => ⟨hs, rfl⟩

/-- An operation that may fail. -/
theorem walks_perform {o : Op} (hallowed : ∀ s, Allowed J s o)
    (hnext : ∀ s r, next J s ⟨o, r⟩ = s) :
    Walks J (· = idle) (perform o) (fun _ s => s = idle) Fails :=
  (Walks.aside hallowed hnext fun _ _ hs _ he => ⟨hs, isException_of_ne he⟩).mono
    (fun _ _ h => h.1) fun _ _ h => h

theorem walks_send (message : EmailMessage) :
    Walks J (· = idle) (send message) (fun _ s => s = idle) Fails :=
  .bind (walks_perform (o := .startSend message) (fun _ => trivial) fun _ _ => rfl) fun _ =>
    walks_perform (o := .awaitSend) (fun _ => trivial) fun _ _ => rfl

theorem walks_deliver (hid : job.id = J) (hrun : job.status = .running) (added : Bool)
    (delivery : NotificationDelivery) (message : EmailMessage) :
    Walks J (· = idle) (deliver P C job added delivery message) (fun _ s => s.inCharge = false)
      Fails := by
  refine .bind (B := fun _ s => s = idle) (.handle (walks_send message) fun e => ?_) fun _ => ?_
  · refine .assume fun he => ?_
    rw [if_pos he]
    have reraise : Walks J (Sent []) (Service.commit.bind fun _ => (throw e : Service Unit))
        (fun _ s => s = idle) Fails :=
      .bind .commitDeliveries fun _ => .raise fun s hs => ⟨hs, he⟩
    refine .bind (.findDelivery _) fun found => Walks.pre (A := Sent []) ?_ fun s hs => ?_
    · rcases found with _ | row
      · exact reraise
      · exact .bind (.updateDelivery _ _) fun _ => reraise
    · rw [hs]
      exact sent_idle
  · refine .bind (.findDelivery _) fun found => ?_
    rcases found with _ | row
    · exact .raise fun _ hs => ⟨hs, rfl⟩
    · exact .bind .now fun now => walks_markSucceeded hid hrun _ _

theorem walks_executeEmail (hid : job.id = J) (hrun : job.status = .running) :
    Walks J (· = idle) (executeEmail P C job) (fun _ s => s.inCharge = false) Fails := by
  have sent : ∀ s, s = idle → Sent [] s := fun s hs => hs ▸ sent_idle
  refine .bind (walks_payloadString _) fun recipient => .bind (walks_payloadString _) fun subject =>
    .bind (walks_payloadString _) fun body => .bind (.findDelivery _) fun found => ?_
  rcases found with _ | delivery
  · exact .bind .uuid4 fun id => .bind ((Walks.writeDelivery rfl).pre sent) fun _ =>
      .bind .commitDeliveries fun _ => walks_deliver hid hrun _ _ _
  · dsimp only
    split
    · exact walks_markSucceeded hid hrun _ _
    · exact .bind ((Walks.updateDelivery _ _).pre sent) fun _ => .bind .commitDeliveries fun _ =>
        .raise fun _ hs => ⟨hs, rfl⟩
    · exact .bind ((Walks.updateDelivery _ _).pre sent) fun _ => .bind .commitDeliveries fun _ =>
        .raise fun _ hs => ⟨hs, rfl⟩
    · exact .bind ((Walks.updateDelivery _ _).pre sent) fun _ => .bind .commitDeliveries fun _ =>
        walks_deliver hid hrun _ _ _

theorem walks_exportFilter {α : Type} (value : Scalar) (message : String)
    (parse : String → Option α) :
    Walks J (· = idle) (exportFilter value message parse) (fun _ s => s = idle) Fails := by
  unfold exportFilter
  split
  · exact .ret fun _ hs => hs
  · split
    · exact .ret fun _ hs => hs
    · exact .raise fun _ hs => ⟨hs, rfl⟩
  · exact .raise fun _ hs => ⟨hs, rfl⟩

theorem walks_executeExport (hid : job.id = J) (hrun : job.status = .running) :
    Walks J (· = idle) (executeExport C job) (fun _ s => s.inCharge = false) Fails := by
  refine .bind (walks_exportFilter _ _ _) fun status => .bind (walks_exportFilter _ _ _)
    fun priority => .bind (walks_exportFilter _ _ _) fun creator =>
      .bind (.reads rfl (fun _ => trivial) fun _ _ => rfl) fun tickets => ?_
  split
  · exact .raise fun _ hs => ⟨hs, rfl⟩
  · refine .bind (.bind .uuid4 fun _ => ?_) fun _ => walks_markSucceeded hid hrun _ _
    exact walks_perform (o := .replaceExport _ _) (fun _ => trivial) fun _ _ => rfl

theorem walks_handleFailure (hid : job.id = J) (hrun : job.status = .running) (e : Exn) :
    Walks J (Fails e) (handleFailure P C job e) (fun _ s => s.inCharge = false)
      fun e _ => e.defers = true := by
  refine .assume fun he => ?_
  unfold handleFailure
  split
  · exact walks_markFailed hid hrun _ _
  · rw [if_pos he]
    refine .bind (walks_markRetryableFailure hid hrun _ _) fun retry => ?_
    cases retry with
    | true => exact .raise fun _ _ => rfl
    | false => exact .ret fun _ hs => hs

/-- **What an execution does while it is served** (module doc). -/
theorem walks_execute : Walks J (· = idle) (execute P C J) (fun _ s => s.inCharge = false)
    fun e _ => e.defers = true := by
  refine .bind walks_claim fun found => ?_
  rcases found with _ | job
  · exact .ret fun _ hs => hs
  · refine fun s hs => ?_
    obtain ⟨rfl, hid, hrun⟩ := hs
    refine Walks.handle (A := (· = idle)) (F := Fails) ?_ (walks_handleFailure hid hrun) idle rfl
    unfold executeKind
    split
    · exact walks_executeEmail hid hrun
    · exact walks_executeExport hid hrun

end Execution

/-! ## In a pool -/

section Pool

variable {K : Calls} {may : Nat → K.Call → Prop} {admits : Admission}
variable {env : World → World → Prop} {P : (K.system may admits env).Pool}
variable {T : Nat → Trace} {W₀ : World}

theorem delivers_store {i : Nat} {ch : Choice} {o : Op} {W W' : World} {r : Except Exn o.Res}
    (h : opStep i ch o W = some (r, W')) (ho : o.delivers = true) : W'.store = W.store := by
  cases o with
  | startSend message => cases h; rfl
  | awaitSend =>
    simp only [opStep] at h
    split at h
    · cases h; rfl
    · split at h
      · cases h
      · split at h <;> cases h <;> rfl
  | replaceExport key content =>
    rcases file_or h with rfl | rfl <;> rfl
  | _ => cases ho

/-- What an operation that is served makes of what a session is going to commit. -/
theorem stamped_next {J : UUID} {s : Progress} {i : Nat} {ch : Choice} {o : Op} {W W' : World}
    {r : Except Exn o.Res} (h : opStep i ch o W = some (r, W')) (hserves : Serves o r)
    (hs : Stamped s.pending (W.store.sessions i).writes) :
    Stamped (next J s ⟨o, r⟩).pending (W'.store.sessions i).writes := by
  have quiet (ho : o.Quiet) (hnext : (next J s ⟨o, r⟩).pending = s.pending) :
      Stamped (next J s ⟨o, r⟩).pending (W'.store.sessions i).writes := by
    rw [hnext]
    cases hd : o.delivers with
    | true =>
      rw [delivers_store h hd]
      exact hs
    | false =>
      obtain ⟨a, ha⟩ := hserves.2 hd
      rcases opStep_store h ho with hk | ⟨-, -, e, he⟩
      · exact hk.writes ▸ hs
      · cases ha.symm.trans he
  cases o with
  | write w =>
    obtain ⟨a, rfl⟩ := hserves.2 rfl
    obtain ⟨τ, hτ⟩ := write_accepted h
    exact hτ ▸ hs.snoc w τ
  | commit =>
    obtain ⟨a, rfl⟩ := hserves.2 rfl
    rcases (commit_step h).1 with ⟨hc, -⟩ | ⟨-, -, e, he⟩
    · exact stamped_nil.mpr hc.writes
    · cases he
  | rollback =>
    obtain ⟨a, rfl⟩ := hserves.2 rfl
    rcases (rollback_step h).1 with rfl | ⟨-, e, he⟩
    · exact stamped_nil.mpr (Store.dropped_rollback W.store i).writes
    · cases he
  | selectForUpdate t q => exact quiet trivial (by cases t <;> cases r <;> rfl)
  | _ => exact quiet trivial (by cases r <;> rfl)

/-- **What a session is going to commit** is what its thread has sent since its last commit. -/
theorem pending_of (henv : ∀ W W', env W W' → W'.store.sessions = W.store.sessions)
    (h : System.Records W₀ P T) {i : Nat} {c : K.Call} {p : Service (K.Ret c)}
    (hi : P.threads i = .running c p) (hs : ∀ x ∈ T i, Serves x.1 x.2) (J : UUID) :
    Stamped (of J (T i)).pending (P.shared.store.sessions i).writes := by
  have closed (W : World) {j : Nat} (hj : i ≠ j) :
      (W.closeSession j).store.sessions i = W.store.sessions i :=
    (Store.dropped_rollback W.store j).session i hj
  induction h generalizing c with
  | init => cases hi
  | @start P T h j d hj hc ih =>
    by_cases he : i = j
    · subst he
      have hf := h.followed i
      rw [hj] at hf
      rw [show T i = [] from hf]
      exact stamped_nil.mpr (Store.dropped_rollback _ i).writes
    · rw [System.Pool.set_other P _ _ he] at hi
      exact (closed P.shared he) ▸ ih hi hs
  | @exec P T h j d o k hj r W hstep ih =>
    obtain ⟨ch, -, hstep⟩ := hstep
    by_cases he : i = j
    · subst he
      rw [Function.update_self] at hs ⊢
      rw [of_snoc]
      exact stamped_next hstep (hs _ (List.mem_append_right _ (List.mem_singleton.mpr rfl)))
        (ih hj fun x hx => hs x (List.mem_append_left _ hx))
    · rw [System.Pool.set_other P _ _ he] at hi
      rw [Function.update_of_ne he] at hs ⊢
      show Stamped _ (W.store.sessions i).writes
      rw [opStep_session hstep he]
      exact ih hi hs
  | @finish P T h j d p hj r hr ih =>
    by_cases he : i = j
    · subst he
      rw [System.Pool.set_self] at hi
      cases hi
    · rw [System.Pool.set_other P _ _ he] at hi
      exact (closed P.shared he) ▸ ih hi hs
  | @crash P T h j d p hj ih =>
    by_cases he : i = j
    · subst he
      rw [System.Pool.set_self] at hi
      cases hi
    · rw [System.Pool.set_other P _ _ he] at hi
      exact (closed P.shared he) ▸ ih hi hs
  | env h W hs' ih =>
    show Stamped _ (W.store.sessions i).writes
    rw [henv _ _ hs']
    exact ih hi hs

end Pool

end Progress

end Ticketing
