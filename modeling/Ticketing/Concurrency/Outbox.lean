import Ticketing.Concurrency.OutboxCalls

/-!
# The outbox

Submissions and dispatchers in the pool of `OutboxCalls.lean`, under any faults and crashes.
Publishing is not undone when a dispatcher fails to commit, so a message may reach the broker more
than once; what is committed about it says what the dispatchers that have committed were answered.

* A `Round` of a task is when its dispatcher began and what the broker answered; `rounds` lists
  those of the dispatchers that have committed, in the order of the commits.
* `Accounts`: the message is as its rounds have made it, in its status, its count, its error and
  the time it rests until.
* `handedOver` are the tasks that a thread has handed to the broker.

Results:
* `accounts_snoc`: what one more round makes of a message.
* `tallied`: by induction on the commits, each message is as its rounds have made it.
* `outbox_is_reliable`: nothing is lost, nothing is published that is not committed, no message is
  taken again once a dispatcher that handed it over has committed, and a dispatcher that has
  returned reports what it handed over (`OutboxReliable`).

Left out: what the broker does with a task, which `Orphans.lean` follows.
-/

namespace Ticketing

open Lib (Prog Store System)

/-! ## What the broker was asked -/

/-- One round of a message: when its dispatcher began, and what the broker answered. -/
structure Round where
  now : Time
  answer : Except Exn Unit

/-- What the broker answered about a task, if the operation was to publish it. -/
def Op.answerTo (task : TaskMessage) : (Σ o : Op, Except Exn o.Res) → Option (Except Exn Unit)
  | ⟨.publish message, r⟩ => if message = task then some r else none
  | _ => none

/-- The round of a task in what a dispatcher has done. -/
def round? (task : TaskMessage) : Trace → Option Round
  | ⟨.now, .ok now⟩ :: t => (t.findSome? (Op.answerTo task)).map fun answer => ⟨now, answer⟩
  | _ => none

/-- The rounds of a task, of the threads that have committed, in the order of the commits. -/
def rounds (T : Nat → Trace) (wal : List (Nat × List Write)) (task : TaskMessage) : List Round :=
  wal.filterMap fun c => round? task (T c.1)

/-- A committed message is as its rounds have made it. -/
structure OutboxMessage.Accounts (P : Platform) (C : Settings) (m : OutboxMessage)
    (rounds : List Round) : Prop where
  attempts : m.publishAttemptCount = rounds.length
  published : m.status = .published ↔ ∃ r, rounds.getLast? = some r ∧ r.answer = .ok ()
  /-- Only the last round may have handed the message over. -/
  earlier : ∀ r ∈ rounds.dropLast, ∃ e, r.answer = .error e
  /-- After a round that failed the message rests. -/
  resting : ∀ r e, rounds.getLast? = some r → r.answer = .error e →
    m.lastError = some (safeError P e) ∧
      m.availableAt = r.now + seconds (retryDelay C rounds.length)
  /-- It was taken again only when its rest was over. -/
  rested : ∀ past r r' rest, rounds = past ++ r :: r' :: rest →
    r.now + seconds (retryDelay C (past.length + 1)) ≤ r'.now

namespace Outbox

variable {P : Platform} {C : Settings} {S : RBACService}

/-! ## Rounds -/

section Rounds

theorem findSome?_attempts (task : TaskMessage) (attempts : List Attempt) :
    (attempts.flatMap Attempt.trace).findSome? (Op.answerTo task) =
      (attempts.find? fun x => x.message.task = task).map Attempt.answer := by
  induction attempts with
  | nil => rfl
  | cons x attempts ih =>
    rw [List.flatMap_cons, List.findSome?_append, ih]
    obtain ⟨m, e | publishedAt⟩ := x
    · by_cases hm : m.task = task
      · simp [Attempt.trace, Op.answerTo, Attempt.answer, hm, Except.map]
      · simp [Attempt.trace, Op.answerTo, hm]
    · by_cases hm : m.task = task
      · simp [Attempt.trace, Op.answerTo, Attempt.answer, hm, Except.map]
      · simp [Attempt.trace, Op.answerTo, hm]

theorem findSome?_silent {task : TaskMessage} {t : Trace} (h : ∀ x ∈ t, Silent x.1) :
    t.findSome? (Op.answerTo task) = none := by
  rw [List.findSome?_eq_none_iff]
  rintro ⟨o, r⟩ hx
  have ho := h _ hx
  cases o <;> first | rfl | exact ho.elim

theorem round?_silent {task : TaskMessage} {t : Trace} (h : ∀ x ∈ t, Silent x.1) :
    round? task t = none := by
  unfold round?
  split
  · rw [findSome?_silent fun x hx => h x (.tail _ hx)]
    rfl
  · rfl

/-- The round of a task in what a dispatcher has done that has committed. -/
theorem round?_dispatched {task : TaskMessage} {now : Time} {attempts : List Attempt} {v : Trace}
    (hv : ∀ x ∈ v, Silent x.1) : round? task (dispatched P C now attempts ++ v) =
      (attempts.find? fun x => x.message.task = task).map fun x => ⟨now, x.answer⟩ := by
  have hrest : ((updatesOf (flushed P C now attempts)).map Write.sent ++ v).findSome?
      (Op.answerTo task) = none := by
    refine findSome?_silent fun x hx => ?_
    rcases List.mem_append.mp hx with hx | hx
    · obtain ⟨w, -, rfl⟩ := List.mem_map.mp hx
      trivial
    · exact hv x hx
  rw [dispatched, attempted, List.cons_append, List.cons_append, List.cons_append,
    List.cons_append, List.append_assoc]
  show ((_ :: _ : Trace).findSome? (Op.answerTo task)).map _ = _
  rw [List.findSome?_cons, show Op.answerTo task ⟨pendingQuery C now, _⟩ = none from rfl]
  show ((_ ++ _ : Trace).findSome? (Op.answerTo task)).map _ = _
  rw [List.findSome?_append, hrest, Option.or_none, findSome?_attempts, Option.map_map]
  rfl

variable {m m' : OutboxMessage} {rs : List Round} {now τ : Time}

/-- Before the next round none has handed the message over. -/
theorem all_failed (h : m.Accounts P C rs) (hp : m.status = .pending) :
    ∀ r ∈ rs, ∃ e, r.answer = .error e := by
  intro r hr
  rcases List.eq_nil_or_concat' rs with rfl | ⟨init, last, rfl⟩
  · cases hr
  rcases List.mem_append.mp hr with hr | hr
  · exact h.earlier r (by rwa [List.dropLast_concat])
  · obtain rfl := List.mem_singleton.mp hr
    rcases ha : r.answer with e | u
    · exact ⟨e, rfl⟩
    · have hpublished := h.published.mpr ⟨r, List.getLast?_concat, ha⟩
      rw [hp] at hpublished
      cases hpublished

/-- A new message has had no rounds. -/
theorem accounts_nil (hp : m.status = .pending) (hc : m.publishAttemptCount = 0) :
    m.Accounts P C [] where
  attempts := hc
  published := by simp [hp]
  earlier := by simp
  resting := by simp
  rested := by simp

/-- What an update of an attempt leaves. -/
theorem patch_current (x : Attempt) : Table.patch .outboxMessages x.message
    (Table.stampUpdate τ .outboxMessages (x.current P C now)) x.message =
      { x.current P C now with updatedAt := τ } := by
  obtain ⟨m, e | publishedAt⟩ := x
  · simp [Table.patch, Table.changed_self, Table.stampUpdate, Attempt.current,
      OutboxDispatcher.postponed]
  · simp [Table.patch, Table.changed_self, Table.stampUpdate, Attempt.current,
      OutboxDispatcher.published]

theorem task_current (x : Attempt) :
    OutboxMessage.task { x.current P C now with updatedAt := τ } = x.message.task := by
  obtain ⟨m, e | publishedAt⟩ := x <;> rfl

/-- A message is taken again only when its rest is over. -/
theorem rested_snoc (h : m.Accounts P C rs) (hp : m.status = .pending) {last : Round}
    (hdue : m.availableAt ≤ last.now) : ∀ past r r' rest, rs ++ [last] = past ++ r :: r' :: rest →
      r.now + seconds (retryDelay C (past.length + 1)) ≤ r'.now := by
  intro past r r' rest he
  rcases List.eq_nil_or_concat' rest with rfl | ⟨rest, x, rfl⟩
  · rw [show past ++ [r, r'] = (past ++ [r]) ++ [r'] by simp] at he
    obtain ⟨rfl, hlast⟩ := List.append_inj' he rfl
    obtain rfl := List.singleton_inj.mp hlast
    obtain ⟨e, hr⟩ := all_failed h hp r (by simp)
    have hrest := (h.resting r e List.getLast?_concat hr).2
    rw [List.length_append, List.length_singleton] at hrest
    rw [← hrest]
    exact hdue
  · rw [← List.cons_append, ← List.cons_append, ← List.append_assoc] at he
    obtain ⟨rfl, -⟩ := List.append_inj' he rfl
    exact h.rested past r r' rest rfl

/-- **One more round.** -/
theorem accounts_snoc (x : Attempt) (h : x.message.Accounts P C rs)
    (hp : x.message.status = .pending) (hdue : x.message.availableAt ≤ now) :
    OutboxMessage.Accounts P C { x.current P C now with updatedAt := τ }
      (rs ++ [⟨now, x.answer⟩]) := by
  have hlast {r r' : Round} (hr : (rs ++ [r']).getLast? = some r) : r = r' := by
    rw [List.getLast?_concat] at hr
    exact (Option.some.inj hr).symm
  obtain ⟨m, e | publishedAt⟩ := x
  · refine ⟨?_, ?_, ?_, ?_, rested_snoc h hp hdue⟩
    · rw [List.length_append, ← h.attempts]
      rfl
    · constructor
      · intro hs
        exact absurd (hp.symm.trans hs) (by decide)
      · rintro ⟨r, hr, ha⟩
        rw [hlast hr] at ha
        cases ha
    · rw [List.dropLast_concat]
      exact all_failed h hp
    · intro r e' hr ha
      obtain rfl := hlast hr
      cases ha
      rw [List.length_append, ← h.attempts]
      exact ⟨rfl, rfl⟩
  · refine ⟨?_, ?_, ?_, ?_, rested_snoc h hp hdue⟩
    · rw [List.length_append, ← h.attempts]
      rfl
    · exact ⟨fun _ => ⟨_, List.getLast?_concat, rfl⟩, fun _ => rfl⟩
    · rw [List.dropLast_concat]
      exact all_failed h hp
    · intro r e' hr ha
      obtain rfl := hlast hr
      cases ha

end Rounds

/-! ## The history -/

section History

variable {may : Nat → OutboxCall → Prop} {admits : Admission} {W₀ : World} {T : Nat → Trace}
variable {pool : ((outboxCalls P C S).system may admits BesideOutbox).Pool}

/-- A commit in its place in the history. -/
theorem entry (hq : W₀.Quiet) (h : System.Records W₀ pool T) {past : List (Nat × List Write)}
    {i : Nat} {ws : List Write} (hw : past ++ [(i, ws)] <+: pool.shared.store.wal) :
    ∃ (Q : ((outboxCalls P C S).system may admits BesideOutbox).Pool) (U : Nat → Trace)
      (c : OutboxCall) (k : Except Exn Unit → Service c.Ret) (r : Except Exn Unit) (v : Trace),
      System.Records W₀ Q U ∧ Q.threads i = .running c (.op .commit k) ∧
      (pool.threads i).call? = some c ∧
      Q.shared.store.db .outboxMessages = W₀.store.db.after past .outboxMessages ∧
      (Q.shared.store.sessions i).writes = ws ∧ T i = U i ++ ⟨.commit, r⟩ :: v := by
  obtain ⟨Q, U, c, k, r, v, hQ, hsteps, hwal, hi, hws, ht⟩ :=
    Calls.exists_committing hq (fun _ _ hW => hW.wal) h hw
  refine ⟨Q, U, c, k, r, v, hQ, hi, hsteps.call? (by rw [hi]; rfl), ?_, hws, ht⟩
  rw [← hwal]
  exact Calls.committed hq (fun _ _ hW => ⟨hW.wal, hW.rows⟩) hQ.reachable

/-- The messages are as their rounds have made them, and no other task has had a round. -/
def Tallied (P : Platform) (C : Settings) (T : Nat → Trace) (past : List (Nat × List Write))
    (messages : List OutboxMessage) : Prop :=
  (∀ m ∈ messages, m.Accounts P C (rounds T past m.task)) ∧
    ∀ task, (∀ m ∈ messages, m.task ≠ task) → rounds T past task = []

theorem rounds_concat (past : List (Nat × List Write)) (i : Nat) (ws : List Write)
    (task : TaskMessage) : rounds T (past ++ [(i, ws)]) task =
      rounds T past task ++ (round? task (T i)).toList := by
  rw [rounds, List.filterMap_append, rounds]
  rcases hr : round? task (T i) with _ | r <;> simp [hr]

/-- A thread that has committed publishes nothing more. -/
theorem silent_after (h : System.Records W₀ pool T) {i : Nat} {u v : Trace} {r : Except Exn Unit}
    (ht : T i = u ++ ⟨.commit, r⟩ :: v) : ∀ x ∈ v, Silent x.1 := by
  rintro ⟨o, r'⟩ hx
  cases o with
  | publish task =>
    obtain ⟨v₁, v₂, rfl⟩ := List.append_of_mem hx
    rw [← List.cons_append, ← List.append_assoc] at ht
    obtain ⟨-, hcommit, -⟩ := publishing h ht
    exact (hcommit _ (List.mem_append_right u (.head _)) rfl).elim
  | _ => trivial

/-- A submission adds a message nobody has taken. -/
theorem tallied_submission {past : List (Nat × List Write)} {i : Nat} {ws : List Write}
    {messages : List OutboxMessage} {m : OutboxMessage} (h : Tallied P C T past messages)
    (hround : ∀ task, round? task (T i) = none) (hnew : ∀ m' ∈ messages, m'.task ≠ m.task)
    (hstatus : m.status = .pending) (hcount : m.publishAttemptCount = 0) :
    Tallied P C T (past ++ [(i, ws)]) (messages ++ [m]) := by
  have hsame (task : TaskMessage) : rounds T (past ++ [(i, ws)]) task = rounds T past task := by
    rw [rounds_concat, hround]
    exact List.append_nil _
  refine ⟨fun m' hm' => ?_, fun task htask => ?_⟩
  · rw [hsame]
    rcases List.mem_append.mp hm' with hm' | hm'
    · exact h.1 m' hm'
    · obtain rfl := List.mem_singleton.mp hm'
      rw [h.2 _ hnew]
      exact accounts_nil hstatus hcount
  · rw [hsame]
    exact h.2 task fun m' hm' => htask m' (List.mem_append_left _ hm')

/-- A task tells messages apart, and a dispatcher takes each once. -/
theorem find_attempt {db : Db} (hopen : Opened db) {attempts : List Attempt}
    (hmem : ∀ x ∈ attempts, ∃ m ∈ db .outboxMessages, fixed m = fixed x.message)
    (hnodup : (attempts.map fun x => x.message.id).Nodup) {x : Attempt} (hx : x ∈ attempts) :
    attempts.find? (fun y => y.message.task = x.message.task) = some x := by
  rcases hfind : attempts.find? (fun y => y.message.task = x.message.task) with _ | y
  · exact absurd (List.find?_eq_none.mp hfind x hx) (by simp)
  have hy := List.mem_of_find?_eq_some hfind
  have htask : y.message.task = x.message.task := by simpa using List.find?_some hfind
  obtain ⟨m, hm, hmx⟩ := hmem x hx
  obtain ⟨m', hm', hmy⟩ := hmem y hy
  have htasks : m'.task = m.task := (congrArg (fun z => z.2.2.2) hmy).trans
    (htask.trans (congrArg (fun z => z.2.2.2) hmx).symm)
  have hjob := jobId_of_task (hopen.addressed m' hm') (hopen.addressed m hm) htasks
  obtain rfl := List.inj_on_of_nodup_map hopen.jobIds hm' hm hjob
  have hid : y.message.id = x.message.id := congrArg Prod.fst (hmy.symm.trans hmx)
  rw [hfind, List.inj_on_of_nodup_map hnodup hy hx hid]

/-- A dispatcher adds a round to each message it has taken. -/
theorem tallied_dispatch {past : List (Nat × List Write)} {i : Nat} {ws : List Write} {db : Db}
    {now : Time} {attempts : List Attempt} {rows : List (OutboxMessage × OutboxMessage)} {v : Trace}
    (h : Tallied P C T past (db .outboxMessages)) (hopen : Opened db)
    (ht : T i = dispatched P C now attempts ++ v) (hv : ∀ x ∈ v, Silent x.1)
    (htaken : ∀ x ∈ attempts, x.message ∈ db .outboxMessages ∧ x.message.status = .pending ∧
      x.message.availableAt ≤ now)
    (hnodup : (attempts.map fun x => x.message.id).Nodup)
    (hsettles : Settles P C now attempts rows) :
    Tallied P C T (past ++ [(i, ws)])
      ((rows.map fun x => .update .outboxMessages x.1 x.2).foldl (fun db w => Write.apply w db) db
        .outboxMessages) := by
  have hround (task : TaskMessage) : round? task (T i) =
      (attempts.find? fun x => x.message.task = task).map fun x => ⟨now, x.answer⟩ := by
    rw [ht, round?_dispatched hv]
  have hsame {m m' : OutboxMessage} (hm : m ∈ db .outboxMessages) (hm' : m' ∈ db .outboxMessages)
      (htask : m.task = m'.task) : m = m' :=
    List.inj_on_of_nodup_map hopen.jobIds hm hm'
      (jobId_of_task (hopen.addressed m hm) (hopen.addressed m' hm') htask)
  have hfind {x : Attempt} (hx : x ∈ attempts) :=
    find_attempt hopen (fun y hy => ⟨y.message, (htaken y hy).1, rfl⟩) hnodup hx
  have hmem {m : OutboxMessage} := mem_foldl_updates (t := .outboxMessages) (r := m)
    hopen.ids (hsettles.mem fun x hx => (htaken x hx).1) (hsettles.nodup hnodup)
  refine ⟨fun m hm => ?_, fun task htask => ?_⟩
  · rw [rounds_concat, hround]
    rcases hmem.mp hm with ⟨x, hx, rfl⟩ | ⟨hm, hother⟩
    · obtain ⟨y, hy, τ, rfl⟩ := hsettles.attempted x hx
      obtain ⟨hold, hpending, hdue⟩ := htaken y hy
      rw [patch_current]
      rw [show OutboxMessage.task { y.current P C now with updatedAt := τ } = y.message.task from
        task_current y, hfind hy]
      exact accounts_snoc y (h.1 _ hold) hpending hdue
    · rw [List.find?_eq_none.mpr fun x hx hxm => ?_]
      · exact (List.append_nil (rounds T past m.task)).symm ▸ h.1 m hm
      · obtain ⟨y, hy, he⟩ := hsettles.settled x hx
        exact hother y hy (by rw [he, hsame (htaken x hx).1 hm (of_decide_eq_true hxm)])
  · have hold : ∀ m ∈ db .outboxMessages, m.task ≠ task := fun m hm he => by
      have hfixed := map_foldl_updates (t := .outboxMessages) rows db fixed fun _ _ _ => rfl
      obtain ⟨m', hm', hm''⟩ := List.mem_map.mp (hfixed ▸ List.mem_map_of_mem hm)
      exact htask m' hm' ((congrArg (fun x => x.2.2.2) hm'').trans he)
    rw [rounds_concat, hround, h.2 task hold, List.find?_eq_none.mpr fun x hx hxm =>
      hold _ (htaken x hx).1 (of_decide_eq_true hxm)]
    rfl

/-- **The messages are as their rounds have made them.** -/
theorem tallied (hq : W₀.Quiet) (h₀ : Opened W₀.store.db) (hnone : W₀.store.db .outboxMessages = [])
    (h : System.Records W₀ pool T) (past : List (Nat × List Write))
    (hp : past <+: pool.shared.store.wal) :
    Tallied P C T past (W₀.store.db.after past .outboxMessages) := by
  induction past using List.reverseRecOn with
  | nil =>
    rw [show W₀.store.db.after [] .outboxMessages = [] from hnone]
    exact ⟨List.forall_mem_nil _, fun _ _ => rfl⟩
  | append_singleton past c ih =>
    obtain ⟨i, ws⟩ := c
    have hold := ih ((List.prefix_append _ _).trans hp)
    obtain ⟨Q, U, c, k, r, v, hQ, hi, hc, hmessages, hws, ht⟩ := entry hq h hp
    have hopen := serving.opened hq h₀ hQ.reachable
    have hcommits := committing hQ hi
    rw [hws] at hcommits
    rw [← hmessages] at hold
    have hafter : W₀.store.db.after (past ++ [(i, ws)]) .outboxMessages =
        ws.foldl (fun db w => w.apply db) Q.shared.store.db .outboxMessages := by
      rw [Db.after_append]
      exact Write.foldl_congr ws hmessages.symm
    rw [hafter]
    have submitted (hother : c ≠ .dispatchOnce) (hs : Submission ws) :
        Tallied P C T (past ++ [(i, ws)])
          (ws.foldl (fun db w => w.apply db) Q.shared.store.db .outboxMessages) := by
      obtain ⟨job, m, rfl, -, haddressed, hstatus, hcount⟩ := hs
      rw [inserted_messages]
      refine tallied_submission hold (fun task => round?_silent ?_) (fun m' hm' he => ?_) hstatus
        hcount
      · rintro ⟨o, r'⟩ hx
        cases o with
        | publish task =>
          obtain ⟨v₁, v₂, hv⟩ := List.append_of_mem hx
          exact absurd (Option.some.inj (hc.symm.trans (publishing h hv).1)) hother
        | _ => trivial
      · have habsent := Calls.reserves hq (fun _ _ hW => hW.toSpares) hQ.reachable i
          [.insert .backgroundJobs job] m [] hws (fun w hw => by
            rw [List.mem_singleton.mp hw]
            exact jobs_ne_messages.symm) (.outboxJob m.jobId) (.tail _ (.head _))
        refine Db.present_eq_false.mp habsent m' hm' ?_
        rw [← jobId_of_task (hopen.addressed m' hm') haddressed he]
        exact .tail _ (.head _)
    cases c with
    | submitEmailNotification correlationId context ticketId key =>
      exact submitted OutboxCall.noConfusion hcommits
    | submitTicketExport correlationId context status priority key =>
      exact submitted OutboxCall.noConfusion hcommits
    | dispatchOnce =>
      obtain ⟨now, attempts, rows, hU, rfl, hsettles⟩ := hcommits
      obtain ⟨htaken, hnodup⟩ := serving.taken hq h₀ hQ hi hU
      refine tallied_dispatch hold hopen (hU ▸ ht) ?_ htaken hnodup hsettles
      intro x hx
      rcases List.mem_cons.mp hx with rfl | hx
      · trivial
      · exact silent_after h ht x hx

/-- What has been handed over in a round of a thread that has committed is marked as published. -/
theorem published_of_round {messages : List OutboxMessage} {wal : List (Nat × List Write)}
    (h : Tallied P C T wal messages) {i : Nat} {ws : List Write} (hi : (i, ws) ∈ wal)
    {m : OutboxMessage} (hm : m ∈ messages) {now : Time}
    (hr : round? m.task (T i) = some ⟨now, .ok ()⟩) : m.status = .published := by
  have hmem : (⟨now, .ok ()⟩ : Round) ∈ rounds T wal m.task :=
    List.mem_filterMap.mpr ⟨(i, ws), hi, hr⟩
  have haccounts := h.1 m hm
  rcases List.eq_nil_or_concat' (rounds T wal m.task) with hnil | ⟨init, last, hrounds⟩
  · rw [hnil] at hmem
    cases hmem
  · rw [hrounds] at hmem haccounts
    rcases List.mem_append.mp hmem with hinit | hlast
    · obtain ⟨e, he⟩ := haccounts.earlier ⟨now, .ok ()⟩ (by rwa [List.dropLast_concat])
      cases he
    · exact haccounts.published.mpr ⟨last, List.getLast?_concat, by
        rw [← List.mem_singleton.mp hlast]⟩

end History

end Outbox

/-- The tasks a thread has handed over. -/
def handedOver (t : Trace) : List TaskMessage :=
  t.filterMap fun
    | ⟨.publish task, .ok ()⟩ => some task
    | _ => none

/-- Nothing is lost or made up on the way from a submission to the broker. -/
structure OutboxReliable {P : Platform} {C : Settings} {S : RBACService}
    {may : Nat → OutboxCall → Prop} {admits : Admission}
    (pool : ((outboxCalls P C S).system may admits BesideOutbox).Pool) (T : Nat → Trace) :
    Prop where
  /-- Each job has one message, which names it. -/
  paired : (pool.shared.store.db .outboxMessages).map OutboxMessage.names =
    (pool.shared.store.db .backgroundJobs).map BackgroundJob.name
  single : ((pool.shared.store.db .outboxMessages).map OutboxMessage.jobId).Nodup
  /-- Whoever published a task, and whatever became of them: its message is committed. -/
  committed : ∀ i task r, ⟨.publish task, r⟩ ∈ T i →
    ∃ m ∈ pool.shared.store.db .outboxMessages, m.task = task
  accounts : ∀ m ∈ pool.shared.store.db .outboxMessages,
    m.Accounts P C (rounds T pool.shared.store.wal m.task)
  /-- A dispatcher that has returned has marked what it has handed over, and reports how much. -/
  reported : ∀ i (n : Nat), pool.threads i = .finished OutboxCall.dispatchOnce (.ok n) →
    n = (handedOver (T i)).length ∧ ∀ task ∈ handedOver (T i),
      ∃ m ∈ pool.shared.store.db .outboxMessages, m.task = task ∧ m.status = .published

namespace Outbox

variable {P : Platform} {C : Settings} {S : RBACService}

theorem handedOver_append (t u : Trace) : handedOver (t ++ u) = handedOver t ++ handedOver u :=
  List.filterMap_append

theorem handedOver_attempts (attempts : List Attempt) :
    handedOver (attempts.flatMap Attempt.trace) =
      (attempts.filter fun x => x.count = 1).map fun x => x.message.task := by
  induction attempts with
  | nil => rfl
  | cons x attempts ih =>
    rw [List.flatMap_cons, handedOver_append, ih]
    obtain ⟨m, e | publishedAt⟩ := x <;> rfl

theorem handedOver_silent {t : Trace} (h : ∀ x ∈ t, Silent x.1) : handedOver t = [] := by
  rw [handedOver, List.filterMap_eq_nil_iff]
  rintro ⟨o, r⟩ hx
  have ho := h _ hx
  cases o <;> first | rfl | exact ho.elim

theorem handedOver_dispatched (now : Time) (attempts : List Attempt) {v : Trace}
    (hv : ∀ x ∈ v, Silent x.1) : handedOver (dispatched P C now attempts ++ v) =
      (attempts.filter fun x => x.count = 1).map fun x => x.message.task := by
  have hstart : handedOver [⟨.now, .ok now⟩, ⟨pendingQuery C now, .ok (attempts.map (·.message))⟩] =
      [] := rfl
  have hend : handedOver ((updatesOf (flushed P C now attempts)).map Write.sent ++ v) = [] := by
    refine handedOver_silent fun x hx => ?_
    rcases List.mem_append.mp hx with hx | hx
    · obtain ⟨w, -, rfl⟩ := List.mem_map.mp hx
      trivial
    · exact hv x hx
  have hsplit : dispatched P C now attempts ++ v =
      [⟨.now, .ok now⟩, ⟨pendingQuery C now, .ok (attempts.map (·.message))⟩] ++
        (attempts.flatMap Attempt.trace ++
          ((updatesOf (flushed P C now attempts)).map Write.sent ++ v)) := by
    simp [dispatched, attempted]
  rw [hsplit, handedOver_append, handedOver_append, hstart, hend, handedOver_attempts,
    List.nil_append, List.append_nil]

theorem answer_of_count {x : Attempt} (h : x.count = 1) : x.answer = .ok () := by
  obtain ⟨m, e | publishedAt⟩ := x
  · cases h
  · rfl

theorem sum_count (attempts : List Attempt) :
    (attempts.map Attempt.count).sum = (attempts.filter fun x => x.count = 1).length := by
  induction attempts with
  | nil => rfl
  | cons x attempts ih =>
    rw [List.map_cons, List.sum_cons, ih]
    obtain ⟨m, e | publishedAt⟩ := x
    · simp [Attempt.count]
    · simp [Attempt.count, Nat.add_comm]

section Reliable

variable {may : Nat → OutboxCall → Prop} {admits : Admission} {W₀ : World} {T : Nat → Trace}
variable {pool : ((outboxCalls P C S).system may admits BesideOutbox).Pool}

theorem opened_empty {db : Db} (hjobs : db .backgroundJobs = [])
    (hmessages : db .outboxMessages = []) : Opened db where
  names := by rw [hjobs, hmessages]; rfl
  ids := by simp [hmessages]
  jobIds := by simp [hmessages]
  addressed := by simp [hmessages]

/-- What is published is a committed message's, also if its dispatcher never commits. -/
theorem committed_of_published (hq : W₀.Quiet) (h₀ : Opened W₀.store.db)
    (h : System.Records W₀ pool T) {i : Nat} {task : TaskMessage} {r : Except Exn Unit}
    (hmem : ⟨.publish task, r⟩ ∈ T i) :
    ∃ m ∈ pool.shared.store.db .outboxMessages, m.task = task := by
  obtain ⟨u, v, ht⟩ := List.append_of_mem hmem
  exact serving.committed_of_published hq h₀ h ht (publishing h ht).2

/-- A dispatcher that has returned has committed what it reports. -/
theorem reported (hq : W₀.Quiet) (h₀ : Opened W₀.store.db) (h : System.Records W₀ pool T)
    (htallied : Tallied P C T pool.shared.store.wal (pool.shared.store.db .outboxMessages))
    {i n : Nat} (hi : pool.threads i = .finished OutboxCall.dispatchOnce (.ok n)) :
    n = (handedOver (T i)).length ∧ ∀ task ∈ handedOver (T i),
      ∃ m ∈ pool.shared.store.db .outboxMessages, m.task = task ∧ m.status = .published := by
  obtain ⟨now, attempts, ht, hn⟩ := h.returned hi (fun _ _ _ _ _ _ => found) safe_dispatchOnce
  have hv : ∀ x ∈ ([⟨.commit, .ok ()⟩] : Trace), Silent x.1 := fun x hx => by
    rw [List.mem_singleton.mp hx]
    trivial
  have hhanded : handedOver (T i) =
      (attempts.filter fun x => x.count = 1).map fun x => x.message.task := by
    rw [ht, handedOver_dispatched now attempts hv]
  refine ⟨by rw [hn, hhanded, List.length_map, sum_count], fun task htask => ?_⟩
  obtain ⟨ws, hws⟩ := Calls.committed_of_ok (fun _ _ hW => hW.wal) h (i := i) (by
    rw [ht]
    exact List.mem_append_right _ (List.mem_singleton.mpr rfl))
  obtain ⟨rest, hrest, -⟩ := goesOn_dispatched P C now attempts
  have hT : T i = [⟨.now, .ok now⟩] ++ ⟨pendingQuery C now, .ok (attempts.map (·.message))⟩ ::
      (rest ++ [⟨.commit, .ok ()⟩]) := by
    rw [ht, hrest]
    rfl
  obtain ⟨hnodup, hselected⟩ := serving.selected hq h₀ h hT
  rw [List.map_map] at hnodup
  rw [hhanded, List.mem_map] at htask
  obtain ⟨x, hx, rfl⟩ := htask
  obtain ⟨hx, hcount⟩ := List.mem_filter.mp hx
  have hstill : ∀ y ∈ attempts, ∃ m ∈ pool.shared.store.db .outboxMessages,
      fixed m = fixed y.message := fun y hy => (hselected _ (List.mem_map_of_mem hy)).2.2
  obtain ⟨m, hm, he⟩ := hstill x hx
  have htask : m.task = x.message.task := congrArg (fun z => z.2.2.2) he
  have hround : round? m.task (T i) = some ⟨now, .ok ()⟩ := by
    rw [htask, ht, round?_dispatched hv,
      find_attempt (serving.opened hq h₀ h.reachable) hstill hnodup hx]
    rw [Option.map_some, answer_of_count (of_decide_eq_true hcount)]
  exact ⟨m, hm, htask, published_of_round htallied hws hm hround⟩

end Reliable

end Outbox

/-- **The outbox neither loses nor makes up a task.** -/
theorem outbox_is_reliable (P : Platform) (C : Settings) (S : RBACService) {W₀ : World}
    (hq : W₀.Quiet) (hjobs : W₀.store.db .backgroundJobs = [])
    (hmessages : W₀.store.db .outboxMessages = [])
    {pool : ((outboxCalls P C S).system (fun _ _ => True) (fun _ _ _ _ => True)
      BesideOutbox).Pool} {T : Nat → Trace} (h : System.Records W₀ pool T) :
    OutboxReliable pool T := by
  have h₀ := Outbox.opened_empty hjobs hmessages
  have hopen := Outbox.serving.opened hq h₀ h.reachable
  have htallied := Outbox.tallied hq h₀ hmessages h _ List.prefix_rfl
  rw [← Calls.committed hq (fun _ _ hW => ⟨hW.wal, hW.rows⟩) h.reachable] at htallied
  exact
    { paired := hopen.names
      single := hopen.jobIds
      committed := fun _ _ _ hmem => Outbox.committed_of_published hq h₀ h hmem
      accounts := htallied.1
      reported := fun _ _ hi => Outbox.reported hq h₀ h htallied hi }

namespace Outbox

abbrev deployed : Calls := outboxCalls .plain {} ⟨false, 300, 30⟩

/-- Runs in which time passes. -/
def player : (deployed.system (fun _ _ => True) (fun _ _ _ _ => True) BesideOutbox).Player
    Choice Nat :=
  let base := deployed.player BesideOutbox (fun _ _ => true) fun _ _ _ => trivial
  { may := base.may
    exec := base.exec
    moveEnv := fun n W => some { W with clock := W.clock + n }
    may_start := base.may_start
    exec_step := base.exec_step
    env_step := fun h => by
      cases h
      exact ⟨⟨rfl, rfl, rfl, rfl⟩, rfl⟩ }

/-- The owner submits an export. One dispatcher finds the broker down, one comes too early, and the
third hands the task over. -/
def thirdTime : List (System.Move OutboxCall Choice Nat) :=
  [.start 0 (.submitTicketExport (some "c") .owner none none "key"),
    .ops 0 [{}, {}, { uuid := 1 }, { uuid := 2 }, {}, {}, {}, {}], .finish 0,
    .start 1 .dispatchOnce, .ops 1 [{}, {}, { raises := some "down" }, {}, {}], .finish 1,
    .start 2 .dispatchOnce, .ops 2 [{}, {}, {}], .finish 2, .env (seconds 60),
    .start 3 .dispatchOnce, .ops 3 [{}, {}, {}, {}, {}, {}], .finish 3]

end Outbox

/-- A task is handed over at the third attempt. -/
theorem outbox_is_reliable_retried :
    ∃ (pool : (Outbox.deployed.system (fun _ _ => True) (fun _ _ _ _ => True) BesideOutbox).Pool)
      (T : Nat → Trace), System.Records (World.fresh Db.provisioned) pool T ∧
      ((pool.shared.store.db .outboxMessages).map fun m => (m.status, m.publishAttemptCount)) =
        [(.published, 2)] ∧
      (handedOver (T 3)).length = 1 ∧ OutboxReliable pool T := by
  obtain ⟨pool, T, h, hrows, htasks⟩ := Outbox.player.replay_map_trace Outbox.thirdTime
    (World.fresh Db.provisioned) 3
    (fun pool => (pool.shared.store.db .outboxMessages).map fun m =>
      (m.status, m.publishAttemptCount)) (fun t => (handedOver t).length)
    (b := [(.published, 2)]) (d := 1) (by decide +kernel)
  exact ⟨pool, T, h, hrows, htasks,
    outbox_is_reliable _ _ _ (World.quiet_fresh _) rfl rfl h⟩

end Ticketing
