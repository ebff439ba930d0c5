import Ticketing.Concurrency.Executors
import Ticketing.Tasks.Email

/-!
# No double email

Executors of email jobs in the pool of `Executors.lean`, under any faults, crashes, cancellations
and lapsed leases.

* Who may send a job's mail is decided by the history of commits: the worker that committed
  `SENDING` last (`Opened`), until it commits an outcome (`Closed`). That is the `sender`.
* `Mailed` ties the rest to that: the delivery row is `SENDING` or `AMBIGUOUS_FAILURE` while there
  is a sender, and where there is no row, or it is `RETRYABLE_FAILURE`, every call of `send` for
  the job has raised. So a worker that opens the row finds no call alive, and one that has opened
  it and stopped leaves a row nobody opens again.
* `mailHolds` is what a worker knows in each phase: it is silent, it may send, or its call is
  running.
* A `Dialogue` is what the mail server says to one call of `send`; `acceptedFor` counts the
  messages of a job that it has accepted.

Results:
* `no_double_email`: at most one call of `send` for a job ever returns, no two run at a time, and
  none starts any more once a worker has stopped that committed `SENDING` and no outcome.
* `accepted_once`: the mail server accepts at most one message for a job in every run in which no
  `QUIT` fails after the message was accepted.
* `quit_failure_resends`: a dialogue that fails at `QUIT` raises although its message was
  accepted, and its job is sent again.
-/

namespace Ticketing

open Lib (Prog Store System Outline)
open Lib.Outline (post)
open BackgroundJobExecutor (messageId newDelivery resent ambiguous undelivered delivered reload)

/-! ## The history of a delivery -/

namespace Write

/-- The commit of `SENDING` for job `J`. -/
def opens (J : UUID) : Write → Bool
  | insert .notificationDeliveries row => row.jobId = J
  | update .notificationDeliveries l c => l.jobId = J && c.status = .sending
  | _ => false

/-- The commit of an outcome for job `J`. -/
def closes (J : UUID) : Write → Bool
  | update .notificationDeliveries l c =>
    l.jobId = J && (c.status = .sent || c.status = .retryableFailure)
  | _ => false

theorem opens_other {J : UUID} {w : Write} (h : .notificationDeliveries ≠ w.table) :
    w.opens J = false := by
  cases w with
  | insert t row => cases t <;> first | rfl | exact absurd rfl h
  | update t l c => cases t <;> first | rfl | exact absurd rfl h
  | delete t p ids => rfl
  | revokeAllActive => rfl

theorem closes_other {J : UUID} {w : Write} (h : .notificationDeliveries ≠ w.table) :
    w.closes J = false := by
  cases w with
  | insert t row => rfl
  | update t l c => cases t <;> first | rfl | exact absurd rfl h
  | delete t p ids => rfl
  | revokeAllActive => rfl

@[simp] theorem opens_stamp (J : UUID) (τ : Time) (w : Write) :
    (w.stamp τ).opens J = w.opens J := by
  cases w with
  | insert t row => cases t <;> rfl
  | update t l c => cases t <;> rfl
  | delete t p ids => rfl
  | revokeAllActive => rfl

@[simp] theorem closes_stamp (J : UUID) (τ : Time) (w : Write) :
    (w.stamp τ).closes J = w.closes J := by
  cases w with
  | insert t row => rfl
  | update t l c => cases t <;> rfl
  | delete t p ids => rfl
  | revokeAllActive => rfl

end Write

section History

variable (J : UUID) (wal : List (Nat × List Write)) (i : Nat)

/-- Worker `i` has committed `SENDING` for job `J`. -/
def Opened : Prop := ∃ c ∈ wal, c.1 = i ∧ c.2.any (Write.opens J) = true

/-- Worker `i` has committed an outcome for job `J`. -/
def Closed : Prop := ∃ c ∈ wal, c.1 = i ∧ c.2.any (Write.closes J) = true

instance : Decidable (Opened J wal i) := inferInstanceAs (Decidable (∃ c ∈ wal, _))

instance : Decidable (Closed J wal i) := inferInstanceAs (Decidable (∃ c ∈ wal, _))

/-- The worker that may send the mail of job `J`. -/
def sender : Option Nat :=
  wal.foldl (fun s c =>
    if c.2.any (Write.opens J) then some c.1
    else if c.2.any (Write.closes J) then none else s) none

variable {J wal i}

theorem sender_append (c : Nat × List Write) :
    sender J (wal ++ [c]) = if c.2.any (Write.opens J) then some c.1
      else if c.2.any (Write.closes J) then none else sender J wal := by
  simp [sender]

theorem opened_append {c : Nat × List Write} :
    Opened J (wal ++ [c]) i ↔ Opened J wal i ∨ c.1 = i ∧ c.2.any (Write.opens J) = true := by
  simp [Opened, or_and_right, exists_or]

theorem closed_append {c : Nat × List Write} :
    Closed J (wal ++ [c]) i ↔ Closed J wal i ∨ c.1 = i ∧ c.2.any (Write.closes J) = true := by
  simp [Closed, or_and_right, exists_or]

end History

/-! ## The calls of `send` -/

namespace Send

/-- A call for job `J` that has not raised: it runs, or has returned. -/
def live (J : UUID) (s : Send) : Bool :=
  s.message.messageId = messageId J && match s.status with
    | .raised _ => false
    | _ => true

theorem messageId_injective : Function.Injective messageId := fun J K h => by
  have h' := congrArg String.toList h
  simp only [messageId, String.toList_append, List.append_assoc, List.append_right_inj] at h'
  exact UUID.str_injective (String.toList_injective
    (List.append_inj h' (by rw [UUID.length_str, UUID.length_str])).1)

theorem Goes.live {J : UUID} {s s' : Send} (h : s.Goes s') (hl : s'.live J = true) :
    s.live J = true := by
  unfold Send.live at hl ⊢
  rw [h.message] at hl
  rw [Bool.and_eq_true] at hl ⊢
  refine ⟨hl.1, ?_⟩
  split
  · rename_i text hs
    rw [h.status (by rw [hs]; nofun), hs] at hl
    exact hl.2
  · rfl

end Send

/-- Calls that go on do not come to life. -/
theorem countP_live_le {J : UUID} {l l' : List Send} (h : List.Forall₂ Send.Goes l l') :
    l'.countP (Send.live J) ≤ l.countP (Send.live J) := by
  induction h with
  | nil => exact Nat.le_refl _
  | cons hs _ ih =>
    rw [List.countP_cons, List.countP_cons]
    refine Nat.add_le_add ih ?_
    split
    · rename_i hl
      rw [if_pos (hs.live hl)]
    · exact Nat.zero_le _

theorem dead_of_goes {J : UUID} {l l' : List Send} (h : List.Forall₂ Send.Goes l l')
    (hl : ∀ s ∈ l, s.live J = false) : ∀ s ∈ l', s.live J = false := by
  induction h with
  | nil => exact hl
  | cons hs _ ih =>
    rw [List.forall_mem_cons] at hl ⊢
    refine ⟨?_, ih hl.2⟩
    rw [Bool.eq_false_iff]
    intro hlive
    exact Bool.eq_false_iff.mp hl.1 (hs.live hlive)

/-! ## The outline -/

/-- What the delivery rows say of the calls of `send`. -/
structure Mailed (W : World) : Prop where
  keys : DeliveryKeys W
  once : ∀ J, W.sends.countP (Send.live J) ≤ 1
  idle : ∀ J, (∀ row ∈ W.store.db .notificationDeliveries, row.jobId = J →
    row.status = .retryableFailure) → ∀ s ∈ W.sends, s.live J = false
  held : ∀ J i, sender J W.store.wal = some i →
    ∃ row ∈ W.store.db .notificationDeliveries, row.jobId = J ∧
      (row.status = .sending ∨ row.status = .ambiguousFailure)
  unresolved : ∀ J i, Opened J W.store.wal i → ¬Closed J W.store.wal i →
    sender J W.store.wal = some i

/-- What worker `i` relies on. -/
structure MailFrame (i : Nat) (W W' : World) : Prop where
  locks : World.Locks i W W'
  sender : ∀ J, sender J W.store.wal = some i → sender J W'.store.wal = some i
  sends : ∃ l new, List.Forall₂ Send.Goes W.sends l ∧ W'.sends = l ++ new ∧
    ∀ s ∈ new, s.worker ≠ i ∧ ∀ J, Ticketing.sender J W.store.wal = some i →
      s.message.messageId ≠ messageId J

theorem forall₂_goes_refl (l : List Send) : List.Forall₂ Send.Goes l l :=
  List.forall₂_same.mpr fun s _ => .refl s

theorem MailFrame.refl (i : Nat) (W : World) : MailFrame i W W where
  locks := .refl i W
  sender _ h := h
  sends := ⟨W.sends, [], forall₂_goes_refl _, (List.append_nil _).symm, nofun⟩

theorem goes_trans {l l' l'' : List Send} (h : List.Forall₂ Send.Goes l l')
    (h' : List.Forall₂ Send.Goes l' l'') : List.Forall₂ Send.Goes l l'' := by
  induction h generalizing l'' with
  | nil => exact h'
  | cons hs _ ih =>
    cases h' with
    | cons hs' h' => exact .cons (hs.trans hs') (ih h')

theorem goes_append {a b l : List Send} (h : List.Forall₂ Send.Goes (a ++ b) l) :
    ∃ a' b', l = a' ++ b' ∧ List.Forall₂ Send.Goes a a' ∧ List.Forall₂ Send.Goes b b' := by
  induction a generalizing l with
  | nil => exact ⟨[], l, rfl, .nil, h⟩
  | cons s a ih =>
    cases h with
    | cons hs h =>
      obtain ⟨a', b', rfl, ha, hb⟩ := ih h
      exact ⟨_ :: a', b', rfl, .cons hs ha, hb⟩

theorem mem_goes {l l' : List Send} (h : List.Forall₂ Send.Goes l l') {s' : Send} (hs : s' ∈ l') :
    ∃ s ∈ l, s.Goes s' := by
  induction h with
  | nil => cases hs
  | cons hg _ ih =>
    rcases List.mem_cons.mp hs with rfl | hs
    · exact ⟨_, List.mem_cons_self, hg⟩
    · obtain ⟨s, hmem, hg'⟩ := ih hs
      exact ⟨s, List.mem_cons_of_mem _ hmem, hg'⟩

theorem MailFrame.trans {i : Nat} {W W' W'' : World}
    (hf : Store.Frame schema i W.store W'.store) (h : MailFrame i W W')
    (h' : MailFrame i W' W'') : MailFrame i W W'' where
  locks := h.locks.trans hf h'.locks
  sender J hJ := h'.sender J (h.sender J hJ)
  sends := by
    obtain ⟨l, new, hl, he, hnew⟩ := h.sends
    obtain ⟨l', new', hl', he', hnew'⟩ := h'.sends
    rw [he] at hl'
    obtain ⟨a, b, rfl, ha, hb⟩ := goes_append hl'
    refine ⟨a, b ++ new', goes_trans hl ha, by rw [he', List.append_assoc], fun s hs => ?_⟩
    rcases List.mem_append.mp hs with hs | hs
    · obtain ⟨s₀, hs₀, hg⟩ := mem_goes hb hs
      rw [hg.worker, hg.message]
      exact hnew s₀ hs₀
    · exact ⟨(hnew' s hs).1, fun J hJ => (hnew' s hs).2 J (h.sender J hJ)⟩

/-- The outline of the claim: it looks at the database and at the calls of `send`. -/
def mail : WorldOutline where
  inv := Mailed
  frame := MailFrame
  same W W' := W'.sends = W.sends
  blind o := o.part ≠ some .sends
  refl := .refl
  trans _ _ _ _ := .trans
  same_setStore := World.sends_setStore
  same_blind := opStep_sends
  inv_local h hs hi :=
    { keys := hi.keys.of_eq (by rw [h.db])
      once := by rw [hs]; exact hi.once
      idle := by rw [hs, h.db]; exact hi.idle
      held := by rw [h.wal, h.db]; exact hi.held
      unresolved := by rw [h.wal]; exact hi.unresolved }
  frame_local hj h hs :=
    { locks := .of_db h.db
      sender := fun J hJ => by rw [h.wal]; exact hJ
      sends := ⟨_, [], forall₂_goes_refl _, by rw [hs, List.append_nil], nofun⟩ }

/-! ## What a worker knows -/

section Knows

variable (i : Nat) (J : UUID)

/-- The worker has sent nothing. -/
def Silent : mail.outline.Assertion i where
  holds W := ∀ s ∈ W.sends, s.worker ≠ i
  stable W W' h hm s hs := by
    obtain ⟨l, new, hl, he, hnew⟩ := hm.2.2.sends
    rw [he] at hs
    rcases List.mem_append.mp hs with hs | hs
    · obtain ⟨s₀, hs₀, hg⟩ := mem_goes hl hs
      rw [hg.worker]
      exact h s₀ hs₀
    · exact (hnew s hs).1

/-- It may send the mail of job `J`. -/
def MaySend : mail.outline.Assertion i where
  holds W := sender J W.store.wal = some i
  stable _ _ h hm := hm.2.2.sender J h

/-- It may, and no call for the job is alive. -/
def Clear : mail.outline.Assertion i where
  holds W := sender J W.store.wal = some i ∧ ∀ s ∈ W.sends, s.live J = false
  stable W W' h hm := by
    obtain ⟨l, new, hl, he, hnew⟩ := hm.2.2.sends
    refine ⟨hm.2.2.sender J h.1, fun s hs => ?_⟩
    rw [he] at hs
    rcases List.mem_append.mp hs with hs | hs
    · exact dead_of_goes hl h.2 s hs
    · simp [Send.live, (hnew s hs).2 J h.1]

/-- Its own call is the only one for the job that may be alive. -/
def Calling : mail.outline.Assertion i where
  holds W := sender J W.store.wal = some i ∧
    (∀ s ∈ W.sends, s.worker ≠ i → s.live J = false) ∧
    ∃ s, W.sends.filter (fun s => s.worker = i) = [s]
  stable W W' h hm := by
    obtain ⟨hs, hothers, own, hown⟩ := h
    obtain ⟨l, new, hl, he, hnew⟩ := hm.2.2.sends
    refine ⟨hm.2.2.sender J hs, fun s hs' hi => ?_, ?_⟩
    · rw [he] at hs'
      rcases List.mem_append.mp hs' with hs' | hs'
      · obtain ⟨s₀, hs₀, hg⟩ := mem_goes hl hs'
        rw [Bool.eq_false_iff]
        intro hlive
        exact Bool.eq_false_iff.mp (hothers s₀ hs₀ (hg.worker ▸ hi)) (hg.live hlive)
      · simp [Send.live, (hnew s hs').2 J hs]
    · have hfl : List.Forall₂ Send.Goes (W.sends.filter fun s => s.worker = i)
          (l.filter fun s => s.worker = i) :=
        List.rel_filter (fun _ _ hg => by simp [hg.worker]) hl
      have hfn : new.filter (fun s => s.worker = i) = [] :=
        List.filter_eq_nil_iff.mpr fun s hs => by simpa using (hnew s hs).1
      rw [hown] at hfl
      rw [he, List.filter_append, hfn, List.append_nil]
      exact List.length_eq_one_iff.mp hfl.length_eq.symm

/-- What a worker knows in each phase. -/
def mailHolds : Phase → mail.outline.Assertion i
  | .fresh | .ready _ | .claimed _ => Silent i
  | .opened job d =>
    (Silent i).and ((Clear i job.id).and (.pure (d.jobId = job.id ∧ d.status = .sending)))
  | .started job d => (Calling i job.id).and (.pure (d.jobId = job.id ∧ d.status = .sending))
  | .sent job d => (MaySend i job.id).and (.pure (d.jobId = job.id ∧ d.status = .sending))
  | .unsent job d => (Clear i job.id).and (.pure (d.jobId = job.id ∧ d.status = .sending))
  | .marking _ | .retrying _ | .ended => .true

end Knows

/-! ## The commits -/

section Commits

variable {i : Nat} {J : UUID} {W W' : World}

/-- A transaction about the delivery of job `J`, or about none: what has to be shown of it is about
that delivery. -/
theorem mailed_commit (hi : Mailed W) (hl : W.store.LocksOk schema)
    (hc : Store.Committed schema i W.store W'.store) (hs : W'.sends = W.sends)
    (hkeys : DeliveryKeys W')
    (hother : ∀ r : NotificationDelivery, r.jobId ≠ J →
      (r ∈ W'.store.db .notificationDeliveries ↔ r ∈ W.store.db .notificationDeliveries))
    (hopens : ∀ K, K ≠ J → (W.store.sessions i).writes.any (Write.opens K) = false)
    (hcloses : ∀ K, K ≠ J → (W.store.sessions i).writes.any (Write.closes K) = false)
    (hidle : (∀ row ∈ W'.store.db .notificationDeliveries, row.jobId = J →
      row.status = .retryableFailure) → ∀ s ∈ W.sends, s.live J = false)
    (hheld : ∀ j, sender J W'.store.wal = some j →
      ∃ row ∈ W'.store.db .notificationDeliveries, row.jobId = J ∧
        (row.status = .sending ∨ row.status = .ambiguousFailure))
    (hkeep : ∀ j, j ≠ i → sender J W.store.wal = some j → sender J W'.store.wal = some j)
    (hown : Opened J W'.store.wal i → ¬Closed J W'.store.wal i →
      sender J W'.store.wal = some i) :
    Mailed W' ∧ ∀ j, j ≠ i → MailFrame j W W' := by
  have hsender : ∀ K, K ≠ J → sender K W'.store.wal = sender K W.store.wal := fun K hK => by
    rw [hc.wal, sender_append, hopens K hK, hcloses K hK]
    rfl
  have hopened : ∀ K j, Opened K W'.store.wal j ↔ Opened K W.store.wal j ∨
      i = j ∧ (W.store.sessions i).writes.any (Write.opens K) = true := fun K j => by
    rw [hc.wal, opened_append]
  have hclosed : ∀ K j, Closed K W'.store.wal j ↔ Closed K W.store.wal j ∨
      i = j ∧ (W.store.sessions i).writes.any (Write.closes K) = true := fun K j => by
    rw [hc.wal, closed_append]
  refine ⟨⟨hkeys, by rw [hs]; exact hi.once, fun K hrows => ?_, fun K j hj => ?_,
    fun K j ho hcl => ?_⟩, fun j hj => ⟨.of_committed hc hl hj, fun K hK => ?_, _, [],
    forall₂_goes_refl _, by rw [hs, List.append_nil], nofun⟩⟩
  · rw [hs]
    by_cases hK : K = J
    · subst hK
      exact hidle hrows
    · refine hi.idle K fun row hrow hrj => hrows row ((hother row ?_).mpr hrow) hrj
      rw [hrj]
      exact hK
  · by_cases hK : K = J
    · subst hK
      exact hheld j hj
    · rw [hsender K hK] at hj
      obtain ⟨row, hrow, hrj, hst⟩ := hi.held K j hj
      exact ⟨row, (hother row (by rw [hrj]; exact hK)).mpr hrow, hrj, hst⟩
  · by_cases hK : K = J
    · subst hK
      by_cases hj : j = i
      · subst hj
        exact hown ho hcl
      · have ho' := ((hopened K j).mp ho).resolve_right fun h => hj h.1.symm
        exact hkeep j hj (hi.unresolved K j ho' fun h => hcl ((hclosed K j).mpr (.inl h)))
    · rw [hsender K hK]
      have ho' := ((hopened K j).mp ho).resolve_right fun h => by
        rw [hopens K hK] at h
        cases h.2
      exact hi.unresolved K j ho' fun h => hcl ((hclosed K j).mpr (.inl h))
  · by_cases hKJ : K = J
    · subst hKJ
      exact hkeep j hj hK
    · rw [hsender K hKJ]
      exact hK

/-- A transaction that neither opens nor closes a delivery. -/
theorem mailed_keep (hi : Mailed W) (hl : W.store.LocksOk schema)
    (hc : Store.Committed schema i W.store W'.store) (hs : W'.sends = W.sends)
    (hkeys : DeliveryKeys W')
    (hother : ∀ r : NotificationDelivery, r.jobId ≠ J →
      (r ∈ W'.store.db .notificationDeliveries ↔ r ∈ W.store.db .notificationDeliveries))
    (hopens : ∀ K, (W.store.sessions i).writes.any (Write.opens K) = false)
    (hcloses : ∀ K, (W.store.sessions i).writes.any (Write.closes K) = false)
    (hidle : (∀ row ∈ W'.store.db .notificationDeliveries, row.jobId = J →
      row.status = .retryableFailure) → ∀ s ∈ W.sends, s.live J = false)
    (hheld : ∀ j, sender J W.store.wal = some j →
      ∃ row ∈ W'.store.db .notificationDeliveries, row.jobId = J ∧
        (row.status = .sending ∨ row.status = .ambiguousFailure)) :
    Mailed W' ∧ ∀ j, j ≠ i → MailFrame j W W' := by
  have hsender : sender J W'.store.wal = sender J W.store.wal := by
    rw [hc.wal, sender_append, hopens J, hcloses J]
    rfl
  refine mailed_commit hi hl hc hs hkeys hother (fun K _ => hopens K) (fun K _ => hcloses K) hidle
    (by rwa [hsender]) (fun j _ hj => by rwa [hsender]) fun ho hcl => ?_
  rw [hsender]
  rw [hc.wal, opened_append, hopens J] at ho
  rw [hc.wal, closed_append, hcloses J] at hcl
  exact hi.unresolved J i (ho.resolve_right fun h => Bool.noConfusion h.2) fun h => hcl (.inl h)

variable {ws : List Write}

/-- A transaction that writes no delivery. -/
theorem mailed_quiet (hi : Mailed W) (hl : W.store.LocksOk schema)
    (hc : Store.Committed schema i W.store W'.store) (hs : W'.sends = W.sends)
    (hw : Stamped ws (W.store.sessions i).writes)
    (hws : ∀ w ∈ ws, Table.notificationDeliveries ≠ w.table) :
    Mailed W' ∧ ∀ j, j ≠ i → MailFrame j W W' := by
  have hdb := committed_other hc hw hws
  have hws' := hw.table hws
  refine mailed_keep (J := 0) hi hl hc hs (hi.keys.of_eq hdb) (fun r _ => by rw [hdb])
    (fun K => ?_) (fun K => ?_) (fun h => hi.idle 0 (by rwa [hdb] at h))
    fun j hj => by rw [hdb]; exact hi.held 0 j hj
  · exact List.any_eq_false.mpr fun w hmem => by simp [Write.opens_other (hws' w hmem)]
  · exact List.any_eq_false.mpr fun w hmem => by simp [Write.closes_other (hws' w hmem)]

/-- A transaction that opens the delivery of job `J`. -/
theorem mailed_open (hi : Mailed W) (hl : W.store.LocksOk schema)
    (hc : Store.Committed schema i W.store W'.store) (hs : W'.sends = W.sends)
    (hkeys : DeliveryKeys W')
    (hother : ∀ r : NotificationDelivery, r.jobId ≠ J →
      (r ∈ W'.store.db .notificationDeliveries ↔ r ∈ W.store.db .notificationDeliveries))
    (hopens : ∀ K, (W.store.sessions i).writes.any (Write.opens K) = decide (K = J))
    (hcloses : ∀ K, (W.store.sessions i).writes.any (Write.closes K) = false)
    (hbefore : ∀ row ∈ W.store.db .notificationDeliveries, row.jobId = J →
      row.status = .retryableFailure)
    {row' : NotificationDelivery} (hrow' : row' ∈ W'.store.db .notificationDeliveries)
    (hj : row'.jobId = J) (hst : row'.status = .sending) :
    (Mailed W' ∧ ∀ j, j ≠ i → MailFrame j W W') ∧ (Clear i J) W' := by
  have hsender : sender J W'.store.wal = some i := by
    rw [hc.wal, sender_append, hopens J, decide_eq_true rfl]
    rfl
  have hnone : ∀ j, sender J W.store.wal ≠ some j := fun j hj => by
    obtain ⟨row, hrow, hrj, hr⟩ := hi.held J j hj
    rw [hbefore row hrow hrj] at hr
    rcases hr with hr | hr <;> cases hr
  refine ⟨mailed_commit hi hl hc hs hkeys hother (fun K hK => ?_) (fun K _ => hcloses K)
    (fun h => ?_) (fun j _ => ⟨row', hrow', hj, .inl hst⟩) (fun j _ h => absurd h (hnone j))
    fun _ _ => hsender, hsender, ?_⟩
  · rw [hopens K, decide_eq_false hK]
  · rw [h row' hrow' hj] at hst
    cases hst
  · rw [hs]
    exact hi.idle J hbefore

/-- A transaction of the worker that may send the mail of job `J`, which closes the delivery. -/
theorem mailed_close (hi : Mailed W) (hl : W.store.LocksOk schema)
    (hc : Store.Committed schema i W.store W'.store) (hs : W'.sends = W.sends)
    (hkeys : DeliveryKeys W')
    (hother : ∀ r : NotificationDelivery, r.jobId ≠ J →
      (r ∈ W'.store.db .notificationDeliveries ↔ r ∈ W.store.db .notificationDeliveries))
    (hopens : ∀ K, (W.store.sessions i).writes.any (Write.opens K) = false)
    (hcloses : ∀ K, (W.store.sessions i).writes.any (Write.closes K) = decide (K = J))
    (hsender : sender J W.store.wal = some i)
    (hidle : (∀ row ∈ W'.store.db .notificationDeliveries, row.jobId = J →
      row.status = .retryableFailure) → ∀ s ∈ W.sends, s.live J = false) :
    Mailed W' ∧ ∀ j, j ≠ i → MailFrame j W W' := by
  have hnone : sender J W'.store.wal = none := by
    rw [hc.wal, sender_append, hopens J, hcloses J, decide_eq_true rfl]
    rfl
  refine mailed_commit hi hl hc hs hkeys hother (fun K _ => hopens K) (fun K hK => ?_) hidle
    (fun j hj => ?_) (fun j hj h => ?_) fun _ hcl => ?_
  · rw [hcloses K, decide_eq_false hK]
  · rw [hnone] at hj
    cases hj
  · rw [hsender] at h
    exact absurd (Option.some.inj h).symm hj
  · rw [hc.wal, closed_append] at hcl
    exact absurd (.inr ⟨rfl, by rw [hcloses J, decide_eq_true rfl]⟩) hcl

theorem updates_any {t : Table} (l c : t.Row) (f : Write → Bool) :
    (Write.updates t l c).any f = (decide (l ≠ c) && f (.update t l c)) := by
  unfold Write.updates
  split
  · rename_i h
    simp [h]
  · rename_i h
    simp [h]

theorem updates_table {t : Table} {l c : t.Row} {w : Write} (h : w ∈ Write.updates t l c) :
    w.table = t := by
  unfold Write.updates at h
  split at h
  · cases h
  · rw [List.mem_singleton.mp h]
    rfl

section Reload

variable {delivery row : NotificationDelivery}

/-- What the session keeps of an object it holds. -/
theorem reload_held (added : Bool) (h : row.id = delivery.id) :
    (reload added delivery row).id = delivery.id ∧
      (reload added delivery row).tenantId = delivery.tenantId ∧
      (reload added delivery row).jobId = delivery.jobId ∧
      (reload added delivery row).status = delivery.status := by
  rw [reload, if_pos h]
  cases added <;> exact ⟨rfl, rfl, rfl, rfl⟩

theorem reload_id {added : Bool} : (reload added delivery row).id = row.id := by
  by_cases h : row.id = delivery.id
  · exact (reload_held added h).1.trans h.symm
  · rw [reload, if_neg h]

end Reload

variable {P : Platform} {C : Settings} {jobId : UUID} {ph ph' : Phase} {job : BackgroundJob}

/-- What the worker that may send finds of the row: its own object, or one somebody gave up. -/
theorem reload_status (hi : Mailed W) {added : Bool} {delivery row : NotificationDelivery}
    (hsender : sender job.id W.store.wal = some i)
    (hd : delivery.jobId = job.id ∧ delivery.status = .sending) (hrow : IsDelivery W job row) :
    (reload added delivery row).jobId = job.id ∧ ((reload added delivery row).status = .sending ∨
      (reload added delivery row).status = .ambiguousFailure) := by
  by_cases he : row.id = delivery.id
  · obtain ⟨-, -, hjob, hstatus⟩ := reload_held added he
    exact ⟨hjob.trans hd.1, .inl (hstatus.trans hd.2)⟩
  · rw [reload, if_neg he]
    obtain ⟨row', hrow', hj, hst⟩ := hi.held job.id i hsender
    obtain rfl := hi.keys.unique hrow.1 hrow' (hj.trans hrow.2.symm)
    exact ⟨hrow.2, hst⟩

/-- **What a worker commits keeps the outline.** -/
theorem mail_commit (hi : mail.outline.inv W) (hh : mailHolds i ph W)
    (hcm : Commits P C jobId W ph ws ph') (hw : Stamped ws (W.store.sessions i).writes)
    (hc : Store.Committed schema i W.store W'.store) (hs : W'.sends = W.sends) :
    mail.inv W' ∧ (∀ j, j ≠ i → mail.frame j W W') ∧ mailHolds i ph' W' := by
  have both {A B C : Prop} (h : A ∧ B) (h' : C) : A ∧ B ∧ C := ⟨h.1, h.2, h'⟩
  have quiet := mailed_quiet hi.2 hi.1 hc hs hw
  have opens (K : UUID) : (W.store.sessions i).writes.any (Write.opens K) =
    ws.any (Write.opens K) :=
    hw.any fun τ w => Write.opens_stamp K τ w
  have closes (K : UUID) :
      (W.store.sessions i).writes.any (Write.closes K) = ws.any (Write.closes K) :=
    hw.any fun τ w => Write.closes_stamp K τ w
  cases hcm with
  | exhaust => exact both (quiet (by simp [Write.table])) trivial
  | claim =>
    refine both (quiet (by simp [Write.table])) ?_
    show ∀ s ∈ W'.sends, s.worker ≠ i
    rw [hs]
    exact hh
  | alreadySent => exact both (quiet (by simp [Write.table])) trivial
  | exported => exact both (quiet (by simp [Write.table])) trivial
  | fail => exact both (quiet (by simp [Write.table])) trivial
  | retry => exact both (quiet (by simp [Write.table])) trivial
  | retriesExhausted => exact both (quiet (by simp [Write.table])) trivial
  | unsentMissing => exact both (quiet (by simp)) trivial
  | @ambiguous job row hrow hkind hstatus =>
    obtain ⟨hkeys, row', ht, hrows⟩ :=
      delivery_updated [] hi.2.keys hrow.1 rfl hc hw (by simp)
    have hst : row'.status = .ambiguousFailure := ht.status.trans (Table.changed_self _ _)
    have hmem := (hrows row').mpr (.inl rfl)
    have hj : row'.jobId = job.id := ht.jobId.trans hrow.2
    refine both (mailed_keep (J := job.id) hi.2 hi.1 hc hs hkeys (fun r hr => ?_) (fun K => ?_)
      (fun K => ?_) (fun h => ?_) fun j _ => ⟨row', hmem, hj, .inr hst⟩) trivial
    · exact hi.2.keys.others hrow.1 ht.jobId hrows (by rwa [hrow.2])
    · rw [opens K, updates_any]
      simp [Write.opens, BackgroundJobExecutor.ambiguous]
    · rw [closes K, updates_any]
      simp [Write.closes, BackgroundJobExecutor.ambiguous]
    · exact absurd (hst.symm.trans (h row' hmem hj)) (by simp)
  | @insert job recipient id hkind hnew =>
    obtain ⟨hkeys, hfresh, row', ht, hrows⟩ := delivery_inserted hi.2.keys hnew hc hw
    have hmem := (hrows row').mpr (.inl rfl)
    obtain ⟨hboth, hclear⟩ := mailed_open (J := job.id) hi.2 hi.1 hc hs hkeys (fun r hr => by
        rw [hrows r]
        exact or_iff_right fun h => hr (h ▸ ht.jobId)) (fun K => by
        rw [opens K]
        simp [Write.opens, newDelivery, eq_comm]) (fun K => by
        rw [closes K]
        simp [Write.closes]) (fun row hrow hj => absurd hj (hfresh row hrow)) hmem ht.jobId
        (ht.status.trans (Table.changed_self _ _))
    refine both hboth ⟨?_, hclear, rfl, rfl⟩
    show ∀ s ∈ W'.sends, s.worker ≠ i
    rw [hs]
    exact hh
  | @resend job row hrow hkind hstatus =>
    obtain ⟨hkeys, row', ht, hrows⟩ := delivery_updated [] (l := row) (c := resent row)
      hi.2.keys hrow.1 rfl hc (by
        rwa [List.nil_append, Write.updates_of_ne NotificationDelivery.attemptCount
          (Nat.ne_of_lt (Nat.lt_succ_self _))]) (by simp)
    have hmem := (hrows row').mpr (.inl rfl)
    obtain ⟨hboth, hclear⟩ := mailed_open (J := job.id) hi.2 hi.1 hc hs hkeys
      (fun r hr => hi.2.keys.others hrow.1 ht.jobId hrows (by rwa [hrow.2])) (fun K => by
        rw [opens K]
        simp [Write.opens, resent, hrow.2, eq_comm]) (fun K => by
        rw [closes K]
        simp [Write.closes, resent]) (fun r hr hj => by
        rwa [hi.2.keys.unique hrow.1 hr (hj.trans hrow.2.symm)]) hmem (ht.jobId.trans hrow.2)
        (ht.status.trans (Table.changed_self _ _))
    refine both hboth ⟨?_, hclear, hrow.2, rfl⟩
    show ∀ s ∈ W'.sends, s.worker ≠ i
    rw [hs]
    exact hh
  | @unsent job added delivery row e hrow =>
    obtain ⟨⟨hsender, hdead⟩, hd⟩ := hh
    obtain ⟨hlj, hls⟩ := reload_status hi.2 hsender hd hrow
    obtain ⟨hkeys, row', ht, hrows⟩ := delivery_updated [] hi.2.keys hrow.1
      reload_id hc hw (by simp)
    refine both (mailed_close (J := job.id) hi.2 hi.1 hc hs hkeys
      (fun r hr => hi.2.keys.others hrow.1 ht.jobId hrows (by rwa [hrow.2])) (fun K => ?_)
      (fun K => ?_) hsender fun _ => hdead) trivial
    · rw [opens K, updates_any]
      simp [Write.opens, undelivered]
    · have hne : reload added delivery row ≠
          undelivered P (reload added delivery row) e := fun h => by
        rw [h] at hls
        exact hls.elim (by rintro ⟨⟩) (by rintro ⟨⟩)
      rw [closes K, updates_any, decide_eq_true hne]
      simp [Write.closes, undelivered, hlj, eq_comm]
  | @delivered job added delivery row now now' hrow =>
    obtain ⟨hsender, hd⟩ := hh
    obtain ⟨hlj, hls⟩ := reload_status hi.2 hsender hd hrow
    obtain ⟨hkeys, row', ht, hrows⟩ := delivery_updated [_] hi.2.keys hrow.1
      reload_id hc hw (by simp [Write.table])
    refine both (mailed_close (J := job.id) hi.2 hi.1 hc hs hkeys
      (fun r hr => hi.2.keys.others hrow.1 ht.jobId hrows (by rwa [hrow.2])) (fun K => ?_)
      (fun K => ?_) hsender fun h => ?_) trivial
    · rw [opens K, List.any_cons, updates_any]
      simp [Write.opens, delivered]
    · have hne : reload added delivery row ≠
          delivered (reload added delivery row) now := fun h => by
        rw [h] at hls
        exact hls.elim (by rintro ⟨⟩) (by rintro ⟨⟩)
      rw [closes K, List.any_cons, updates_any, decide_eq_true hne]
      simp [Write.closes, delivered, hlj, eq_comm]
    · have hst : row'.status = .sent := ht.status.trans (if_neg fun h => by
        rw [h] at hls
        exact hls.elim (by rintro ⟨⟩) (by rintro ⟨⟩))
      exact absurd (hst.symm.trans (h row' ((hrows row').mpr (.inl rfl)) (ht.jobId.trans hrow.2)))
        (by simp)

/-! ## The calls and the rest of the world -/

/-- Calls of `send` go on by themselves. -/
theorem mailed_goes (hi : Mailed W) (hlocks : ∀ j, World.Locks j W W')
    (hdb : W'.store.db .notificationDeliveries = W.store.db .notificationDeliveries)
    (hwal : W'.store.wal = W.store.wal) (hs : List.Forall₂ Send.Goes W.sends W'.sends) :
    Mailed W' ∧ ∀ j, MailFrame j W W' := by
  refine ⟨⟨hi.keys.of_eq hdb, fun J => (countP_live_le hs).trans (hi.once J),
    fun J h => ?_, ?_, ?_⟩,
    fun j => ⟨hlocks j, fun J hJ => ?_, W'.sends, [], hs, (List.append_nil _).symm, (by simp)⟩⟩
  · rw [hdb] at h
    exact dead_of_goes hs (hi.idle J h)
  · rw [hwal, hdb]
    exact hi.held
  · rw [hwal]
    exact hi.unresolved
  · rwa [hwal]

/-- A call starts. -/
theorem mail_send {delivery : NotificationDelivery} {message : EmailMessage}
    (hi : mail.outline.inv W) (hh : mailHolds i (.opened job delivery) W)
    (hm : message.messageId = messageId job.id)
    (hW : W' = { W with sends := W.sends ++ [⟨i, message, .running⟩] }) :
    mail.inv W' ∧ (∀ j, j ≠ i → mail.frame j W W') ∧ mailHolds i (.started job delivery) W' := by
  obtain ⟨hsilent, ⟨hsender, hdead⟩, hd⟩ := hh
  subst hW
  have hzero : W.sends.countP (Send.live job.id) = 0 :=
    List.countP_eq_zero.mpr fun s hs => by simp [hdead s hs]
  have hother {J : UUID} (hJ : J ≠ job.id) : Send.live J ⟨i, message, .running⟩ = false := by
    simp [Send.live, hm, Send.messageId_injective.eq_iff, Ne.symm hJ]
  refine ⟨⟨hi.2.keys.of_eq rfl, fun J => ?_, fun J h s hs => ?_, hi.2.held, hi.2.unresolved⟩,
    fun j hj => ⟨.refl j W, fun _ h => h, W.sends, _, forall₂_goes_refl _, rfl, fun s hs => ?_⟩,
    ⟨hsender, fun s hs hne => ?_, ⟨i, message, .running⟩, ?_⟩, hd⟩
  · rw [List.countP_append]
    by_cases hJ : J = job.id
    · rw [hJ, hzero, Nat.zero_add]
      exact List.countP_le_length
    · rw [List.countP_singleton, if_neg (by simp [hother hJ])]
      exact hi.2.once J
  · rcases List.mem_append.mp hs with hs | hs
    · exact hi.2.idle J h s hs
    · rw [List.mem_singleton.mp hs]
      refine hother fun hJ => ?_
      obtain ⟨row, hrow, hrj, hst⟩ := hi.2.held job.id i hsender
      rw [h row hrow (hrj.trans hJ.symm)] at hst
      exact hst.elim (by simp) (by simp)
  · rw [List.mem_singleton.mp hs]
    refine ⟨Ne.symm hj, fun J hJ h => hj ?_⟩
    rw [← Send.messageId_injective (hm.symm.trans h), hsender] at hJ
    exact (Option.some.inj hJ).symm
  · rcases List.mem_append.mp hs with hs | hs
    · exact hdead s hs
    · rw [List.mem_singleton.mp hs] at hne
      exact absurd rfl hne
  · have hnil : W.sends.filter (fun s => s.worker = i) = [] :=
      List.filter_eq_nil_iff.mpr fun s hs => by simpa using hsilent s hs
    simp [List.filter_append, hnil]

/-- The call of a worker that has one. -/
theorem sendOf_eq {s : Send} (h : W.sends.filter (fun s => s.worker = i) = [s]) :
    W.sendOf i = some s := by
  rw [World.sendOf, ← List.head?_filter, List.filter_reverse, h]
  rfl

theorem goes_endSend (status : SendStatus) :
    List.Forall₂ Send.Goes W.sends (W.endSend i status).sends := by
  unfold World.endSend
  rw [List.forall₂_map_right_iff, List.forall₂_same]
  intro s _
  split
  · rename_i h
    exact ⟨rfl, rfl, fun hs => absurd h.2 hs⟩
  · exact .refl s

/-- Waiting for a call is at most its end. -/
theorem await_goes {c : Choice} {r : Except Exn Unit}
    (hst : opStep i c .awaitSend W = some (r, W')) :
    List.Forall₂ Send.Goes W.sends W'.sends := by
  simp only [opStep] at hst
  split at hst
  · cases hst
    exact forall₂_goes_refl _
  · split at hst
    · cases hst
    · split at hst <;> cases hst <;>
        first | exact forall₂_goes_refl _ | exact goes_endSend _

/-- A call comes to its end, and one that raised is not alive. -/
theorem mail_await {c : Choice} {r : Except Exn Unit} {delivery : NotificationDelivery}
    (hi : mail.outline.inv W) (hh : mailHolds i (.started job delivery) W)
    (hst : opStep i c .awaitSend W = some (r, W')) :
    mail.inv W' ∧ (∀ j, j ≠ i → mail.frame j W W') ∧
      (r = .ok () → mailHolds i (.sent job delivery) W') ∧
      ∀ e, r = .error e → e.isException = true → mailHolds i (.unsent job delivery) W' := by
  obtain ⟨⟨hsender, hothers, s, hown⟩, hd⟩ := hh
  have hmine : ∀ x ∈ W.sends, x.worker = i → x = s := fun x hx hw => by
    have : x ∈ W.sends.filter (fun s => s.worker = i) := List.mem_filter.mpr ⟨hx, by simpa using hw⟩
    rw [hown] at this
    exact List.mem_singleton.mp this
  have hsame : mail.inv W ∧ ∀ j, j ≠ i → mail.frame j W W := ⟨hi.2, fun j _ => MailFrame.refl j W⟩
  have hgoes (status : SendStatus) : mail.inv (W.endSend i status) ∧
      ∀ j, j ≠ i → mail.frame j W (W.endSend i status) := by
    obtain ⟨hm, hf⟩ : Mailed (W.endSend i status) ∧ ∀ j, MailFrame j W (W.endSend i status) :=
      mailed_goes hi.2 (fun j => .refl j W) rfl rfl (goes_endSend status)
    exact ⟨hm, fun j _ => hf j⟩
  simp only [opStep, sendOf_eq hown] at hst
  split at hst
  · cases hst
    exact ⟨hsame.1, hsame.2, (by simp), fun e he hx => by cases he; cases hx⟩
  · split at hst
    · cases hst
      exact ⟨hsame.1, hsame.2, fun _ => ⟨hsender, hd⟩, (by simp)⟩
    · rename_i text hstatus
      cases hst
      refine ⟨hsame.1, hsame.2, (by simp), fun e _ _ => ⟨⟨hsender, fun x hx => ?_⟩, hd⟩⟩
      by_cases hw : x.worker = i
      · rw [hmine x hx hw]
        simp [Send.live, hstatus]
      · exact hothers x hx hw
    · cases hst
      exact ⟨(hgoes _).1, (hgoes _).2, fun _ => ⟨hsender, hd⟩, (by simp)⟩
    · rename_i text hstatus _
      cases hst
      refine ⟨(hgoes _).1, (hgoes _).2, (by simp), fun e _ _ => ⟨⟨hsender, fun x hx => ?_⟩, hd⟩⟩
      obtain ⟨x₀, hx₀, rfl⟩ := List.mem_map.mp hx
      split
      · simp [Send.live]
      · rename_i hne
        refine hothers x₀ hx₀ fun hw => hne ⟨hw, ?_⟩
        rw [hmine x₀ hx₀ hw]
        exact hstatus

end Commits

/-! ## The result -/

theorem mailHolds_congr {i : Nat} {ph : Phase} {W W' : World} (hs : W'.sends = W.sends)
    (hw : W'.store.wal = W.store.wal) (h : mailHolds i ph W) : mailHolds i ph W' := by
  cases ph with
  | fresh | ready | claimed =>
    show ∀ s ∈ W'.sends, s.worker ≠ i
    rw [hs]
    exact h
  | opened job d =>
    obtain ⟨hsilent, ⟨hsender, hdead⟩, hd⟩ := h
    refine ⟨?_, ⟨?_, ?_⟩, hd⟩
    · show ∀ s ∈ W'.sends, s.worker ≠ i
      rw [hs]
      exact hsilent
    · rw [hw]
      exact hsender
    · rw [hs]
      exact hdead
  | started job d =>
    obtain ⟨⟨hsender, hothers, hown⟩, hd⟩ := h
    refine ⟨⟨?_, ?_, ?_⟩, hd⟩
    · rw [hw]
      exact hsender
    · rw [hs]
      exact hothers
    · rw [hs]
      exact hown
  | sent job d =>
    refine ⟨?_, h.2⟩
    show sender job.id W'.store.wal = some i
    rw [hw]
    exact h.1
  | unsent job d =>
    obtain ⟨⟨hsender, hdead⟩, hd⟩ := h
    refine ⟨⟨?_, ?_⟩, hd⟩
    · rw [hw]
      exact hsender
    · rw [hs]
      exact hdead
  | marking | retrying | ended => trivial

/-- What `execute` does to the mail, phase by phase. -/
def mailFollows (P : Platform) (C : Settings) (i : Nat) (jobId : UUID) :
    Follows mail (fun _ _ _ _ => True) P C i jobId where
  holds := mailHolds i
  lost := .true
  locks h := h.locks
  blind _ _ h _ := h
  own hl hs h := mailHolds_congr hs hl.wal h
  read _ h := h
  missed _ _ _ := trivial
  fail _ _ := trivial
  commit hi hh _ hcm hw hc hs := mail_commit hi hh hcm hw hc hs
  send hi hh _ hm := mail_send hi hh hm rfl
  await hi hh hst _ := mail_await hi hh hst
  drop _ _ _ _ _ := trivial

theorem mail_ok (P : Platform) (C : Settings) : mail.outline.Ok (workers P C fun _ _ _ _ => True)
    (fun i jobId => post (fun _ => mailHolds i .ended) (mailFollows P C i jobId).Outcome)
    fun _ _ _ _ => True :=
  executors_ok (mailFollows P C)
    (fun i _ W hi hu => ⟨WorldOutline.guar_dropped (WorldOutline.dropped_accept W i none) rfl hi,
      hu.2.1⟩)
    (fun i W again hi => WorldOutline.guar_dropped (WorldOutline.dropped_settle W i again) rfl hi)
    fun _ _ hi h => mailed_goes hi.2 h.locks h.deliveries h.wal h.sends

theorem mailed_untried {W : World} (h : W.Untried) : mail.outline.inv W := by
  refine ⟨fun i w hw => ?_, ⟨?_, ?_⟩, fun J => ?_, fun J _ s hs => ?_, fun J i hj => ?_,
    fun J i ho _ => ?_⟩
  · rw [h.sessions i] at hw
    cases hw
  · rw [h.deliveries]
    exact List.nodup_nil
  · rw [h.deliveries]
    exact List.nodup_nil
  · rw [h.sends]
    exact Nat.zero_le _
  · rw [h.sends] at hs
    cases hs
  · rw [h.wal] at hj
    cases hj
  · rw [h.wal] at ho
    obtain ⟨c, hc, -⟩ := ho
    cases hc

/-- The calls of `send` for job `J`. -/
def World.callsFor (W : World) (J : UUID) : List Send :=
  W.sends.filter fun s => s.message.messageId = messageId J

theorem countP_callsFor (W : World) (J : UUID) {f : Send → Bool}
    (hf : ∀ s, f s = true → ∀ text, s.status ≠ .raised text) :
    (W.callsFor J).countP f ≤ W.sends.countP (Send.live J) := by
  rw [World.callsFor, List.countP_filter]
  refine List.countP_mono_left fun s _ h => ?_
  rw [Bool.and_eq_true] at h
  unfold Send.live
  split
  · rename_i text hs
    exact absurd hs (hf s h.1 text)
  · simpa using h.2

/-- **No double email**: whatever the workers, their crashes and the outside do, at most one call of
`send` for a job ever returns, no two run at a time, and no call starts any more once a worker has
stopped that committed `SENDING` and no outcome. -/
theorem no_double_email (P : Platform) (C : Settings) {W₀ : World} (h₀ : W₀.Untried)
    {pool : (workers P C fun _ _ _ _ => True).Pool} (h : System.Reachable W₀ pool) (J : UUID) :
    (pool.shared.callsFor J).countP (·.status = .returned) ≤ 1 ∧
    (pool.shared.callsFor J).countP (·.status = .running) ≤ 1 ∧
    ∀ i, (pool.threads i).Stopped → Opened J pool.shared.store.wal i →
      ¬Closed J pool.shared.store.wal i → ∀ pool', System.Steps pool pool' →
      (pool'.shared.callsFor J).length = (pool.shared.callsFor J).length := by
  have hok := (mail_ok P C).sound (mailed_untried h₀) h
  have honce := hok.inv.2.once J
  refine ⟨(countP_callsFor _ J fun s hs => ?_).trans honce,
    (countP_callsFor _ J fun s hs => ?_).trans honce, fun i hi ho hcl pool' hsteps => ?_⟩
  · simp [of_decide_eq_true hs]
  · simp [of_decide_eq_true hs]
  · obtain ⟨-, -, hf⟩ := Lib.Outline.Ok.stopped (mail_ok P C) hok hsteps hi
    obtain ⟨l, new, hl, he, hnew⟩ := hf.sends
    have hsender := hok.inv.2.unresolved J i ho hcl
    have hnone : new.filter (fun s => s.message.messageId = messageId J) = [] :=
      List.filter_eq_nil_iff.mpr fun s hs => by simpa using (hnew s hs).2 J hsender
    have hsame : List.Forall₂ Send.Goes (pool.shared.callsFor J)
        (l.filter fun s => s.message.messageId = messageId J) :=
      List.rel_filter (fun _ _ hg => by simp [hg.message]) hl
    rw [World.callsFor, he, List.filter_append, hnone, List.append_nil]
    exact hsame.length_eq.symm

/-- A worker dies with its mail under way; once its lease has expired another one claims the job and
sends nothing. -/
theorem no_double_email_resent :
    ∃ pool pool' : (workers .plain {} fun _ _ _ _ => True).Pool,
      System.Reachable (World.fresh Db.submitted) pool ∧ System.Steps pool pool' ∧
      (pool.shared.callsFor 2).length = 1 ∧ pool'.shared.store.wal.length = 5 ∧
      (pool'.shared.callsFor 2).length = 1 := by
  let moves : List (System.Move UUID Choice Nat) :=
    [.start 0 2, .ops 0 (List.replicate 9 { uuid := 3 }), .crash 0]
  let moves' : List (System.Move UUID Choice Nat) :=
    [.env 300000000, .start 1 2, .ops 1 (List.replicate 10 {}), .finish 1]
  obtain ⟨pool, pool', hreach, hsteps, hobs, hobs'⟩ := (workersPlayer .plain {}
    (fun _ _ _ _ => true) fun _ _ _ _ _ => trivial).replay_map₂ moves moves'
    (.init (World.fresh Db.submitted))
    (fun pool => decide ((pool.shared.callsFor 2).length = 1 ∧ (pool.threads 0).Stopped ∧
      Opened 2 pool.shared.store.wal 0 ∧ ¬Closed 2 pool.shared.store.wal 0))
    (fun pool => pool.shared.store.wal.length) (b := true) (d := 5) (by decide +kernel)
  obtain ⟨hone, hstopped, hopened, hclosed⟩ := of_decide_eq_true hobs
  obtain ⟨-, -, hnone⟩ := no_double_email _ _ World.untried_submitted hreach 2
  exact ⟨pool, pool', hreach, hsteps, hone, hobs',
    (hnone 0 hstopped hopened hclosed pool' hsteps).trans hone⟩

/-! ## What the mail server accepts -/

/-- The dialogue `d` is, or may yet turn out to be, that of the call `s`. -/
def Send.Of (S : SMTPEmailSender) (s : Send) (d : Dialogue) : Prop :=
  match s.status with
  | .running => True
  | .returned => S.result d = .ok ()
  | .raised text => S.result d = .error text

/-- How many messages for job `J` the server accepts in the calls of `send`. -/
def acceptedFor (S : SMTPEmailSender) (J : UUID) (calls : List (Send × Dialogue)) : Nat :=
  calls.countP fun call => call.1.message.messageId = messageId J && S.accepted call.2

/-- A call whose message was accepted and whose `QUIT` does not fail never raises. -/
theorem live_of_accepted {S : SMTPEmailSender} {J : UUID} {s : Send} {d : Dialogue} (h : s.Of S d)
    (hq : S.accepted d = true → d .quit = none) (hm : s.message.messageId = messageId J)
    (ha : S.accepted d = true) : s.live J = true := by
  have hok := (SMTPEmailSender.result_ok_iff ha).mpr (hq ha)
  rw [Send.live, Bool.and_eq_true]
  refine ⟨decide_eq_true hm, ?_⟩
  unfold Send.Of at h
  split at h
  · rename_i hs; rw [hs]
  · rename_i hs; rw [hs]
  · rw [hok] at h
    cases h

theorem acceptedFor_le {S : SMTPEmailSender} {J : UUID} {sends : List Send} {ds : List Dialogue}
    (h : List.Forall₂ (Send.Of S) sends ds) (hq : ∀ d ∈ ds, S.accepted d = true → d .quit = none) :
    acceptedFor S J (sends.zip ds) ≤ sends.countP (Send.live J) := by
  induction h with
  | nil => exact Nat.le_refl _
  | @cons s d _ _ hs _ ih =>
    rw [List.forall_mem_cons] at hq
    rw [List.zip_cons_cons, acceptedFor, List.countP_cons, List.countP_cons]
    refine Nat.add_le_add (ih hq.2) ?_
    split
    · rename_i hl
      rw [Bool.and_eq_true] at hl
      rw [if_pos (live_of_accepted hs hq.1 (of_decide_eq_true hl.1) hl.2)]
    · exact Nat.zero_le _

/-- **The mail server accepts at most one message per job** in every run in which no `QUIT` fails
after the message was accepted. -/
theorem accepted_once (P : Platform) (C : Settings) (S : SMTPEmailSender) {W₀ : World}
    (h₀ : W₀.Untried) {pool : (workers P C fun _ _ _ _ => True).Pool}
    (h : System.Reachable W₀ pool) {ds : List Dialogue}
    (hds : List.Forall₂ (Send.Of S) pool.shared.sends ds)
    (hq : ∀ d ∈ ds, S.accepted d = true → d .quit = none) (J : UUID) :
    acceptedFor S J (pool.shared.sends.zip ds) ≤ 1 :=
  (acceptedFor_le hds hq).trans (((mail_ok P C).sound (mailed_untried h₀) h).inv.2.once J)

/-- The server cannot be reached at first, and takes the message of the second attempt. -/
theorem accepted_once_retried :
    ∃ pool : (workers .plain {} fun _ _ _ _ => True).Pool,
      System.Reachable (World.fresh Db.submitted) pool ∧ pool.shared.sends.length = 2 ∧
      acceptedFor ⟨false, none⟩ 2 (pool.shared.sends.zip
        [fun stage => if stage = .connect then some "111" else none, fun _ => none]) ≤ 1 := by
  let moves : List (System.Move UUID Choice Nat) :=
    [.start 0 2, .ops 0 (List.replicate 9 { uuid := 3 } ++ { raises := some "111" } ::
      List.replicate 5 { uuid := 4 }), .finish 0,
      .start 1 2, .ops 1 (List.replicate 15 { uuid := 5 }), .finish 1]
  let message : EmailMessage := ⟨"a@b.c", "s", "b", messageId 2⟩
  obtain ⟨pool, hsteps, hobs⟩ := (workersPlayer .plain {}
    (fun _ _ _ _ => true) fun _ _ _ _ _ => trivial).replay_map moves
    (.init (World.fresh Db.submitted)) (fun pool => pool.shared.sends)
    (b := [⟨0, message, .raised "111"⟩, ⟨1, message, .returned⟩]) (by decide +kernel)
  refine ⟨pool, hsteps, by rw [hobs]; rfl, accepted_once .plain {} ⟨false, none⟩
    World.untried_submitted hsteps (by rw [hobs]; exact .cons rfl (.cons rfl .nil)) ?_ 2⟩
  rw [List.forall_mem_cons, List.forall_mem_singleton]
  exact ⟨fun _ => rfl, fun _ => rfl⟩

/-- The connection is lost at `QUIT` after the message was accepted: the job is retried, and a
second message accepted. -/
theorem quit_failure_resends :
    ¬ ∀ (P : Platform) (C : Settings) (S : SMTPEmailSender) (W₀ : World) (_ : W₀.Untried)
      (pool : (workers P C fun _ _ _ _ => True).Pool) (_ : System.Reachable W₀ pool)
      (ds : List Dialogue) (_ : List.Forall₂ (Send.Of S) pool.shared.sends ds) (J : UUID),
      acceptedFor S J (pool.shared.sends.zip ds) ≤ 1 := by
  intro hall
  let S : SMTPEmailSender := ⟨false, none⟩
  let lost : Dialogue := fun stage => if stage = .quit then some "421" else none
  let moves : List (System.Move UUID Choice Nat) :=
    [.start 0 2, .ops 0 (List.replicate 9 { uuid := 3 } ++ { raises := some "421" } ::
      List.replicate 5 { uuid := 4 }), .finish 0,
      .start 1 2, .ops 1 (List.replicate 15 { uuid := 5 }), .finish 1]
  let message : EmailMessage := ⟨"a@b.c", "s", "b", messageId 2⟩
  obtain ⟨pool, hsteps, hobs⟩ := (workersPlayer .plain {}
    (fun _ _ _ _ => true) fun _ _ _ _ _ => trivial).replay_map moves
    (.init (World.fresh Db.submitted)) (fun pool => pool.shared.sends)
    (b := [⟨0, message, .raised "421"⟩, ⟨1, message, .returned⟩]) (by decide +kernel)
  have hle := hall .plain {} S _ World.untried_submitted pool hsteps [lost, fun _ => none]
    (by rw [hobs]; exact .cons rfl (.cons rfl .nil)) 2
  rw [hobs] at hle
  exact absurd hle (by decide +kernel)

end Ticketing
