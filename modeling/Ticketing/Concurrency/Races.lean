import Ticketing.Concurrency.Records
import Ticketing.Services.Auth
import Ticketing.Services.BackgroundJob

/-!
# Lost uniqueness races

The eight operations that insert under a unique constraint, at once (`RacingCall`). Where a value
is found taken only when the statement is sent, `IntegrityError` is raised; most operations have a
handler around the flush or the commit that can meet it, which raises an error of the service or
replays the winner's result. `invite` and `assign_roles` have none.

* `Key.handled` are the values some handler is for, and `handledLosses` the runs in which no
  statement is refused for another.
* `Lost`: the thread was refused a value. `Settled`: it ends with a replay or an error of its
  service, unless the database fails it after that or its task is cancelled (`Failed`).
* Each call is walked once (`ends_prog`), with what its trace says of a race. That a replay finds
  the winner's row is then a fact about the run, as no call takes such a row away (`not_missed`,
  `KeepsKeys`), and so is that the handler's queries find a session that works (`not_stuck`).

Results:
* `noCommit_of_lost`: a call that has lost a race commits nothing.
* `lost_races_are_answered`: in such a run a lost race ends with a replay or an error of the
  service, and commits nothing; no call ends with `IntegrityError`.
* `invitation_race_escapes`: a run outside them, in which two invitations of one user race and one
  of them ends with it.

Left out: foreign keys and check constraints, whose violation is an `IntegrityError` as well.
-/

namespace Ticketing

open Lib (Prog Store System)

/-! ## The services' errors -/

namespace Exn

/-- The subclasses of `AuthServiceError`. -/
def isAuthServiceError : Exn → Bool
  | emailAlreadyRegistered | invalidCredentials | invalidToken | invalidCurrentPassword
  | passwordUnchanged => true
  | _ => false

/-- The subclasses of `TenantServiceError`. -/
def isTenantServiceError : Exn → Bool
  | tenantNotFound | tenantSlugConflict | invitationConflict | invitationNotPending
  | membershipNotActive | ownerCannotLeave | invitedUserNotFound => true
  | _ => false

/-- The subclasses of `CustomerServiceError`. -/
def isCustomerServiceError : Exn → Bool
  | customerNotFound | customerEmailConflict => true
  | _ => false

/-- The subclasses of `BackgroundJobServiceError`. -/
def isBackgroundJobServiceError : Exn → Bool
  | backgroundJobNotFound | backgroundJobIdempotencyConflict | ticketNotificationRecipientNotFound
  | backgroundJobResultNotReady => true
  | _ => false

end Exn

/-! ## The calls -/

/-- The calls that insert or update under a unique constraint. -/
inductive RacingCall
  | register (email password : String)
  | createTenant (owner : User) (name slug : String)
  | invite (context : CurrentTenant) (email : String)
  | createCustomer (context : CurrentTenant) (name email : String) (phone : Option String)
  | updateCustomer (context : CurrentTenant) (customerId : UUID) (changes : CustomerChanges)
  | createTicket (context : CurrentTenant) (r : CreationRequest) (idempotencyKey : String)
  | submitEmailNotification (context : CurrentTenant) (ticketId : UUID) (idempotencyKey : String)
  | submitTicketExport (context : CurrentTenant) (status : Option TicketStatus)
      (priority : Option TicketPriority) (idempotencyKey : String)
  | assignRoles (tenantId membershipId : UUID) (roleIds : List UUID)
  deriving DecidableEq

namespace RacingCall

abbrev Ret : RacingCall → Type
  | register .. => User
  | createTenant .. => CurrentTenant
  | invite .. => Membership
  | createCustomer .. | updateCustomer .. => Customer
  | createTicket .. => TicketCreationResult
  | submitEmailNotification .. | submitTicketExport .. => BackgroundJobSubmission
  | assignRoles .. => Unit

def prog (P : Platform) (X : Security) (B : BackgroundJobService) :
    (c : RacingCall) → Service c.Ret
  | register email password => AuthService.register P X email password
  | createTenant owner name slug => TenantService.create P owner name slug
  | invite context email => TenantService.invite P B.rbac context email
  | createCustomer context name email phone => CustomerService.create P context name email phone
  | updateCustomer context id changes => CustomerService.update P context id changes
  | createTicket context r key => TicketService.create P B.rbac context r key
  | submitEmailNotification context id key => B.submitEmailNotification P context id key
  | submitTicketExport context status priority key =>
    B.submitTicketExport P context status priority key
  | assignRoles tenantId membershipId roleIds =>
    B.rbac.assignRoles tenantId membershipId roleIds

def ticketErrors (e : Exn) : Bool := e.isTicketServiceError || e = .customerNotFound

def jobErrors (e : Exn) : Bool := e.isBackgroundJobServiceError || e = .ticketNotFound

def roleErrors (e : Exn) : Bool := e = .roleNotFound || e = .ownerAdminRoleRequired

/-- The errors that the router of the call maps to a response. -/
def declared : RacingCall → Exn → Bool
  | register .. => Exn.isAuthServiceError
  | createTenant .. | invite .. => Exn.isTenantServiceError
  | createCustomer .. | updateCustomer .. => Exn.isCustomerServiceError
  | createTicket .. => ticketErrors
  | submitEmailNotification .. | submitTicketExport .. => jobErrors
  | assignRoles .. => roleErrors

/-- The result is a replay. -/
def replayed : (c : RacingCall) → c.Ret → Bool
  | createTicket .., r => TicketCreationResult.replayed r
  | submitEmailNotification .., r | submitTicketExport .., r => BackgroundJobSubmission.replayed r
  | _, _ => false

end RacingCall

def racingCalls (P : Platform) (X : Security) (B : BackgroundJobService) : Calls where
  Call := RacingCall
  Ret := RacingCall.Ret
  prog := RacingCall.prog P X B

/-! ## Races -/

/-- A unique value whose loss some handler is for. -/
def Key.handled : Key → Bool
  | .row t _ => t = .users || t = .tenants || t = .customers
  | .userEmail _ | .tenantSlug _ | .customerEmail .. => true
  | .ticketCreationKey .. | .backgroundJobKey .. => true
  | _ => false

/-- The unique values of a statement whose loss nobody handles. -/
def Op.unhandled : Op → List Key
  | .write w => w.fresh.filter fun k => !k.handled
  | _ => []

/-- Runs in which they are never taken. -/
def handledLosses : Admission := fun i W o _ =>
  ∀ k ∈ o.unhandled, Db.present k (W.store.view schema i) = false

instance instDecidableHandledLosses (i : Nat) (W : World) (o : Op) (c : Choice) :
    Decidable (handledLosses i W o c) :=
  inferInstanceAs (Decidable (∀ k ∈ _, _ = false))

/-- The tables whose rows are looked up after a lost race. -/
def keyTables : List Table := [.ticketCreationKeys, .backgroundJobs]

namespace Races

/-- A statement was refused for a unique value. -/
def Lost (t : Trace) : Prop := ∃ w, ⟨.write w, .error .integrityError⟩ ∈ t

/-- The database has failed an operation with this exception, or the task was cancelled. -/
def Failed (e : Exn) (t : Trace) : Prop :=
  (e = .databaseError ∨ e = .cancelled) ∧ ∃ o, ⟨o, .error e⟩ ∈ t

/-- No commit was tried. -/
def Untried (t : Trace) : Prop := ∀ r, ⟨.commit, r⟩ ∉ t

/-- A write that takes no row of the key tables away. -/
def Keeps (w : Write) : Prop := w.table ∈ keyTables → ∃ t row, w = .insert t row

/-- What an operation answers: only a statement that adds a handled value is refused for one. -/
def Answers : (o : Op) → Except Exn o.Res → Prop
  | .write w, r => ∀ e, r = .error e → e.isOutside = true ∨
      e = .integrityError ∧ ∃ k ∈ w.fresh, k.handled = true
  | .select _, r => ∀ e, r = .error e → e = .pendingRollback ∨ e = .databaseError ∨ e = .cancelled
  | .rollback, r => ∀ e, r = .error e → e = .cancelled
  | _, r => ∀ e, r = .error e → e.isOutside = true

/-- Nothing is written after a commit, and nothing is committed after a lost race. -/
def Careful : Trace → Op → Prop
  | t, .commit => ¬Lost t
  | t, .write w => Untried t ∧ Keeps w
  | _, _ => True

/-- The call has lost no race and tried no commit, and has sent nothing to the key tables. -/
structure Early (t : Trace) : Prop where
  kept : ¬Lost t
  untried : Untried t
  unkeyed : ∀ w ∈ written t, w.table ∉ keyTables

/-- The call has lost no race and tried no commit. -/
structure Begun (t : Trace) : Prop where
  kept : ¬Lost t
  untried : Untried t

/-- The call was refused a statement that adds, of the values whose loss is handled, only `k`. -/
def Refused (k : Key) (t : Trace) : Prop := ∃ u w, t = u ++ [⟨.write w, .error .integrityError⟩] ∧
  Early u ∧ Keeps w ∧ ∀ k' ∈ w.fresh, k'.handled = true → k' = k

/-- A call that has lost the race for `k` did not find who has won it. -/
def Missed (t : Trace) : Prop := ∃ (u : Trace) (k : Key) (r : Except Exn Unit) (β : Type)
  (q : Db → Option β), t = u ++ [⟨.rollback, r⟩, ⟨.select q, .ok none⟩] ∧ Refused k u ∧
    k.table ∈ keyTables ∧ ∀ db, q db = none → Db.present k db = false

/-- The call has rolled back and read since. -/
inductive Rolled : Trace → Prop
  | rollback (t : Trace) : Rolled (t ++ [⟨.rollback, .ok ()⟩])
  | select {t : Trace} (h : Rolled t) {β : Type} (q : Db → β) (b : β) :
    Rolled (t ++ [⟨.select q, .ok b⟩])

/-- A query was refused because of an earlier failure, in a session that was rolled back. -/
def Stuck (t : Trace) : Prop := ∃ (u : Trace) (β : Type) (q : Db → β),
  t = u ++ [⟨.select q, .error .pendingRollback⟩] ∧ Rolled u

/-- What an exception that ends a call says of its trace. -/
structure Fine (declared : Exn → Bool) (e : Exn) (t : Trace) : Prop where
  integrity : e = .integrityError → Missed t
  lost : Lost t → Failed e t ∨ Stuck t ∨ e = .integrityError ∨ declared e = true

variable {t u : Trace} {o : Op} {e : Exn} {w : Write} {α β : Type}

theorem Answers.outside {r : Except Exn o.Res} (h : Answers o r) (ho : ∀ w, o ≠ .write w)
    (hr : r = .error e) : e.isOutside = true := by
  cases o with
  | write w => exact absurd rfl (ho w)
  | select q => rcases h e hr with rfl | rfl | rfl <;> rfl
  | rollback => rw [h e hr]; rfl
  | _ => exact h e hr

theorem ne_integrityError (h : e.isOutside = true) : e ≠ .integrityError := by
  rintro rfl
  cases h

theorem lost_snoc {x : Σ o : Op, Except Exn o.Res} :
    Lost (t ++ [x]) ↔ Lost t ∨ ∃ w, x = ⟨.write w, .error .integrityError⟩ := by
  simp only [Lost, List.mem_append, List.mem_singleton, exists_or, eq_comm]

theorem untried_snoc {x : Σ o : Op, Except Exn o.Res} (h : Untried t) (hx : x.1 ≠ .commit) :
    Untried (t ++ [x]) := by
  intro r hr
  rcases List.mem_append.mp hr with hr | hr
  · exact h r hr
  · rw [← List.mem_singleton.mp hr] at hx
    exact hx rfl

/-- A stage of a call before it has lost a race; it stays there while it reads. -/
structure Stage (J : Trace → Prop) : Prop where
  kept : ∀ t, J t → ¬Lost t
  reading : ∀ t (o : Op) (r : Except Exn o.Res), J t → o.Reading → J (t ++ [⟨o, r⟩])

theorem kept_reading (h : ¬Lost t) (ho : o.Reading) (r : Except Exn o.Res) :
    ¬Lost (t ++ [⟨o, r⟩]) := by
  rw [lost_snoc]
  rintro (h' | ⟨w, hw⟩)
  · exact h h'
  · obtain ⟨rfl, -⟩ := Sigma.mk.inj hw
    exact ho

theorem untried_reading (h : Untried t) (ho : o.Reading) (r : Except Exn o.Res) :
    Untried (t ++ [⟨o, r⟩]) := untried_snoc h fun hx => by
  rw [show o = .commit from hx] at ho
  exact ho

theorem written_snoc_reading (ho : o.Reading) (r : Except Exn o.Res) :
    written (t ++ [⟨o, r⟩]) = written t := by
  have hnone : o.write? = none := by cases o <;> first | exact ho.elim | rfl
  rw [written_append, show written [⟨o, r⟩] = [] by simp [written, hnone], List.append_nil]

theorem stage_early : Stage Early :=
  ⟨fun _ h => h.kept, fun t o r h ho => ⟨kept_reading h.kept ho r, untried_reading h.untried ho r,
    by rw [written_snoc_reading ho]; exact h.unkeyed⟩⟩

theorem stage_kept : Stage fun t => ¬Lost t := ⟨fun _ h => h, fun _ _ r h ho => kept_reading h ho r⟩

/-! ## Before a race is lost -/

/-- From the stage `J` on, `p` comes to the stage `J'`, or raises: `IntegrityError` only where it
has lost a race as `R` says. -/
def Walk (R J : Trace → Prop) (p : Service α) (J' : Trace → Prop) : Prop :=
  ∀ t, J t → p.Safe Answers Careful (fun _ => J')
    (fun e v => e ≠ .integrityError ∧ ¬Lost v ∨ e = .integrityError ∧ R v) t

section Walk

variable {R J J' J'' : Trace → Prop}

theorem Walk.ret (a : α) : Walk R J (pure a : Service α) J := fun _ h => h

theorem Walk.bind {p : Service α} {f : α → Service β} (hp : Walk R J p J')
    (hf : ∀ a, Walk R J' (f a) J'') : Walk R J (p.bind f) J'' := fun t ht =>
  .bind ((hp t ht).mono (fun a v h => hf a v h) fun _ _ h => h)

theorem Walk.raise (hJ : Stage J) (he : e ≠ .integrityError) : Walk R J (throw e : Service α) J' :=
  fun t ht => .inl ⟨he, hJ.kept t ht⟩

/-- Reading. -/
theorem Walk.quiet (hJ : Stage J) {p : Service α} (hp : Service.Quiet (· ≠ .integrityError) p) :
    Walk R J p J := by
  intro t ht
  induction p generalizing t with
  | ret a => exact ht
  | raise e => exact .inl ⟨hp, hJ.kept t ht⟩
  | op o k ih =>
    obtain ⟨ho, herr, hok⟩ := hp
    refine ⟨?_, fun r hr => ?_⟩
    · cases o <;> first | exact ho.elim | trivial
    · have hnext := hJ.reading t o r ht ho
      cases r with
      | ok a => exact ih _ (hok a) _ hnext
      | error e =>
        rw [herr e]
        refine .inl ⟨ne_integrityError (hr.outside ?_ rfl), hJ.kept _ hnext⟩
        rintro w rfl
        exact ho

/-- A statement. -/
theorem Walk.write (hJ : ∀ t, J t → Begun t) (hw : Keeps w) (hJ' : ∀ t, J t → J' (t ++ [w.sent]))
    (hR : (∃ k ∈ w.fresh, k.handled = true) → ∀ t, J t →
      R (t ++ [⟨.write w, .error .integrityError⟩])) :
    Walk R J (Prog.perform (Op.write w)) J' := by
  intro t ht
  refine ⟨⟨(hJ t ht).untried, hw⟩, fun r hr => ?_⟩
  cases r with
  | ok a => exact hJ' t ht
  | error e =>
    by_cases he : e = .integrityError
    · subst he
      exact .inr ⟨rfl, hR ((hr _ rfl).resolve_left (by decide)).2 t ht⟩
    · refine .inl ⟨he, ?_⟩
      rw [lost_snoc]
      rintro (h | ⟨w', hw'⟩)
      · exact (hJ t ht).kept h
      · cases hw'
        exact he rfl

theorem begun_sent (h : Begun t) (w : Write) : Begun (t ++ [w.sent]) where
  kept := by
    rw [lost_snoc]
    rintro (h' | ⟨w', hw'⟩)
    · exact h.kept h'
    · cases hw'
  untried := untried_snoc h.untried (by rintro ⟨⟩)

theorem early_sent (h : Early t) (hw : w.table ∉ keyTables) : Early (t ++ [w.sent]) where
  kept := (begun_sent ⟨h.kept, h.untried⟩ w).kept
  untried := (begun_sent ⟨h.kept, h.untried⟩ w).untried
  unkeyed w' hw' := by
    rw [written_append, List.mem_append] at hw'
    rcases hw' with hw' | hw'
    · exact h.unkeyed w' hw'
    · obtain rfl : w' = w := by simpa [written, Op.write?] using hw'
      exact hw

theorem Early.begun (h : Early t) : Begun t := ⟨h.kept, h.untried⟩

/-- A statement to another table, none of whose values anybody handles the loss of. -/
theorem Walk.other (ht : w.table ∉ keyTables) (hk : ∀ k ∈ w.fresh, k.handled = false) :
    Walk R Early (Prog.perform (Op.write w)) Early :=
  .write (fun _ h => h.begun) (fun h => absurd h ht) (fun _ h => early_sent h ht)
    fun ⟨k, hmem, hk'⟩ => by
      rw [hk k hmem] at hk'
      cases hk'

/-- A statement to another table. -/
theorem Walk.tried (ht : w.table ∉ keyTables) :
    Walk (fun _ => True) Early (Prog.perform (Op.write w)) Early :=
  .write (fun _ h => h.begun) (fun h => absurd h ht) (fun _ h => early_sent h ht)
    fun _ _ _ => trivial

theorem Walk.commit (hJ : ∀ t, J t → ¬Lost t) : Walk R J Service.commit fun t => ¬Lost t := by
  intro t ht
  have hkept (r : Except Exn Unit) : ¬Lost (t ++ [⟨.commit, r⟩]) := by
    rw [lost_snoc]
    rintro (h | ⟨w, hw⟩)
    · exact hJ t ht h
    · cases hw
  refine ⟨hJ t ht, fun r hr => ?_⟩
  cases r with
  | ok a => exact hkept _
  | error e => exact .inl ⟨ne_integrityError (hr.outside (by rintro w ⟨⟩) rfl), hkept _⟩

end Walk

/-! ## Whole calls -/

/-- From the stage `J` on, `p` ends well: with a `good` result where it has lost a race, and with no
exception that is not `Fine`. -/
def Ends (good : α → Prop) (declared : Exn → Bool) (J : Trace → Prop) (p : Service α) : Prop :=
  ∀ t, J t → p.Safe Answers Careful (fun a v => Lost v → good a) (Fine declared) t

section Ends

variable {J J' : Trace → Prop} {good : β → Prop} {declared : Exn → Bool}

theorem fine_kept (he : e ≠ .integrityError) (ht : ¬Lost t) : Fine declared e t :=
  ⟨fun h => absurd h he, fun h => absurd h ht⟩

/-- The rollback of a call that has lost its race fails. -/
theorem fine_rollback (h : Answers .rollback (.error e)) :
    Fine declared e (t ++ [⟨.rollback, .error e⟩]) := by
  obtain rfl := h e rfl
  exact ⟨by rintro ⟨⟩, fun _ => .inl ⟨.inr rfl, _, List.mem_append_right _ (.head _)⟩⟩

/-- A query of a call that has lost its race fails. -/
theorem fine_select {q : Db → α} (ht : Rolled t) (h : Answers (.select q) (.error e)) :
    Fine declared e (t ++ [⟨.select q, .error e⟩]) := by
  have hmem : ∃ o, ⟨o, .error e⟩ ∈ t ++ [⟨.select q, .error e⟩] :=
    ⟨_, List.mem_append_right _ (.head _)⟩
  rcases h e rfl with rfl | rfl | rfl
  · exact ⟨by rintro ⟨⟩, fun _ => .inr (.inl ⟨t, α, q, rfl, ht⟩)⟩
  · exact ⟨by rintro ⟨⟩, fun _ => .inl ⟨.inl rfl, hmem⟩⟩
  · exact ⟨by rintro ⟨⟩, fun _ => .inl ⟨.inr rfl, hmem⟩⟩

/-- A declared error. -/
theorem fine_declared (hd : declared e = true) (he : e ≠ .integrityError) : Fine declared e t :=
  ⟨fun h => absurd h he, fun _ => .inr (.inr (.inr hd))⟩

theorem Ends.bind {p : Service α} {f : α → Service β} (hp : Walk (fun _ => False) J p J')
    (hf : ∀ a, Ends good declared J' (f a)) : Ends good declared J (p.bind f) := fun t ht =>
  .bind ((hp t ht).mono (fun a v h => hf a v h) fun e v h => by
    rcases h with ⟨he, hv⟩ | ⟨-, hv⟩
    · exact fine_kept he hv
    · exact hv.elim)

/-- A call that loses no race. -/
theorem Ends.of_walk {p : Service β} (hp : Walk (fun _ => False) J p fun t => ¬Lost t) :
    Ends good declared J p := by
  refine fun t ht => (hp t ht).mono (fun _ _ h hl => absurd hl h) fun e v h => ?_
  rcases h with ⟨he, hv⟩ | ⟨-, hv⟩
  · exact fine_kept he hv
  · exact hv.elim

/-- `try … except IntegrityError`, and what comes after it. -/
theorem Ends.guarded {R : Trace → Prop} {body handler : Service α} {f : α → Service β}
    (hbody : Walk R J body J')
    (hhandler : ∀ t, R t → handler.Safe Answers Careful
      (fun a v => (f a).Safe Answers Careful (fun b v => Lost v → good b) (Fine declared) v)
      (Fine declared) t)
    (hf : ∀ a, Ends good declared J' (f a)) :
    Ends good declared J ((Service.exceptIntegrityError body handler).bind f) := fun t ht =>
  .bind (.handle ((hbody t ht).mono (fun a v h => hf a v h) fun e v h => by
    rcases h with ⟨he, hv⟩ | ⟨rfl, hv⟩
    · rw [if_neg he]
      exact fine_kept he hv
    · rw [if_pos rfl]
      exact hhandler v hv))

/-- A handler that raises an error of the service. -/
theorem safe_raise {B : α → Trace → Prop} (hd : declared e = true) (he : e ≠ .integrityError)
    (t : Trace) : (Service.rollback.bind fun _ => (throw e : Service α)).Safe Answers Careful B
      (Fine declared) t := by
  refine ⟨trivial, fun r hr => ?_⟩
  rcases r with e' | _
  · exact fine_rollback hr
  · exact fine_declared hd he

/-- A handler that looks up the winner. -/
theorem safe_lookup {B : β → Trace → Prop} {q : Db → Option α} {g : Option α → Service β} {k : Key}
    (hk : k.table ∈ keyTables) (hq : ∀ db, q db = none → Db.present k db = false)
    (hnone : g none = throw .integrityError)
    (hsome : ∀ a t, Rolled t → (g (some a)).Safe Answers Careful B (Fine declared) t)
    (ht : Refused k t) :
    (Service.rollback.bind fun _ => (Service.select q).bind g).Safe Answers Careful B
      (Fine declared) t := by
  refine ⟨trivial, fun r hr => ?_⟩
  rcases r with e | _
  · exact fine_rollback hr
  refine ⟨trivial, fun r hr => ?_⟩
  rcases r with e | _ | a
  · exact fine_select (.rollback t) hr
  · show (g none).Safe Answers Careful B (Fine declared) _
    rw [hnone]
    exact ⟨fun _ => ⟨t, k, .ok (), α, q, by simp, ht, hk, hq⟩, fun _ => .inr (.inr (.inl rfl))⟩
  · exact hsome a _ (.select (.rollback t) q (some a))

/-- A check that may raise. -/
theorem Ends.check (hJ : Stage J) {c : Prop} [Decidable c] (he : e ≠ .integrityError)
    {p : Service β} (hp : Ends good declared J p) :
    Ends good declared J (if c then throw e else p) := by
  split
  · exact .of_walk (.raise hJ he)
  · exact hp

/-- A call that only reads from now on. -/
theorem Ends.quiet (hJ : Stage J) {p : Service β} (hp : Service.Quiet (· ≠ .integrityError) p) :
    Ends good declared J p := .of_walk fun t ht =>
  (Walk.quiet hJ hp t ht).mono (fun _ v h => hJ.kept v h) fun _ _ h => h

/-- The end of a call after its commit. -/
theorem Ends.commit {f : Unit → Service β} (hJ : ∀ t, J t → ¬Lost t)
    (hf : Service.Quiet (· ≠ .integrityError) (f ())) :
    Ends good declared J (Service.commit.bind f) :=
  .of_walk (.bind (.commit hJ) fun _ => .quiet stage_kept hf)

end Ends

/-! ## The calls -/

section Calls

variable (P : Platform) (X : Security) (B : BackgroundJobService)

theorem quiet_refresh (t : Table) (id : UUID) :
    Service.Quiet (· ≠ .integrityError) (Service.refresh t id) :=
  Service.quiet_refresh t id (by decide)

theorem ends_register {good : User → Prop} (email password : String) :
    Ends good Exn.isAuthServiceError Early (AuthService.register P X email password) := by
  refine .bind (.quiet stage_early (Service.quiet_select _)) fun existing => ?_
  refine .check stage_early (by decide) ?_
  refine .bind (.quiet stage_early Service.quiet_uuid4) fun salt => ?_
  refine .bind (.quiet stage_early Service.quiet_uuid4) fun id => ?_
  refine .guarded (.bind (.tried ?_) fun _ => .commit fun _ h => h.kept)
    (fun t _ => safe_raise rfl (by decide) t) fun _ => .quiet stage_kept (quiet_refresh _ _)
  show Table.users ∉ keyTables
  decide

/-- The tables none of whose values anybody handles the loss of. -/
def otherTables : List Table :=
  [.memberships, .roles, .rolePermissions, .membershipRoles, .tickets, .ticketEvents,
    .outboxMessages]

theorem unhandled_keys {t : Table} (ht : t ∈ otherTables) (row : t.Row) :
    ∀ k ∈ t.keys row, k.handled = false := by
  simp only [otherTables, List.mem_cons, List.not_mem_nil, or_false] at ht
  rcases ht with rfl | rfl | rfl | rfl | rfl | rfl | rfl <;>
    simp [Table.keys, Table.uniques, Key.handled]

theorem otherTables_not_key {t : Table} (ht : t ∈ otherTables) : t ∉ keyTables := by
  cases t <;> revert ht <;> decide

theorem walk_insert {R : Trace → Prop} {t : Table} (ht : t ∈ otherTables) (row : t.Row) :
    Walk R Early (Service.insert t row) Early :=
  .other (otherTables_not_key ht) (unhandled_keys ht row)

theorem walk_insert_begun {R : Trace → Prop} {t : Table} (ht : t ∈ otherTables) (row : t.Row) :
    Walk R Begun (Service.insert t row) Begun :=
  .write (fun _ h => h) (fun _ => ⟨t, row, rfl⟩) (fun _ h => begun_sent h _)
    fun ⟨k, hmem, hk⟩ => by
      rw [unhandled_keys ht row k hmem] at hk
      cases hk

theorem walk_insertAll {R : Trace → Prop} {t : Table} (ht : t ∈ otherTables) (rows : List t.Row) :
    Walk R Early (RBACService.insertAll t rows) Early := by
  induction rows with
  | nil => exact .ret _
  | cons row rows ih => exact .bind (walk_insert ht row) fun _ => ih

theorem walk_provisionDefaults {R : Trace → Prop} (tenant : Tenant) (membership : Membership) :
    Walk R Early (RBACService.provisionDefaults tenant membership) Early := by
  have draw : Walk R Early Service.uuid4 Early := .quiet stage_early Service.quiet_uuid4
  have hgrant (permissions : PermissionCode → Option Permission) (roleId : UUID)
      (codes : List PermissionCode) := Walk.quiet (R := R) stage_early
    (RBACService.quiet_grantAll (ρ := (· ≠ .integrityError)) (by decide) permissions roleId codes)
  refine .bind (.quiet stage_early (RBACService.quiet_permissionsByCode (by decide) ?_))
    fun permissions => ?_
  · rintro message ⟨⟩
  refine .bind draw fun admin => .bind draw fun agent => .bind draw fun requester => ?_
  refine .bind (walk_insertAll (by decide) _) fun _ => ?_
  refine .bind (hgrant _ _ _) fun adminGrants => .bind (hgrant _ _ _) fun agentGrants => ?_
  exact .bind draw fun id => .ret _

theorem ends_createTenant {good : CurrentTenant → Prop} (owner : User) (name slug : String) :
    Ends good Exn.isTenantServiceError Early (TenantService.create P owner name slug) := by
  refine .bind (.quiet stage_early (Service.quiet_select _)) fun taken => ?_
  refine .check stage_early (by decide) ?_
  refine .bind (.quiet stage_early (.perform trivial)) fun now => ?_
  refine .bind (.quiet stage_early Service.quiet_uuid4) fun id => ?_
  refine .guarded (.tried ?_) (fun t _ => safe_raise rfl (by decide) t) fun _ => ?_
  · show Table.tenants ∉ keyTables
    decide
  refine .bind (.quiet stage_early Service.quiet_uuid4) fun id => ?_
  refine .bind (walk_insert (by decide) _) fun _ => ?_
  refine .bind (walk_provisionDefaults _ _) fun p => ?_
  obtain ⟨assigned, grants⟩ := p
  refine .bind (walk_insert (by decide) _) fun _ => ?_
  refine .bind (walk_insertAll (by decide) _) fun _ => ?_
  exact .commit (fun _ h => h.kept)
    (.bind (quiet_refresh _ _) fun _ => .bind (quiet_refresh _ _) fun _ => trivial)

theorem walk_delete {R : Trace → Prop} (t : Table) (p : t.Row → Bool) (ht : t ∉ keyTables) :
    Walk R Early (Service.delete t p) Early :=
  .bind (.quiet stage_early (Service.quiet_select _)) fun _ =>
    .other ht fun _ hk => absurd hk List.not_mem_nil

theorem walk_resetToRequester {R : Trace → Prop} (tenantId : UUID) (membership : Membership) :
    Walk R Early (RBACService.resetToRequester tenantId membership) Early := by
  refine .bind (.quiet stage_early (Service.quiet_select _)) fun role => ?_
  cases role with
  | none => exact .raise stage_early (by decide)
  | some role =>
    refine .bind (walk_delete .membershipRoles _ (by decide)) fun _ => ?_
    exact .bind (.quiet stage_early Service.quiet_uuid4) fun id => .ret _

theorem ends_invited {good : Membership → Prop} (tenantId : UUID) (m : Membership) :
    Ends good Exn.isTenantServiceError Early (do
      let assigned ← RBACService.resetToRequester tenantId m
      Service.insert .membershipRoles assigned
      Service.commit
      B.rbac.invalidatePermissions tenantId m.id
      Service.refresh .memberships m.id) := by
  refine .bind (walk_resetToRequester _ _) fun assigned => ?_
  refine .bind (walk_insert (by decide) _) fun _ => ?_
  exact .commit (fun _ h => h.kept)
    (.bind (B.rbac.quiet_invalidatePermissions _ _) fun _ => quiet_refresh _ _)

theorem ends_invite {good : Membership → Prop} (context : CurrentTenant) (email : String) :
    Ends good Exn.isTenantServiceError Early
      (TenantService.invite P B.rbac context email) := by
  refine .bind (.quiet stage_early (Service.quiet_select _)) fun found => ?_
  cases found with
  | none => exact .of_walk (.raise stage_early (by decide))
  | some user =>
    refine .bind (.quiet stage_early (.perform trivial)) fun existing => ?_
    rcases existing with _ | loaded
    · refine .bind (.quiet stage_early Service.quiet_uuid4) fun id => ?_
      exact .bind (walk_insert (by decide) _) fun _ => ends_invited B _ _
    · show Ends _ _ _ (if _ then _ else _)
      split
      · refine .bind ?_ fun _ => ends_invited B _ _
        unfold Service.update
        split
        · exact .ret _
        · refine .other (w := .update .memberships _ _) ?_ fun k hk => ?_
          · show Table.memberships ∉ keyTables
            decide
          · exact absurd hk (by simp [Write.fresh, Table.uniques, Table.patch])
      · exact .of_walk (.raise stage_early (by decide))

theorem ends_assignRoles {good : Unit → Prop} (tenantId membershipId : UUID) (roleIds : List UUID) :
    Ends good RacingCall.roleErrors Early
      (B.rbac.assignRoles tenantId membershipId roleIds) := by
  refine .bind (.quiet stage_early (Service.quiet_select _)) fun tenant => ?_
  refine .bind (.quiet stage_early (Service.quiet_select _)) fun membership => ?_
  rcases tenant with _ | tenant
  · exact .of_walk (.raise stage_early (by decide))
  rcases membership with _ | membership
  · exact .of_walk (.raise stage_early (by decide))
  refine .check stage_early (by decide) ?_
  refine .bind (.quiet stage_early (Service.quiet_select _)) fun roles => ?_
  refine .check stage_early (by decide) (.check stage_early (by decide) ?_)
  refine .bind (walk_delete .membershipRoles _ (by decide)) fun _ => ?_
  refine .bind (.quiet stage_early (RBACService.quiet_addMembershipRoles _ _)) fun rows => ?_
  refine .bind (walk_insertAll (by decide) _) fun _ => ?_
  exact .commit (fun _ h => h.kept) (B.rbac.quiet_invalidatePermissions _ _)

theorem ends_createCustomer {good : Customer → Prop} (context : CurrentTenant)
    (name email : String) (phone : Option String) :
    Ends good Exn.isCustomerServiceError Early
      (CustomerService.create P context name email phone) := by
  refine .bind (.quiet stage_early (Service.quiet_select _)) fun existing => ?_
  refine .check stage_early (by decide) ?_
  refine .bind (.quiet stage_early Service.quiet_uuid4) fun id => ?_
  refine .guarded (.bind (.tried ?_) fun _ => .commit fun _ h => h.kept)
    (fun t _ => safe_raise rfl (by decide) t) fun _ => .quiet stage_kept (quiet_refresh _ _)
  show Table.customers ∉ keyTables
  decide

theorem ends_updateCustomer {good : Customer → Prop} (context : CurrentTenant) (customerId : UUID)
    (changes : CustomerChanges) : Ends good Exn.isCustomerServiceError Early
      (CustomerService.update P context customerId changes) := by
  refine .bind (.quiet stage_early (CustomerService.quiet_get _ _)) fun loaded => ?_
  refine .bind (.quiet stage_early (CustomerService.quiet_changeEmail P _ _ _)) fun customer => ?_
  refine .bind (.quiet stage_early (Service.quiet_changeField (by decide) fun _ => trivial))
    fun customer => ?_
  refine .bind (.quiet stage_early (Service.quiet_changeField (by decide) fun _ => trivial))
    fun customer => ?_
  have hupdate : Walk (fun _ => True) Early (Service.update .customers loaded customer) Early := by
    unfold Service.update
    split
    · exact .ret _
    · refine .tried (w := .update .customers _ _) ?_
      show Table.customers ∉ keyTables
      decide
  exact .guarded (.bind hupdate fun _ => .commit fun _ h => h.kept)
    (fun t _ => safe_raise rfl (by decide) t) fun _ => .quiet stage_kept (quiet_refresh _ _)

/-- The insert of the row that is looked up after a lost race. -/
theorem walk_key {t : Table} {row : t.Row} {k : Key}
    (hk : ∀ k' ∈ t.keys row, k'.handled = true → k' = k) :
    Walk (Refused k) Early (Service.insert t row) Begun :=
  .write (fun _ h => h.begun) (fun _ => ⟨t, row, rfl⟩) (fun _ h => begun_sent h.begun _)
    fun _ u hu => ⟨u, _, rfl, hu, fun _ => ⟨t, row, rfl⟩, hk⟩

theorem safe_replayCreation (record : TicketCreationKey) (hash : String) {t : Trace}
    (ht : Rolled t) :
    (TicketService.replayCreation record hash).Safe Answers Careful (fun r _ => r.replayed = true)
      (Fine RacingCall.ticketErrors) t := by
  unfold TicketService.replayCreation
  split
  · exact fine_declared rfl (by decide)
  · refine ⟨trivial, fun r hr => ?_⟩
    rcases r with e | _ | ticket
    · exact fine_select ht hr
    · exact fine_declared rfl (by decide)
    · rfl

theorem ends_createTicket (context : CurrentTenant) (r : CreationRequest) (key : String) :
    Ends (fun r => r.replayed = true) RacingCall.ticketErrors Early
      (TicketService.create P B.rbac context r key) := by
  have draw {R : Trace → Prop} : Walk R Early Service.uuid4 Early :=
    .quiet stage_early Service.quiet_uuid4
  refine .bind (.quiet stage_early (Service.quiet_select _)) fun existing => ?_
  rcases existing with _ | record
  · have absent (db : Db)
        (h : db.creationKey context.tenant.id context.membership.id key = none) :
        Db.present (.ticketCreationKey context.tenant.id context.membership.id key) db = false :=
      Db.absent_of_find? h fun record hk => by
        obtain ⟨ht, hm, hkey⟩ : context.tenant.id = record.tenantId ∧
            context.membership.id = record.membershipId ∧ key = record.key := by
          simpa [Key.table, Table.keys, Table.uniques] using hk
        exact decide_eq_true ⟨ht.symm, hm.symm, hkey.symm⟩
    refine .bind (.quiet stage_early (TicketService.quiet_checkCustomer B.rbac _ _)) fun _ => ?_
    refine .bind draw fun ticketId => .bind draw fun eventId => .bind draw fun keyId => ?_
    refine .guarded (R := Refused (.ticketCreationKey context.tenant.id context.membership.id key))
      (.bind (.bind (walk_insert (by decide) _) fun _ => .bind (walk_insert (by decide) _) fun _ =>
        walk_key ?_) fun _ => .bind (.commit fun _ h => h.kept) fun _ => .ret none)
      (fun t ht => .bind (safe_lookup ?_ absent rfl (fun record t ht =>
        (safe_replayCreation record _ ht).mono (fun _ _ h _ => h) fun _ _ h => h) ht))
      fun replayed => ?_
    · simp [Table.keys, Table.uniques, Key.handled, TicketService.newCreationKey]
    · show Table.ticketCreationKeys ∈ keyTables
      decide
    · rcases replayed with _ | replayed
      · exact .quiet stage_kept (.bind (quiet_refresh _ _) fun _ => trivial)
      · exact .of_walk (.ret _)
  · exact .quiet stage_early (TicketService.quiet_replayCreation _ _)

theorem safe_replay (job : BackgroundJob) (hash : String) (t : Trace) :
    (BackgroundJobService.replay job hash).Safe Answers Careful (fun r _ => r.replayed = true)
      (Fine RacingCall.jobErrors) t := by
  unfold BackgroundJobService.replay
  split
  · exact fine_declared rfl (by decide)
  · rfl

theorem ends_submit (context : CurrentTenant) (kind : BackgroundJobKind) (payload : JsonObject)
    (key : String) : Ends (fun r => r.replayed = true) RacingCall.jobErrors Early
      (B.submit P context kind payload key) := by
  have draw {R : Trace → Prop} : Walk R Early Service.uuid4 Early :=
    .quiet stage_early Service.quiet_uuid4
  refine .bind (.quiet stage_early (Service.quiet_select _)) fun existing => ?_
  rcases existing with _ | job
  · have absent (db : Db) (h : db.jobByKey context.tenant.id context.membership.id key = none) :
        Db.present (.backgroundJobKey context.tenant.id context.membership.id key) db = false :=
      Db.absent_of_find? h fun job hk => by
        obtain ⟨ht, hm, hkey⟩ : context.tenant.id = job.tenantId ∧
            context.membership.id = job.requestedByMembershipId ∧ key = job.idempotencyKey := by
          simpa [Key.table, Table.keys, Table.uniques] using hk
        exact decide_eq_true ⟨ht.symm, hm.symm, hkey.symm⟩
    refine .bind draw fun jobId => .bind draw fun messageId => ?_
    refine .bind (.quiet stage_early B.quiet_getOrCreateCorrelationId) fun correlationId => ?_
    refine .guarded (R := Refused (.backgroundJobKey context.tenant.id context.membership.id key))
      (.bind (walk_key ?_) fun _ => .bind (walk_insert_begun (by decide) _) fun _ =>
        .bind (.commit fun _ h => h.kept) fun _ => .ret none)
      (fun t ht => .bind (safe_lookup ?_ absent rfl (fun job t _ =>
        (safe_replay job _ t).mono (fun _ _ h _ => h) fun _ _ h => h) ht))
      fun replayed => ?_
    · simp [Table.keys, Table.uniques, Key.handled, BackgroundJobService.newJob]
    · show Table.backgroundJobs ∈ keyTables
      decide
    · rcases replayed with _ | replayed
      · exact .quiet stage_kept (.bind (quiet_refresh _ _) fun _ => trivial)
      · exact .of_walk (.ret _)
  · exact .quiet stage_early (BackgroundJobService.quiet_replay (by decide) _ _)

theorem ends_submitEmailNotification (context : CurrentTenant) (ticketId : UUID) (key : String) :
    Ends (fun r => r.replayed = true) RacingCall.jobErrors Early
      (B.submitEmailNotification P context ticketId key) := by
  refine .bind (.quiet stage_early (TicketService.quiet_get B.rbac _ _)) fun ticket => ?_
  split
  · exact .of_walk (.raise stage_early (by decide))
  · refine .bind (.quiet stage_early (Service.quiet_select _)) fun found => ?_
    rcases found with _ | customer
    · exact .of_walk (.raise stage_early (by decide))
    · exact .check stage_early (by decide) (ends_submit P B _ _ _ _)

theorem ends_submitTicketExport (context : CurrentTenant) (status : Option TicketStatus)
    (priority : Option TicketPriority) (key : String) :
    Ends (fun r => r.replayed = true) RacingCall.jobErrors Early
      (B.submitTicketExport P context status priority key) :=
  .bind (.quiet stage_early (B.rbac.quiet_hasPermission (by decide) _ _)) fun _ =>
    ends_submit P B _ _ _ _

/-- **Every call ends well.** -/
theorem ends_prog (c : RacingCall) :
    Ends (fun a => c.replayed a = true) c.declared Early (c.prog P X B) := by
  cases c with
  | register email password => exact ends_register P X email password
  | createTenant owner name slug => exact ends_createTenant P owner name slug
  | invite context email => exact ends_invite P B context email
  | createCustomer context name email phone => exact ends_createCustomer P context name email phone
  | updateCustomer context id changes => exact ends_updateCustomer P context id changes
  | createTicket context r key => exact ends_createTicket P B context r key
  | submitEmailNotification context id key => exact ends_submitEmailNotification P B context id key
  | submitTicketExport context status priority key =>
    exact ends_submitTicketExport P B context status priority key
  | assignRoles tenantId membershipId roleIds =>
    exact ends_assignRoles B tenantId membershipId roleIds

end Calls

end Races

/-- What others do meanwhile: no row of the key tables goes. -/
structure KeepsKeys (W W' : World) : Prop where
  present : ∀ k : Key, k.table ∈ keyTables → W.store.db.present k = true →
    W'.store.db.present k = true
  sessions : W'.store.sessions = W.store.sessions
  wal : W'.store.wal = W.store.wal

namespace Races

/-! ## Runs -/

section Runs

variable {P : Platform} {X : Security} {B : BackgroundJobService}
variable {may : Nat → RacingCall → Prop} {W₀ : World} {T : Nat → Trace}
variable {pool : ((racingCalls P X B).system may handledLosses KeepsKeys).Pool} {i : Nat}

theorem answers {c : RacingCall} {o : Op} {W W' : World} {r : Except Exn o.Res}
    (h : ((racingCalls P X B).system may handledLosses KeepsKeys).step i c o W r W') :
    Answers o r := by
  obtain ⟨ch, hhandles, hs⟩ := h
  cases o with
  | write w =>
    rintro e rfl
    rcases write_raises hs with ho | ⟨rfl, k, hk, hp⟩
    · exact .inl ho
    · refine .inr ⟨rfl, k, hk, ?_⟩
      by_contra hnot
      rw [hhandles k (List.mem_filter.mpr ⟨hk, by simpa using hnot⟩)] at hp
      cases hp
  | select q =>
    rintro e rfl
    exact (select_raises hs).imp_left (·.1)
  | rollback =>
    rintro e rfl
    exact rollback_raises hs
  | _ =>
    rintro e rfl
    exact opStep_raises hs (by rintro w ⟨⟩)

theorem early_nil : Early [] where
  kept := by rintro ⟨w, hw⟩; cases hw
  untried _ hr := by cases hr
  unkeyed _ hw := by cases hw

theorem careful (h : System.Records W₀ pool T) {u v : Trace} {o : Op} {r : Except Exn o.Res}
    (ht : T i = u ++ ⟨o, r⟩ :: v) : Careful u o := by
  obtain ⟨c, hc⟩ := h.call (i := i) (by simp [ht])
  exact h.performed hc (fun _ _ _ _ _ _ => answers) (ends_prog P X B c [] early_nil) ht

theorem keeps_of_written (h : System.Records W₀ pool T) {w : Write} (hw : w ∈ written (T i)) :
    Keeps w := by
  obtain ⟨⟨o, r⟩, hx, ho⟩ := List.mem_filterMap.mp hw
  obtain ⟨u, v, ht⟩ := List.append_of_mem hx
  cases o with
  | write w' =>
    cases ho
    exact (careful h ht).2
  | _ => cases ho

/-- Such a write takes no key away. -/
theorem Keeps.present {w : Write} (hw : Keeps w) {k : Key} (hk : k.table ∈ keyTables) (τ : Time)
    {db : Db} (h : db.present k = true) : Db.present k ((w.stamp τ).apply db) = true := by
  obtain ⟨row, hmem, hrow⟩ := Db.present_eq_true.mp h
  refine Db.present_eq_true.mpr ⟨row, ?_, hrow⟩
  by_cases ht : k.table = w.table
  · obtain ⟨t, row', rfl⟩ := hw (ht ▸ hk)
    replace ht : k.table = t := ht
    subst ht
    show row ∈ (Write.insert _ _).apply db k.table
    rw [Write.apply_insert]
    exact List.mem_append_left _ hmem
  · rwa [Write.apply_other _ _ (by rwa [Write.table_stamp])]

theorem Rolled.init {t : Trace} {x : Σ o : Op, Except Exn o.Res} (h : Rolled (t ++ [x])) :
    x = ⟨.rollback, .ok ()⟩ ∨
      Rolled t ∧ ∃ (β : Type) (q : Db → β) (b : β), x = ⟨.select q, .ok b⟩ := by
  generalize hu : t ++ [x] = u at h
  cases h with
  | rollback u => exact .inl (List.singleton_inj.mp (List.append_inj' hu rfl).2)
  | select h q b =>
    obtain ⟨rfl, hx⟩ := List.append_inj' hu rfl
    exact .inr ⟨h, _, q, b, List.singleton_inj.mp hx⟩

/-- A session that was rolled back can be used. -/
theorem usable (h : System.Records W₀ pool T) (ht : Rolled (T i)) :
    (pool.shared.store.sessions i).broken = false := by
  have closed {W : World} (j : Nat) (hW : (W.store.sessions i).broken = false) :
      ((W.closeSession j).store.sessions i).broken = false := by
    by_cases he : i = j
    · subst he
      exact Store.rollback_usable W.store i
    · rwa [show (W.closeSession j).store.sessions i = W.store.sessions i from
        (Store.dropped_rollback W.store j).session i he]
  induction h with
  | init =>
    generalize hnil : ([] : Trace) = t at ht
    cases ht <;> simp at hnil
  | start h j c hj hc ih => exact closed j (ih ht)
  | @exec pool T h j c o k hj r W hs ih =>
    obtain ⟨ch, -, hs⟩ := hs
    by_cases he : i = j
    · subst he
      rw [Function.update_self] at ht
      rcases ht.init with hx | ⟨hold, β, q, b, hx⟩
      · cases hx
        rcases (rollback_step hs).1 with rfl | ⟨-, e, he⟩
        · exact Store.rollback_usable pool.shared.store i
        · cases he
      · cases hx
        exact (select_usable hs).trans (ih hold)
    · rw [Function.update_of_ne he] at ht
      show (W.store.sessions i).broken = false
      rw [opStep_session hs he]
      exact ih ht
  | finish h j c p hj r hr ih => exact closed j (ih ht)
  | crash h j c p hj ih => exact closed j (ih ht)
  | env h W hs ih =>
    show (W.store.sessions i).broken = false
    rw [hs.sessions]
    exact ih ht

theorem not_stuck (h : System.Records W₀ pool T) : ¬Stuck (T i) := by
  rintro ⟨u, β, q, ht, hu⟩
  obtain ⟨Q, U, c, k, W, hQ, rfl, -, -, ch, -, hs⟩ := h.performing ht
  rcases select_raises hs with ⟨-, hb⟩ | he | he
  · rw [usable hQ hu] at hb
    cases hb
  · cases he
  · cases he

/-- A key that is there stays there. -/
theorem present_of_steps (hq : W₀.Quiet) (h : System.Records W₀ pool T)
    {pool' : ((racingCalls P X B).system may handledLosses KeepsKeys).Pool}
    (hs : System.Steps pool pool') {k : Key} (hk : k.table ∈ keyTables)
    (hp : pool.shared.store.db.present k = true) : pool'.shared.store.db.present k = true :=
  Calls.kept_of_written hq (ψ := Keeps) (K := fun db => Db.present k db = true)
    (fun _ τ _ hw hdb => hw.present hk τ hdb) (fun _ _ hW => ⟨hW.sessions, hW.present k hk⟩)
    (fun h _ _ hw => keeps_of_written h hw) h hs hp

/-- What a session adds to a key that is there. -/
theorem present_view (hq : W₀.Quiet) (h : System.Records W₀ pool T) {k : Key}
    (hk : k.table ∈ keyTables) (hp : pool.shared.store.db.present k = true) :
    Db.present k (pool.shared.store.view schema i) = true := by
  refine List.foldlRecOn (motive := fun db => Db.present k db = true) _ _ hp fun db hdb w hmem => ?_
  obtain ⟨w₀, hw₀, τ, rfl⟩ := Calls.pending_written hq (fun _ _ hW => hW.sessions) h i w hmem
  exact (keeps_of_written h hw₀).present hk τ hdb

/-- **The call that has won is found.** -/
theorem not_missed (hq : W₀.Quiet) (h : System.Records W₀ pool T) : ¬Missed (T i) := by
  rintro ⟨-, k, r, β, q, ht, ⟨u, w, rfl, hearly, -, honly⟩, hk, hfind⟩
  rw [show u ++ [⟨.write w, .error .integrityError⟩] ++ [⟨.rollback, r⟩, ⟨.select q, .ok none⟩] =
    (u ++ ⟨.write w, .error .integrityError⟩ :: [⟨.rollback, r⟩]) ++ [⟨.select q, .ok none⟩] by
      simp] at ht
  obtain ⟨Q', U', c', k', W', hQ', hU', -, -, ch', -, hselect⟩ := h.performing ht
  obtain ⟨Q, U, c, kont, W, hQ, hU, hsteps, -, ch, hhandles, hwrite⟩ := hQ'.performing hU'
  have hlost : Q.shared.store.db.present k = true := by
    rcases write_raises hwrite with he | ⟨-, k₀, hmem, hp⟩
    · cases he
    · have hhandled : k₀.handled = true := by
        by_contra hnot
        rw [hhandles k₀ (List.mem_filter.mpr ⟨hmem, by simpa using hnot⟩)] at hp
        cases hp
      obtain rfl := honly k₀ hmem hhandled
      -- what the session sees there is committed, as it has written nothing to the table itself
      have hown : Q.shared.store.view schema i k₀.table = Q.shared.store.db k₀.table := by
        refine Write.foldl_other (fun w' hw' he => ?_) _
        obtain ⟨w₀, hw₀, τ, rfl⟩ := Calls.pending_written hq (fun _ _ hW => hW.sessions) hQ i w' hw'
        rw [Write.table_stamp] at he
        exact hearly.unkeyed w₀ (hU ▸ hw₀) (he ▸ hk)
      obtain ⟨row, hrow, hkeys⟩ := Db.present_eq_true.mp hp
      exact Db.present_eq_true.mpr ⟨row, hown ▸ hrow, hkeys⟩
  have hfound := present_view (i := i) hq hQ' hk (present_of_steps hq hQ hsteps hk hlost)
  rcases (select_step hselect).1 with ⟨-, hans⟩ | ⟨-, -, e, he⟩
  · rw [hfind _ (hans none rfl).symm] at hfound
    cases hfound
  · cases he

/-- A call that loses a race commits nothing. -/
theorem noCommit_of_lost (hq : W₀.Quiet) (h : System.Records W₀ pool T) (hl : Lost (T i)) :
    ∀ c ∈ pool.shared.store.wal, c.1 ≠ i := by
  rintro ⟨j, ws⟩ hmem he
  obtain rfl : j = i := he
  obtain ⟨u, r, v, ht, -⟩ :=
    Calls.performed_of_committed hq (fun _ _ hW => ⟨hW.sessions, hW.wal⟩) h hmem
  obtain ⟨w, hw⟩ := hl
  rw [ht, List.mem_append, List.mem_cons] at hw
  rcases hw with hw | hw | hw
  · exact careful h ht ⟨w, hw⟩
  · cases hw
  · obtain ⟨v₁, v₂, rfl⟩ := List.append_of_mem hw
    have ht' : T j = (u ++ ⟨.commit, r⟩ :: v₁) ++ ⟨.write w, .error .integrityError⟩ :: v₂ := by
      rw [ht]
      simp
    exact (careful h ht').1 r (List.mem_append_right _ (.head _))

end Runs

/-- How a call that has lost a race ends: with a replay or an error of its service, unless the
database fails it after that or its task is cancelled. -/
def Settled (c : RacingCall) (t : Trace) : Except Exn c.Ret → Prop
  | .ok a => c.replayed a = true
  | .error e => c.declared e = true ∨ Failed e t

end Races

open Races

/-- **Lost races are answered** where no value is taken whose loss nobody handles. -/
theorem lost_races_are_answered (P : Platform) (X : Security) (B : BackgroundJobService)
    {may : Nat → RacingCall → Prop} {W₀ : World} (hq : W₀.Quiet)
    {pool : ((racingCalls P X B).system may handledLosses KeepsKeys).Pool} {T : Nat → Trace}
    (h : System.Records W₀ pool T) :
    (∀ i c r, pool.threads i = .finished c r →
      r ≠ .error .integrityError ∧ (Lost (T i) → Settled c (T i) r)) ∧
    ∀ i, Lost (T i) → ∀ w ∈ pool.shared.store.wal, w.1 ≠ i := by
  refine ⟨fun i c r hi => ?_, fun i => noCommit_of_lost hq h⟩
  have hsafe := ends_prog P X B c [] early_nil
  rcases r with e | a
  · have hfine := h.raised hi (fun _ _ _ _ _ _ => answers) hsafe
    have hne : e ≠ .integrityError := fun he => not_missed hq h (hfine.integrity he)
    refine ⟨fun he => hne (Except.error.inj he), fun hl => ?_⟩
    rcases hfine.lost hl with hfailed | hstuck | he | hdeclared
    · exact .inr hfailed
    · exact absurd hstuck (not_stuck h)
    · exact absurd he hne
    · exact .inl hdeclared
  · exact ⟨by rintro ⟨⟩, h.returned hi (fun _ _ _ _ _ _ => answers) hsafe⟩

/-! ## Two races -/

namespace Races

/-- The calls of a deployment that keeps passwords as they are. -/
abbrev deployed : Calls :=
  racingCalls .plain ⟨fun _ _ => "", fun _ _ => none, fun _ password => password, (· = ·)⟩
    ⟨{ authSecretKey := "k" }, ⟨false, 300, 30⟩, none⟩

/-- The answer is a lost race. -/
def isLoss : (Σ o : Op, Except Exn o.Res) → Bool
  | ⟨.write _, .error .integrityError⟩ => true
  | _ => false

theorem lost_of_any {t : Trace} (h : t.any isLoss = true) : Lost t := by
  obtain ⟨⟨o, r⟩, hmem, hloss⟩ := List.any_eq_true.mp h
  unfold isLoss at hloss
  split at hloss
  · rename_i w heq
    exact ⟨w, heq ▸ hmem⟩
  · cases hloss

/-- The tenant of `Db.provisioned`, and a user who is not a member of it. -/
def inviting : Db
  | .users => Db.provisioned .users ++ [⟨2, "agent@example.test", "", true, 0, 0⟩]
  | t => Db.provisioned t

end Races

/-- Two users register one address, and both find it free. -/
theorem lost_races_are_answered_registered :
    ∃ (pool : (deployed.system (fun _ _ => True) handledLosses KeepsKeys).Pool) (T : Nat → Trace),
      System.Records (World.fresh Db.provisioned) pool T ∧ Lost (T 0) ∧
      (∃ c, pool.threads 0 = .finished c (.error .emailAlreadyRegistered)) ∧
      (∀ i c r, pool.threads i = .finished c r →
        r ≠ .error .integrityError ∧ (Lost (T i) → Settled c (T i) r)) ∧
      ∀ i, Lost (T i) → ∀ w ∈ pool.shared.store.wal, w.1 ≠ i := by
  obtain ⟨pool, T, h, hend, hlost⟩ := (deployed.playerOf KeepsKeys (fun _ _ => true)
    (fun _ _ _ => trivial) (fun i W o _ => decide (handledLosses i W o {}))
    fun i W o c h => of_decide_eq_true h).replay_map_trace
    [.start 0 (.register "agent@example.test" "secret"), .ops 0 [{}, {}, { uuid := 2 }],
      .start 1 (.register "agent@example.test" "public"),
      .ops 1 [{}, {}, { uuid := 3 }, {}, {}, {}], .finish 1, .ops 0 [{}, {}], .finish 0]
    (World.fresh Db.provisioned) 0 (fun pool => (pool.threads 0).error?)
    (fun t => t.any isLoss) (b := some .emailAlreadyRegistered) (d := true) (by decide +kernel)
  exact ⟨pool, T, h, lost_of_any hlost, System.Thread.error?_eq_some.mp hend,
    lost_races_are_answered _ _ _ (World.quiet_fresh _) h⟩

/-- **A second invitation of one user raises `IntegrityError`.** -/
theorem invitation_race_escapes :
    ∃ pool : (deployed.system (fun _ _ => True) (fun _ _ _ _ => True) KeepsKeys).Pool,
      System.Reachable (World.fresh inviting) pool ∧
      ∃ c, pool.threads 0 = .finished c (.error .integrityError) := by
  obtain ⟨pool, hreach, hobs⟩ := (deployed.player KeepsKeys (fun _ _ => true)
    fun _ _ _ => trivial).replay_map
    [.start 0 (.invite .owner "agent@example.test"), .ops 0 [{}, {}, { uuid := 2 }],
      .start 1 (.invite .owner "agent@example.test"),
      .ops 1 (List.replicate 11 { uuid := 3 }), .finish 1, .ops 0 [{}], .finish 0]
    (.init (World.fresh inviting)) (fun pool => (pool.threads 0).error?)
    (b := some .integrityError) (by decide +kernel)
  exact ⟨pool, hreach, System.Thread.error?_eq_some.mp hobs⟩

end Ticketing
