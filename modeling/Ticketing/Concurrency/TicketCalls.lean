import Ticketing.Concurrency.System
import Ticketing.Services.Ticket

/-!
# The calls of the ticket service

The pool the results about tickets are about (`ticketCalls`): `create`, `update` and the five
workflow actions, by any members, each in a session of its own. The rest of the system moves as it
likes, but for tickets, their events and their creation keys (`Elsewhere`).

All calls but `create` are straight lines of queries, two kinds of writes and a commit: an update
of a ticket, which leaves its tenant, creator and id, and an insert of an event that is not a
creation (`Write.ChangesTicket`).

Result:
* `straight_prog`: so they perform nothing else and handle no exception.
-/

namespace Ticketing

open Lib (Prog)

/-- The calls of the service that create or change tickets. -/
inductive TicketCall
  | create (context : CurrentTenant) (r : CreationRequest) (idempotencyKey : String)
  | update (context : CurrentTenant) (ticketId : UUID) (changes : TicketChanges)
  | claim (context : CurrentTenant) (ticketId : UUID) (note : Option String)
  | transfer (context : CurrentTenant) (ticketId assigneeMembershipId : UUID)
      (note : Option String)
  | resolve (context : CurrentTenant) (ticketId : UUID) (note : Option String)
  | reopen (context : CurrentTenant) (ticketId : UUID) (note : Option String)
  | close (context : CurrentTenant) (ticketId : UUID) (note : Option String)
  deriving DecidableEq

abbrev TicketCall.Ret : TicketCall → Type
  | create .. => TicketCreationResult
  | _ => Ticket

def TicketCall.prog (P : Platform) (S : RBACService) : (c : TicketCall) → Service c.Ret
  | create context r key => TicketService.create P S context r key
  | update context id changes => TicketService.update S context id changes
  | claim context id note => TicketService.claim S context id note
  | transfer context id assignee note => TicketService.transfer S context id assignee note
  | resolve context id note => TicketService.resolve S context id note
  | reopen context id note => TicketService.reopen S context id note
  | close context id note => TicketService.close S context id note

def ticketCalls (P : Platform) (S : RBACService) : Calls where
  Call := TicketCall
  Ret := TicketCall.Ret
  prog := TicketCall.prog P S

/-- The rest of the system moves: other tables, the cache, the files, the clock. A value some
session has locked does not appear meanwhile. -/
structure Elsewhere (W W' : World) : Prop where
  tickets : W'.store.db .tickets = W.store.db .tickets
  ticketEvents : W'.store.db .ticketEvents = W.store.db .ticketEvents
  ticketCreationKeys : W'.store.db .ticketCreationKeys = W.store.db .ticketCreationKeys
  absent : ∀ k, W.store.owner k ≠ none → W.store.db.present k = false →
    W'.store.db.present k = false
  sessions : W'.store.sessions = W.store.sessions
  owner : W'.store.owner = W.store.owner
  wal : W'.store.wal = W.store.wal

/-- The writes of the calls other than `create`. -/
def Write.ChangesTicket : Write → Prop
  | .update .tickets _ _ => True
  | .insert .ticketEvents e => e.eventType ≠ .created
  | _ => False

namespace TicketService

/-- The writes of a creation. -/
def Created (context : CurrentTenant) (r : CreationRequest) (key hash : String)
    (ticketId eventId keyId : UUID) (ws : List Write) : Prop :=
  ∃ τ τ' τ'', ws = [(Write.insert .tickets (newTicket context r ticketId)).stamp τ,
    (Write.insert .ticketEvents (createdEvent context ticketId eventId)).stamp τ',
    (Write.insert .ticketCreationKeys (newCreationKey context key hash ticketId keyId)).stamp τ'']

/-- A call other than `create`. -/
abbrev Straight {α : Type} (p : Service α) : Prop :=
  p.Straight (Op.Writing Write.ChangesTicket) fun _ => True

variable {α β : Type} {ρ : Exn → Prop} (S : RBACService) (context : CurrentTenant)

theorem straight_quiet {p : Service α} (h : Service.Quiet ρ p) : Straight p := by
  refine Prog.Straight.mono h (fun o ho => ?_) fun _ _ => trivial
  cases o <;> first | exact ho.elim | trivial

theorem straight_raise (e : Exn) : Straight (throw e : Service α) := trivial

theorem straight_check {b : Bool} {e : Exn} {k : Service α} (h : Straight k) :
    Straight (if b then throw e else k) := by
  split
  · exact straight_raise e
  · exact h

theorem straight_requireAccess (found : Option Ticket) (p : PermissionCode) :
    Straight (requireAccess S context found p) :=
  straight_quiet (quiet_requireAccess S context found p)

theorem straight_getLockedVisible (ticketId : UUID) :
    Straight (getLockedVisible S context ticketId) :=
  straight_quiet (quiet_getLockedVisible S context ticketId)

theorem straight_nextStatus (s : TicketStatus) (action : TicketAction) :
    Straight (nextStatus s action) := straight_quiet (quiet_nextStatus s action)

theorem straight_update (l c : Ticket) : Straight (Service.update .tickets l c) := by
  unfold Service.update
  split
  · trivial
  · exact .perform trivial

theorem straight_commit : Straight Service.commit := .perform trivial

theorem straight_refresh (id : UUID) : Straight (Service.refresh .tickets id) :=
  straight_quiet (Service.quiet_refresh (ρ := fun _ => True) .tickets id trivial)

theorem straight_saveAction (t : Ticket) (action : TicketAction) (next : TicketStatus)
    (assignee : Option UUID) (note : Option String) :
    Straight (saveAction context t action next assignee note) := by
  refine .bind (straight_quiet (ρ := fun _ => True) Service.quiet_uuid4) fun eventId => ?_
  refine .bind (straight_update _ _) fun _ => ?_
  refine .bind (.perform ?_) fun _ => .bind straight_commit fun _ => straight_refresh _
  cases action <;> nofun

/-- **Every call but `create` is a straight line.** -/
theorem straight_prog (P : Platform) (c : TicketCall)
    (hc : ∀ context r key, c ≠ .create context r key) :
    Straight (c.prog P S) := by
  have workflow := fun context => straight_quiet (quiet_requireWorkflowPermission S context)
  have assignee := fun context t => straight_quiet (quiet_requireAssigneeOrAdmin S context t)
  have permission := fun m p =>
    straight_quiet (S.quiet_hasPermission (ρ := fun _ => True) trivial m p)
  have select := fun {β : Type} (q : Db → β) =>
    straight_quiet (Service.quiet_select (ρ := fun _ => True) q)
  have changed {α : Type} {changes : TicketChanges} {field : String} {value : Option α} {t : Ticket}
      {change : α → Ticket} : Straight (Service.changeField changes.fields field value t
        fun a => pure (change a)) :=
    straight_quiet (ρ := fun _ => True) (Service.quiet_changeField trivial fun _ => trivial)
  have conclude (context : CurrentTenant) (id : UUID) (action : TicketAction)
      (note : Option String) : Straight (TicketService.conclude S action context id note) := by
    refine .bind (straight_getLockedVisible S _ _) fun t => .bind (workflow _) fun _ => ?_
    refine .bind (assignee _ _) fun _ => .bind (straight_nextStatus _ _) fun next => ?_
    exact straight_saveAction _ _ _ _ _ _
  cases c with
  | create context r key => exact absurd rfl (hc context r key)
  | update context id changes =>
    refine .bind (select _) fun found => .bind (straight_requireAccess S _ found _) fun t => ?_
    refine .bind changed fun t => ?_
    refine .bind changed fun t => ?_
    refine .bind changed fun t => ?_
    exact .bind (straight_update _ _) fun _ => .bind straight_commit fun _ => straight_refresh _
  | claim context id note =>
    refine .bind (straight_getLockedVisible S _ _) fun t => .bind (workflow _) fun _ => ?_
    refine .bind (straight_nextStatus _ _) fun next => straight_check ?_
    exact straight_saveAction _ _ _ _ _ _
  | transfer context id target note =>
    refine .bind (straight_getLockedVisible S _ _) fun t => .bind (workflow _) fun _ => ?_
    refine .bind (assignee _ _) fun _ => .bind (straight_nextStatus _ _) fun next => ?_
    refine .bind (select _) fun found => ?_
    rcases found with _ | m
    · exact straight_raise _
    · refine .bind (permission _ _) fun ok => straight_check ?_
      show Straight (if _ then _ else _)
      split
      · exact straight_raise _
      · exact straight_saveAction _ _ _ _ _ _
  | resolve context id note => exact conclude context id .resolve note
  | reopen context id note =>
    refine .bind (straight_getLockedVisible S _ _) fun t => .bind (permission _ _) fun ok => ?_
    refine straight_check (.bind (straight_nextStatus _ _) fun next => ?_)
    exact straight_saveAction _ _ _ _ _ _
  | close context id note => exact conclude context id .close note

end TicketService

end Ticketing
