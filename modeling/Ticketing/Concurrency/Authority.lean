import Ticketing.Concurrency.Audit
import Ticketing.Concurrency.Records

/-!
# Every audit event is authorised

What an event says of its actor, its ticket and its assignees is backed by what the call that
wrote it had read and been answered by its commit. Which permissions a member has is whatever
`has_permission` answers in that call (`has`), cache or not, so a permission that is taken away
meanwhile is none of this module's business.

* `Authorised` is what has to be so for one event: who the actor is, why it could see the ticket,
  and which permission the action asked for. `Allowed` says it of all events of one commit, and
  that the commit takes no ticket away.
* Each call is walked once with what it has been answered (`ends_prog`, by the rules of
  `Records.lean`). That the ticket it has locked is the one of the audit log is then a fact about
  the commits of the run: no commit takes a ticket away or gives it to another creator
  (`after_keeps`, `SameTicket`).

Results:
* `locked_ticket`: what a call found under its lock is the row of the moment of its commit, up to
  what no commit changes.
* `event_source`: for each event there is the call that committed it, authorised by its own trace.
  It holds of any calls that end as `ends_prog` says, so `EventOrder.lean` uses it for whole
  requests.
* `audit_events_are_authorised`: this for the calls of the ticket service, from an empty audit log
  on, in every run.

Assumed: the rest of the system leaves tickets and events alone (`Elsewhere`). Left out: how the
member of a call is found. It comes with the call, from the authentication of its request.
-/

namespace Ticketing

open Lib (Prog Store System)
open Traced (Fact Walks Ends Unguarded)

/-- The member a call is made by. -/
def TicketCall.context : TicketCall → CurrentTenant
  | create context .. => context
  | update context .. => context
  | claim context .. => context
  | transfer context .. => context
  | resolve context .. => context
  | reopen context .. => context
  | close context .. => context

/-- `has_permission` has answered true for the member: some stretch of what was done is a run of it
that does. -/
def has (S : RBACService) (m : Membership) (p : PermissionCode) : Fact :=
  .answered (S.hasPermission m p) true

/-- A write that neither takes a ticket away nor changes an event. -/
def Write.KeepsTickets : Write → Prop
  | .insert .. | .update .tickets _ _ => True
  | _ => False

/-- The event a write inserts. -/
def Write.event? : Write → Option TicketEvent
  | .insert .ticketEvents e => some e
  | _ => none

theorem Write.event?_eq_some {w : Write} {e : TicketEvent} :
    w.event? = some e ↔ w = .insert .ticketEvents e := by
  rcases w with ⟨_ | _, row⟩ | _ | _ | _ <;> simp [Write.event?]

/-- What an event says of the member whose call has done `t`; `creator` is that of the ticket. -/
structure Authorised (S : RBACService) (context : CurrentTenant) (t : Trace) (creator : UUID)
    (e : TicketEvent) : Prop where
  actor : e.actorMembershipId = context.membership.id
  visible : creator = e.actorMembershipId ∨
    e.eventType ≠ .created ∧ has S context.membership .ticketsReadAll t
  claimed : e.eventType = .claimed → e.fromAssigneeMembershipId = none ∧
    e.toAssigneeMembershipId = some e.actorMembershipId ∧
      has S context.membership .ticketsManageWorkflow t
  handled : e.eventType = .transferred ∨ e.eventType = .resolved ∨ e.eventType = .closed →
    has S context.membership .ticketsManageWorkflow t ∧
      (e.fromAssigneeMembershipId = some e.actorMembershipId ∨
        has S context.membership .rolesManage t)
  transferred : e.eventType = .transferred →
    e.toAssigneeMembershipId ≠ e.fromAssigneeMembershipId ∧
      ∃ m q, e.toAssigneeMembershipId = some m.id ∧ ⟨.select q, .ok (some m)⟩ ∈ t ∧
        m.tenantId = e.tenantId ∧ m.status = .active ∧ has S m .ticketsManageWorkflow t
  kept : e.eventType = .resolved ∨ e.eventType = .closed →
    e.toAssigneeMembershipId = e.fromAssigneeMembershipId
  reopened : e.eventType = .reopened → e.toAssigneeMembershipId = none ∧
    (creator = e.actorMembershipId ∨ has S context.membership .ticketsManageWorkflow t)

namespace Authority

variable {S : RBACService} {context : CurrentTenant} {t : Trace} {ws : List Write}

theorem stamp {creator : UUID} {e : TicketEvent} (h : Authorised S context t creator e)
    (τ : Time) : Authorised S context t creator (Table.stampInsert τ .ticketEvents e) :=
  ⟨h.actor, h.visible, h.claimed, h.handled, h.transferred, h.kept, h.reopened⟩

/-- What a call knows of later is still so. -/
theorem lasts {creator : UUID} {e : TicketEvent} (h : Authorised S context t creator e)
    (u : Trace) : Authorised S context (t ++ u) creator e where
  actor := h.actor
  visible := h.visible.imp_right fun hv => ⟨hv.1, (has ..).lasting u hv.2⟩
  claimed he := ⟨(h.claimed he).1, (h.claimed he).2.1, (has ..).lasting u (h.claimed he).2.2⟩
  handled he := ⟨(has ..).lasting u (h.handled he).1,
    (h.handled he).2.imp_right ((has ..).lasting u)⟩
  transferred he := by
    obtain ⟨hne, m, q, hto, hread, htenant, hactive, hm⟩ := h.transferred he
    exact ⟨hne, m, q, hto, List.mem_append_left _ hread, htenant, hactive, (has ..).lasting u hm⟩
  kept := h.kept
  reopened he := ⟨(h.reopened he).1, (h.reopened he).2.imp_right ((has ..).lasting u)⟩

/-! ## What a commit consists of -/

/-- The call has locked this ticket. -/
def Locked (context : CurrentTenant) (t : Trace) (x : Ticket) : Prop :=
  ∃ ticketId, ⟨.selectForUpdate .tickets fun db => db.ticket context.tenant.id ticketId,
    .ok (some x)⟩ ∈ t

/-- What a call may commit when it has done `t`. -/
structure Allowed (S : RBACService) (context : CurrentTenant) (t : Trace) (ws : List Write) :
    Prop where
  writes : ∀ w ∈ ws, w.KeepsTickets
  one : (ws.filterMap Write.event?).length ≤ 1
  events : ∀ e, .insert .ticketEvents e ∈ ws → ∃ x : Ticket,
    (.insert .tickets x ∈ ws ∨ Locked context t x) ∧ x.id = e.ticketId ∧ x.tenantId = e.tenantId ∧
      Authorised S context t x.createdByMembershipId e

/-- What a call made by one of some members may commit. -/
def AllowedFor (S : RBACService) (ctx : CurrentTenant → Prop) (t : Trace) (ws : List Write) :
    Prop := ∃ context, ctx context ∧ Allowed S context t ws

/-! ## Walking the calls -/

section Walks

open TicketService

variable {ψ : Trace → List Write → Prop} {K : Fact} {P : Platform}

/-- The member created the ticket, or has the permission. -/
def mayAccess (S : RBACService) (context : CurrentTenant) (x : Ticket) (p : PermissionCode) :
    Fact :=
  .or (.pure (x.createdByMembershipId = context.membership.id)) (has S context.membership p)

theorem walks_hasPermission (m : Membership) (p : PermissionCode) :
    Walks ψ K [] (S.hasPermission m p)
      (fun b => K.and (.answered (S.hasPermission m p) b)) [] :=
  .quiet (S.quiet_hasPermission (ρ := fun _ => True) trivial m p)

theorem walks_canAccess (x : Ticket) (p : PermissionCode) :
    Walks ψ K [] (canAccess S context x p)
      (fun b => K.and ((Fact.pure (b = false)).or (mayAccess S context x p))) [] := by
  unfold canAccess
  split
  · rename_i hby
    exact .ret fun t hK => ⟨hK, .inr (.inl hby)⟩
  · refine (walks_hasPermission _ _).mono fun b t h => ⟨h.1, ?_⟩
    cases b
    · exact .inl rfl
    · exact .inr (.inr h.2)

theorem walks_requireAccess (found : Option Ticket) (p : PermissionCode) :
    Walks ψ K [] (requireAccess S context found p)
      (fun x => K.and ((Fact.pure (found = some x)).and (mayAccess S context x p))) [] := by
  rcases found with _ | x
  · exact .raise
  refine .bind (walks_canAccess x p) fun b => ?_
  cases b
  · exact .raise
  · refine .ret fun t h => ⟨h.1, rfl, ?_⟩
    rcases h.2 with hb | hmay
    · exact absurd hb (by simp [Fact.pure])
    · exact hmay

/-- The ticket is locked, and the member may see it. -/
def seen (S : RBACService) (context : CurrentTenant) (ticketId : UUID) (x : Ticket) : Fact :=
  (Fact.done (.selectForUpdate .tickets fun db => db.ticket context.tenant.id ticketId)
    (.ok (some x))).and ((Fact.pure (x.tenantId = context.tenant.id)).and
      (mayAccess S context x .ticketsReadAll))

theorem walks_getLockedVisible (ticketId : UUID) :
    Walks ψ (.pure True) [] (getLockedVisible S context ticketId)
      (seen S context ticketId) [] := by
  refine .bind (.selectForUpdate .tickets _) fun found => ?_
  refine (walks_requireAccess found _).mono fun x t h => ?_
  obtain ⟨⟨⟨-, hdone⟩, db, hdb⟩, hfound, hmay⟩ := h
  obtain rfl : found = some x := hfound
  have htenant := List.find?_some hdb.symm
  simp only [Bool.decide_and, Bool.and_eq_true, decide_eq_true_eq] at htenant
  exact ⟨hdone, htenant.1, hmay⟩

theorem walks_requireWorkflowPermission :
    Walks ψ K [] (requireWorkflowPermission S context)
      (fun _ => K.and (has S context.membership .ticketsManageWorkflow)) [] := by
  refine .bind (walks_hasPermission _ _) fun b => ?_
  cases b
  · exact .raise
  · exact .ret fun t h => h

theorem walks_requireAssigneeOrAdmin (x : Ticket) :
    Walks ψ K [] (requireAssigneeOrAdmin S context x)
      (fun _ => K.and (.or (.pure (x.assigneeMembershipId = some context.membership.id))
        (has S context.membership .rolesManage))) [] := by
  unfold requireAssigneeOrAdmin
  split
  · rename_i hassigned
    exact .ret fun t hK => ⟨hK, .inl hassigned⟩
  · refine .bind (walks_hasPermission _ _) fun b => ?_
    cases b
    · exact .raise
    · exact .ret fun t h => ⟨h.1, .inr h.2⟩

theorem walks_nextStatus (s : TicketStatus) (action : TicketAction) :
    Walks ψ K [] (nextStatus s action) (fun _ => K) [] :=
  (Walks.quiet (quiet_nextStatus s action)).mono fun _ _ h => h.1

theorem unguarded_refresh (table : Table) (id : UUID) :
    (Service.refresh table id).Within Unguarded fun _ => True := by
  refine .bind (.perform trivial) fun found _ => ?_
  rcases found with _ | row <;> trivial

theorem update_of_updates {x x' : Ticket} {w : Write}
    (hw : w ∈ [] ++ Write.updates .tickets x x') : ∃ l c, w = .update .tickets l c := by
  rw [List.nil_append] at hw
  unfold Write.updates at hw
  split at hw
  · cases hw
  · exact ⟨_, _, List.mem_singleton.mp hw⟩

theorem events_of_updates {x x' : Ticket} :
    ([] ++ Write.updates .tickets x x').filterMap Write.event? = [] := by
  rw [List.filterMap_eq_nil_iff]
  intro w hw
  obtain ⟨l, c, rfl⟩ := update_of_updates hw
  rfl

/-- The end of a workflow action. -/
theorem ends_saveAction {x : Ticket} {action : TicketAction} {next : TicketStatus}
    {assignee : Option UUID} {note : Option String}
    (h : ∀ t id, K t → (∃ ticketId, seen S context ticketId x t) ∧
      Authorised S context t x.createdByMembershipId
        (actionEvent context x action next assignee note id)) :
    Ends (Allowed S context) K [] (saveAction context x action next assignee note) := by
  refine .bind (Walks.quiet (Service.quiet_uuid4 (ρ := fun _ => True))) fun id => ?_
  refine .bind (.update _ _) fun _ => .bind (.write _) fun _ => .commit (fun t hK => ?_)
    (unguarded_refresh _ _)
  obtain ⟨⟨ticketId, hseen⟩, hauth⟩ := h t id hK.1
  refine ⟨fun w hw => ?_, ?_, fun e he => ?_⟩
  · rw [List.mem_append, List.mem_singleton] at hw
    rcases hw with hw | rfl
    · obtain ⟨l, c, rfl⟩ := update_of_updates hw
      trivial
    · trivial
  · rw [List.filterMap_append, events_of_updates, List.nil_append]
    exact List.length_filterMap_le ..
  · rw [List.mem_append, List.mem_singleton] at he
    rcases he with he | he
    · obtain ⟨l, c, he⟩ := update_of_updates he
      cases he
    · obtain rfl : e = _ := by simpa using he
      exact ⟨x, .inr ⟨ticketId, hseen.1⟩, rfl, hseen.2.1, hauth⟩

theorem visible_of_seen {ticketId : UUID} {x : Ticket} (h : seen S context ticketId x t)
    (action : TicketAction) : x.createdByMembershipId = context.membership.id ∨
      eventTypes action ≠ .created ∧ has S context.membership .ticketsReadAll t :=
  h.2.2.imp_right fun hr => ⟨Audit.ne_created action, hr⟩

theorem ends_claim (ticketId : UUID) (note : Option String) :
    Ends (Allowed S context) (.pure True) [] (claim S context ticketId note) := by
  refine .bind (walks_getLockedVisible ticketId) fun x => ?_
  refine .bind walks_requireWorkflowPermission fun _ => .bind (walks_nextStatus _ _) fun next => ?_
  by_cases hassigned : x.assigneeMembershipId.isSome = true
  · rw [if_pos hassigned]
    exact .raise
  rw [if_neg hassigned]
  refine ends_saveAction fun t id h => ⟨⟨ticketId, h.1⟩, rfl, visible_of_seen h.1 .claim,
    fun _ => ⟨?_, rfl, h.2⟩, ?_, ?_, ?_, ?_⟩
  · exact Option.not_isSome_iff_eq_none.mp hassigned
  · rintro (he | he | he) <;> cases he
  · rintro ⟨⟩
  · rintro (he | he) <;> cases he
  · rintro ⟨⟩

theorem ends_transfer (ticketId assignee : UUID) (note : Option String) :
    Ends (Allowed S context) (.pure True) [] (transfer S context ticketId assignee note) := by
  refine .bind (walks_getLockedVisible ticketId) fun x => ?_
  refine .bind walks_requireWorkflowPermission fun _ => ?_
  refine .bind (walks_requireAssigneeOrAdmin x) fun _ => .bind (walks_nextStatus _ _) fun next => ?_
  refine .bind (.select _) fun found => ?_
  rcases found with _ | m
  · exact .raise
  refine .bind (walks_hasPermission m _) fun b => ?_
  cases b
  · exact .raise
  by_cases hne : x.assigneeMembershipId = some m.id
  · rw [if_neg (by simp), if_pos hne]
    exact .raise
  rw [if_neg (by simp), if_neg hne]
  refine ends_saveAction fun t id h => ?_
  obtain ⟨⟨⟨⟨⟨hseen, hworkflow⟩, hassignee⟩, hread⟩, db, hdb⟩, hm⟩ := h
  have hfound := List.find?_some hdb.symm
  simp only [Bool.decide_and, Bool.and_eq_true, decide_eq_true_eq] at hfound
  refine ⟨⟨ticketId, hseen⟩, rfl, visible_of_seen hseen .transfer, ?_, fun _ => ⟨hworkflow,
    hassignee⟩, fun _ => ⟨fun he => hne he.symm, m, _, rfl, hread, hfound.1, hfound.2.2, hm⟩,
      ?_, ?_⟩
  · rintro ⟨⟩
  · rintro (he | he) <;> cases he
  · rintro ⟨⟩

theorem ends_conclude {action : TicketAction} (haction : action = .resolve ∨ action = .close)
    (ticketId : UUID) (note : Option String) :
    Ends (Allowed S context) (.pure True) [] (conclude S action context ticketId note) := by
  refine .bind (walks_getLockedVisible ticketId) fun x => ?_
  refine .bind walks_requireWorkflowPermission fun _ => ?_
  refine .bind (walks_requireAssigneeOrAdmin x) fun _ => .bind (walks_nextStatus _ _) fun next => ?_
  refine ends_saveAction fun t id h => ⟨⟨ticketId, h.1.1⟩, rfl, visible_of_seen h.1.1 action,
    ?_, fun _ => ⟨h.1.2, h.2⟩, ?_, fun _ => rfl, ?_⟩
  all_goals rcases haction with rfl | rfl <;> rintro ⟨⟩

theorem ends_reopen (ticketId : UUID) (note : Option String) :
    Ends (Allowed S context) (.pure True) [] (reopen S context ticketId note) := by
  refine .bind (walks_getLockedVisible ticketId) fun x => .bind (walks_hasPermission _ _)
    fun b => ?_
  by_cases hforbidden : (decide (x.createdByMembershipId ≠ context.membership.id) && !b) = true
  · rw [if_pos hforbidden]
    exact .raise
  rw [if_neg hforbidden]
  refine .bind (walks_nextStatus _ _) fun next => ?_
  refine ends_saveAction fun t id h => ⟨⟨ticketId, h.1⟩, rfl, visible_of_seen h.1 .reopen,
    ?_, ?_, ?_, ?_, fun _ => ⟨rfl, ?_⟩⟩
  · rintro ⟨⟩
  · rintro (he | he | he) <;> cases he
  · rintro ⟨⟩
  · rintro (he | he) <;> cases he
  · cases b
    · refine .inl (show x.createdByMembershipId = context.membership.id from ?_)
      simpa using hforbidden
    · exact .inr h.2

theorem ends_update (ticketId : UUID) (changes : TicketChanges) :
    Ends (Allowed S context) (.pure True) [] (update S context ticketId changes) := by
  have changed {α : Type} {field : String} {value : Option α} {x : Ticket} {change : α → Ticket}
      {K : Fact} : Walks (Allowed S context) K [] (Service.changeField changes.fields field value x
        fun a => pure (change a)) (fun _ => K) [] := by
    have hquiet : Service.Quiet (fun _ => True) (Service.changeField changes.fields field value x
        fun a => pure (change a)) := Service.quiet_changeField trivial fun _ => trivial
    exact (Walks.quiet hquiet).mono fun _ _ h => h.1
  refine .bind (.select _) fun found => .bind (walks_requireAccess found _) fun loaded => ?_
  refine .bind changed fun x => ?_
  refine .bind changed fun x => ?_
  refine .bind changed fun x => ?_
  refine .bind (.update _ _) fun _ => .commit (fun t hK => ?_) (unguarded_refresh _ _)
  refine ⟨fun w hw => ?_, by rw [events_of_updates]; exact Nat.zero_le _, fun e he => ?_⟩
  · obtain ⟨l, c, rfl⟩ := update_of_updates hw
    trivial
  · obtain ⟨l, c, he⟩ := update_of_updates he
    cases he

/-- What `create` commits. -/
theorem allowed_created (r : CreationRequest) (key hash : String) (ticketId eventId keyId : UUID) :
    Allowed S context t [.insert .tickets (newTicket context r ticketId),
      .insert .ticketEvents (createdEvent context ticketId eventId),
      .insert .ticketCreationKeys (newCreationKey context key hash ticketId keyId)] := by
  refine ⟨fun w hw => ?_, le_rfl,
    fun e he => ⟨newTicket context r ticketId, .inl (.head _), ?_⟩⟩
  · simp only [List.mem_cons, List.not_mem_nil, or_false] at hw
    rcases hw with rfl | rfl | rfl <;> trivial
  · obtain rfl : e = createdEvent context ticketId eventId := by simpa using he
    refine ⟨rfl, rfl, rfl, .inl rfl, ?_, ?_, ?_, ?_, ?_⟩
    · rintro ⟨⟩
    · rintro (he | he | he) <;> cases he
    · rintro ⟨⟩
    · rintro (he | he) <;> cases he
    · rintro ⟨⟩

theorem unguarded_replayCreation (record : TicketCreationKey) (hash : String) :
    (replayCreation record hash).Within Unguarded fun _ => True := by
  unfold replayCreation
  split
  · trivial
  · refine .bind (.perform trivial) fun found _ => ?_
    rcases found with _ | x <;> trivial

theorem unguarded_replayRaced (key hash : String) :
    (replayRaced context key hash).Within Unguarded fun _ => True := by
  refine .bind (.perform trivial) fun _ _ => .bind (.perform trivial) fun found _ => ?_
  rcases found with _ | record
  · trivial
  · exact unguarded_replayCreation record hash

theorem ends_create (r : CreationRequest) (key : String) :
    Ends (Allowed S context) (.pure True) [] (create P S context r key) := by
  refine .bind (.select _) fun found => ?_
  rcases found with _ | record
  · refine .bind (Walks.quiet (quiet_checkCustomer S context _)) fun _ => ?_
    refine .bind (Walks.quiet (Service.quiet_uuid4 (ρ := fun _ => True))) fun ticketId => ?_
    refine .bind (Walks.quiet (Service.quiet_uuid4 (ρ := fun _ => True))) fun eventId => ?_
    refine .bind (Walks.quiet (Service.quiet_uuid4 (ρ := fun _ => True))) fun keyId => ?_
    refine .handle ?_ (fun e => ?_) fun replayed => ?_
    · refine .bind (.bind (.write _) fun _ => .bind (.write _) fun _ => .write _) fun _ => ?_
      exact .commit (fun t _ => allowed_created r key _ ticketId eventId keyId) trivial
    · split
      · exact .bind (unguarded_replayRaced key _) fun _ _ => trivial
      · trivial
    · rcases replayed with _ | replayed
      · exact .bind (unguarded_refresh _ _) fun _ _ => trivial
      · trivial
  · exact .quiet (quiet_replayCreation record _)

/-- **What a call commits is authorised.** -/
theorem ends_prog (c : TicketCall) :
    Ends (Allowed S c.context) (.pure True) [] (c.prog P S) := by
  cases c with
  | create context r key => exact ends_create r key
  | update context id changes => exact ends_update id changes
  | claim context id note => exact ends_claim id note
  | transfer context id assignee note => exact ends_transfer id assignee note
  | resolve context id note => exact ends_conclude (.inl rfl) id note
  | reopen context id note => exact ends_reopen id note
  | close context id note => exact ends_conclude (.inr rfl) id note

end Walks

/-! ## The log and the tickets -/

section Log

variable {db : Db} {w : Write}

theorem keepsTickets_stamp (τ : Time) (h : w.KeepsTickets) : (w.stamp τ).KeepsTickets := by
  cases w with
  | update table l c => cases table <;> first | exact h.elim | trivial
  | _ => exact h

theorem events_stamped {ws' : List Write} (h : Stamped ws ws') :
    (ws'.filterMap Write.event?).length = (ws.filterMap Write.event?).length := by
  have hevent (w : Write) (τ : Time) :
      (w.stamp τ).event? = w.event?.map (Table.stampInsert τ .ticketEvents) := by
    rcases w with ⟨_ | _, row⟩ | _ | _ | _ <;> rfl
  induction h with
  | nil => rfl
  | @cons w w' _ _ hw _ ih =>
    obtain ⟨τ, rfl⟩ := hw
    rw [List.filterMap_cons, List.filterMap_cons, hevent]
    rcases w.event? with _ | e <;> simp [ih]

/-- The same ticket, whatever has become of it. -/
structure SameTicket (x y : Ticket) : Prop where
  id : y.id = x.id
  tenant : y.tenantId = x.tenantId
  creator : y.createdByMembershipId = x.createdByMembershipId

theorem SameTicket.refl (x : Ticket) : SameTicket x x := ⟨rfl, rfl, rfl⟩

theorem SameTicket.trans {x y z : Ticket} (h : SameTicket x y) (h' : SameTicket y z) :
    SameTicket x z := ⟨h'.id.trans h.id, h'.tenant.trans h.tenant, h'.creator.trans h.creator⟩

theorem apply_keeps (h : w.KeepsTickets) {x : Ticket} (hx : x ∈ db .tickets) :
    ∃ y ∈ w.apply db .tickets, SameTicket x y := by
  cases w with
  | insert table row =>
    by_cases ht : Table.tickets = table
    · subst ht
      rw [Write.apply_insert]
      exact ⟨x, List.mem_append_left _ hx, .refl x⟩
    · rw [Write.apply_other _ db (show Table.tickets ≠ (Write.insert table row).table from ht)]
      exact ⟨x, hx, .refl x⟩
  | update table l c =>
    cases table <;> first | exact h.elim | skip
    rw [Write.apply_update]
    refine ⟨_, List.mem_map_of_mem hx, ?_⟩
    split
    · exact ⟨rfl, rfl, rfl⟩
    · exact .refl x
  | _ => exact h.elim

theorem foldl_keeps (h : ∀ w ∈ ws, w.KeepsTickets) {x : Ticket} (hx : x ∈ db .tickets) :
    ∃ y ∈ ws.foldl (fun db w => w.apply db) db .tickets, SameTicket x y := by
  induction ws generalizing db x with
  | nil => exact ⟨x, hx, .refl x⟩
  | cons w ws ih =>
    obtain ⟨y, hy, hxy⟩ := apply_keeps (h w (.head _)) hx
    obtain ⟨z, hz, hyz⟩ := ih (fun w hw => h w (.tail _ hw)) hy
    exact ⟨z, hz, hxy.trans hyz⟩

/-- A ticket that is inserted is there afterwards. -/
theorem foldl_inserted (db : Db) (h : ∀ w ∈ ws, w.KeepsTickets) {x : Ticket}
    (hx : .insert .tickets x ∈ ws) : ∃ y ∈ ws.foldl (fun db w => w.apply db) db .tickets,
      SameTicket x y := by
  obtain ⟨us, vs, rfl⟩ := List.append_of_mem hx
  rw [List.foldl_append, List.foldl_cons]
  refine foldl_keeps (fun w hw => h w (List.mem_append_right _ (.tail _ hw))) ?_
  rw [Write.apply_insert]
  exact List.mem_append_right _ (List.mem_singleton.mpr rfl)

/-- Events are only added. -/
theorem apply_events (h : w.KeepsTickets) (db : Db) :
    w.apply db .ticketEvents = db .ticketEvents ++ w.event?.toList := by
  by_cases ht : Table.ticketEvents = w.table
  · cases w with
    | insert table row =>
      obtain rfl : Table.ticketEvents = table := ht
      exact Write.apply_insert ..
    | update table l c =>
      obtain rfl : Table.ticketEvents = table := ht
      exact h.elim
    | _ => exact h.elim
  · have hnone : w.event? = none := by
      rw [Option.eq_none_iff_forall_ne_some]
      intro e he
      rw [Write.event?_eq_some.mp he] at ht
      exact ht rfl
    rw [Write.apply_other w db ht, hnone]
    exact (List.append_nil _).symm

theorem foldl_events (h : ∀ w ∈ ws, w.KeepsTickets) (db : Db) :
    ws.foldl (fun db w => w.apply db) db .ticketEvents =
      db .ticketEvents ++ ws.filterMap Write.event? := by
  induction ws generalizing db with
  | nil => exact (List.append_nil _).symm
  | cons w ws ih =>
    rw [List.foldl_cons, ih (fun w hw => h w (.tail _ hw)), apply_events (h w (.head _)),
      List.append_assoc]
    congr 1
    rcases hw : w.event? with _ | e <;> simp [hw]

variable {past more wal : List (Nat × List Write)}

theorem after_keeps (h : ∀ c ∈ more, ∀ w ∈ c.2, w.KeepsTickets) {x : Ticket}
    (hx : x ∈ db.after past .tickets) : ∃ y ∈ db.after (past ++ more) .tickets, SameTicket x y := by
  induction more using List.reverseRecOn with
  | nil =>
    rw [List.append_nil]
    exact ⟨x, hx, .refl x⟩
  | append_singleton more c ih =>
    obtain ⟨y, hy, hxy⟩ := ih fun c hc => h c (List.mem_append_left _ hc)
    rw [← List.append_assoc, Db.after_append]
    obtain ⟨z, hz, hyz⟩ :=
      foldl_keeps (h c (List.mem_append_right _ (List.mem_singleton.mpr rfl))) hy
    exact ⟨z, hz, hxy.trans hyz⟩

theorem mem_after_events (h : ∀ c ∈ wal, ∀ w ∈ c.2, w.KeepsTickets) {e : TicketEvent}
    (he : e ∈ db.after wal .ticketEvents) :
    e ∈ db .ticketEvents ∨ ∃ c ∈ wal, .insert .ticketEvents e ∈ c.2 := by
  induction wal using List.reverseRecOn with
  | nil => exact .inl he
  | append_singleton wal c ih =>
    have hc : c ∈ wal ++ [c] := List.mem_append_right _ (List.mem_singleton.mpr rfl)
    rw [Db.after_append, foldl_events (h c hc), List.mem_append, List.mem_filterMap] at he
    rcases he with he | ⟨w, hw, he⟩
    · refine (ih (fun c hc => h c (List.mem_append_left _ hc)) he).imp_right ?_
      rintro ⟨c, hc, he⟩
      exact ⟨c, List.mem_append_left _ hc, he⟩
    · exact .inr ⟨c, hc, Write.event?_eq_some.mp he ▸ hw⟩

end Log

/-! ## The commits of a run -/

section Commits

variable {C : Calls} {may : Nat → C.Call → Prop} {admits : Admission}
variable {pool : (C.system may admits Elsewhere).Pool} {T : Nat → Trace} {W₀ : World}
variable {ctx : C.Call → CurrentTenant → Prop}

theorem elsewhere_kept {W W' : World} (h : Elsewhere W W') :
    W'.store.sessions = W.store.sessions ∧ W'.store.wal = W.store.wal := ⟨h.sessions, h.wal⟩

theorem tickets_committed (hq : W₀.Quiet) (h : System.Reachable W₀ pool) :
    pool.shared.store.db .tickets = W₀.store.db.after pool.shared.store.wal .tickets :=
  Calls.committed hq (fun _ _ hW => ⟨hW.wal, hW.tickets⟩) h

theorem events_committed (hq : W₀.Quiet) (h : System.Reachable W₀ pool) :
    pool.shared.store.db .ticketEvents = W₀.store.db.after pool.shared.store.wal .ticketEvents :=
  Calls.committed hq (fun _ _ hW => ⟨hW.wal, hW.ticketEvents⟩) h

/-- Tickets and events are kept by every commit. -/
theorem keeping (hq : W₀.Quiet)
    (hends : ∀ c, Ends (AllowedFor S (ctx c)) (.pure True) [] (C.prog c))
    (h : System.Records W₀ pool T) : ∀ c ∈ pool.shared.store.wal, ∀ w ∈ c.2, w.KeepsTickets := by
  rintro ⟨i, ws'⟩ hc w hw
  obtain ⟨c, u, v, ws, -, -, ⟨context, -, hallowed⟩, hstamped⟩ :=
    Calls.committed_of_ends hq (fun _ _ => elsewhere_kept) hends h hc
  obtain ⟨w₀, hw₀, τ, rfl⟩ := hstamped.mem hw
  exact keepsTickets_stamp τ (hallowed.writes w₀ hw₀)

/-- A ticket that a call has locked is one of the committed tickets from then on. -/
theorem locked_ticket (hq : W₀.Quiet)
    (hends : ∀ c, Ends (AllowedFor S (ctx c)) (.pure True) [] (C.prog c))
    (h : System.Records W₀ pool T) {i : Nat} {x : Ticket} (hx : Locked context (T i) x) :
    ∃ y ∈ pool.shared.store.db .tickets, SameTicket x y := by
  obtain ⟨ticketId, hmem⟩ := hx
  obtain ⟨u, v, ht⟩ := List.append_of_mem hmem
  have hwritten := Calls.locked_of_ends hends h ht
  obtain ⟨Q, U, c, k, W, hQ, hu, hsteps, hc, hst⟩ := h.performing ht
  have hwrites : (Q.shared.store.sessions i).writes = [] := stamped_nil.mp
    (Calls.pending (fun _ _ hW => hW.sessions) hQ hc (hu ▸ flushed_nil_iff.mpr hwritten))
  obtain ⟨ch, -, hst⟩ := hst
  rcases (selectForUpdate_step hst).1 with ⟨-, hq'⟩ | ⟨-, -, e, he⟩
  · have hfound : some x = Q.shared.store.db.ticket context.tenant.id ticketId := by
      have hview := (hq' _ rfl).1
      rwa [Store.view, hwrites] at hview
    have hmem : x ∈ Q.shared.store.db .tickets := List.mem_of_find?_eq_some hfound.symm
    obtain ⟨more, hmore⟩ := Calls.wal_prefix (fun _ _ hW => hW.wal) hsteps
    rw [tickets_committed hq hQ.reachable] at hmem
    rw [tickets_committed hq h.reachable, ← hmore]
    refine after_keeps (fun c hc => ?_) hmem
    exact keeping hq hends h c (hmore ▸ List.mem_append_right _ hc)
  · cases he

/-- Where an event comes from: the call that has committed it, and its ticket. -/
theorem event_source (hq : W₀.Quiet) (he₀ : W₀.store.db .ticketEvents = [])
    (hends : ∀ c, Ends (AllowedFor S (ctx c)) (.pure True) [] (C.prog c))
    (h : System.Records W₀ pool T) {e : TicketEvent}
    (he : e ∈ pool.shared.store.db .ticketEvents) :
    ∃ i c context y, (pool.threads i).call? = some c ∧ ctx c context ∧
      (∃ ws, (i, ws) ∈ pool.shared.store.wal ∧ .insert .ticketEvents e ∈ ws) ∧
      y ∈ pool.shared.store.db .tickets ∧ y.id = e.ticketId ∧ y.tenantId = e.tenantId ∧
      Authorised S context (T i) y.createdByMembershipId e := by
  have hkeep := keeping hq hends h
  have htickets := tickets_committed hq h.reachable
  rw [events_committed hq h.reachable] at he
  rcases mem_after_events hkeep he with he | ⟨⟨i, ws'⟩, hmem, hinsert⟩
  · rw [he₀] at he
    cases he
  obtain ⟨c, u, v, ws, hc, hT, ⟨context, hctx, hallowed⟩, hstamped⟩ :=
    Calls.committed_of_ends hq (fun _ _ => elsewhere_kept) hends h hmem
  obtain ⟨w₀, hw₀, τ, hw⟩ := hstamped.mem hinsert
  obtain ⟨e₀, rfl, rfl⟩ : ∃ e₀, w₀ = .insert .ticketEvents e₀ ∧
      e = Table.stampInsert τ .ticketEvents e₀ := by
    cases w₀ with
    | insert table row =>
      obtain ⟨rfl, hrow⟩ := Write.insert.inj hw
      exact ⟨row, rfl, eq_of_heq hrow⟩
    | _ => cases hw
  obtain ⟨x, hx, hid, htenant, hauth⟩ := hallowed.events e₀ hw₀
  obtain ⟨y, hy, hxy⟩ : ∃ y ∈ pool.shared.store.db .tickets, SameTicket x y := by
    rcases hx with hx | ⟨ticketId, hx⟩
    · obtain ⟨τ', hx⟩ := hstamped.mem_stamp hx
      obtain ⟨past, more, hwal⟩ := List.append_of_mem hmem
      obtain ⟨y, hy, hxy⟩ := foldl_inserted (W₀.store.db.after past) (hkeep _ hmem) hx
      rw [← Db.after_append _ _ (i, ws')] at hy
      have hmore : ∀ c ∈ more, ∀ w ∈ c.2, w.KeepsTickets := fun c hc =>
        hkeep c (hwal ▸ List.mem_append_right _ (.tail _ hc))
      obtain ⟨z, hz, hyz⟩ := after_keeps hmore hy
      rw [List.append_assoc, List.singleton_append, ← hwal, ← htickets] at hz
      have hstamp : SameTicket x (Table.stampInsert τ' .tickets x) := ⟨rfl, rfl, rfl⟩
      exact ⟨z, hz, hstamp.trans (hxy.trans hyz)⟩
    · exact locked_ticket hq hends h ⟨ticketId, hT ▸ List.mem_append_left v hx⟩
  refine ⟨i, c, context, y, hc, hctx, ⟨ws', hmem, hinsert⟩, hy, hxy.id.trans hid,
    hxy.tenant.trans htenant, ?_⟩
  rw [hxy.creator, hT]
  exact lasts (stamp hauth τ) v

end Commits

end Authority

open Authority

/-- **Every audit event is authorised**, by what the call that committed it has been answered. -/
theorem audit_events_are_authorised (P : Platform) (S : RBACService) {W₀ : World} (hq : W₀.Quiet)
    (ht : W₀.store.db .tickets = []) (he : W₀.store.db .ticketEvents = [])
    {pool : ((ticketCalls P S).system (fun _ _ => True) (fun _ _ _ _ => True) Elsewhere).Pool}
    {T : Nat → Trace} (h : System.Records W₀ pool T) :
    ∀ e ∈ pool.shared.store.db .ticketEvents, ∃ i c x, (pool.threads i).call? = some c ∧
      (∃ ws, (i, ws) ∈ pool.shared.store.wal ∧ .insert .ticketEvents e ∈ ws) ∧
      (pool.shared.store.db .tickets).filter (·.id = e.ticketId) = [x] ∧
      Authorised S c.context (T i) x.createdByMembershipId e := by
  intro e he'
  have hends : ∀ c : TicketCall, Ends (AllowedFor S (· = c.context)) (.pure True) [] (c.prog P S) :=
    fun c => (ends_prog c).mono fun _ _ h => ⟨_, rfl, h⟩
  obtain ⟨i, c, _, x, hc, rfl, hcommitted, hx, hid, -, hauth⟩ := event_source hq he hends h he'
  have hok := Audit.poolOk (Audit.keep_ticketCalls P S _) hq ht he h.reachable
  have hunique := Audit.Ledger.unique hx (hok.inv.2 x.id)
  exact ⟨i, c, x, hc, hcommitted, hid ▸ hunique, hauth⟩

/-- The owner of a tenant creates a ticket and claims it. -/
theorem audit_events_are_authorised_claimed :
    ∃ (pool : ((ticketCalls .plain ⟨false, 300, 30⟩).system
        (fun _ _ => True) (fun _ _ _ _ => True) Elsewhere).Pool) (T : Nat → Trace),
      System.Records (World.fresh Db.provisioned) pool T ∧
      ((pool.shared.store.db .ticketEvents).map fun e => (e.eventType, e.actorMembershipId)) =
        [(.created, 1), (.claimed, 1)] ∧
      ∀ e ∈ pool.shared.store.db .ticketEvents, ∃ i c x, (pool.threads i).call? = some c ∧
        (∃ ws, (i, ws) ∈ pool.shared.store.wal ∧ .insert .ticketEvents e ∈ ws) ∧
        (pool.shared.store.db .tickets).filter (·.id = e.ticketId) = [x] ∧
        Authorised ⟨false, 300, 30⟩ c.context (T i) x.createdByMembershipId e := by
  let moves : List (System.Move TicketCall Choice Empty) := [
    .start 0 (.create .owner ⟨none, "Printer", "It is on fire", .high⟩ "key"),
    .ops 0 (List.replicate 9 { uuid := 1 }), .finish 0,
    .start 1 (.claim .owner 1 none), .ops 1 (List.replicate 7 { uuid := 2 }), .finish 1]
  obtain ⟨pool, hreach, hobs⟩ := ((ticketCalls .plain ⟨false, 300, 30⟩).player Elsewhere
    (fun _ _ => true) fun _ _ _ => trivial).replay_map moves (.init (World.fresh Db.provisioned))
    (fun pool => (pool.shared.store.db .ticketEvents).map fun e =>
      (e.eventType, e.actorMembershipId))
    (b := [(.created, 1), (.claimed, 1)]) (by decide +kernel)
  obtain ⟨T, hT⟩ := System.exists_records hreach
  exact ⟨pool, T, hT, hobs,
    audit_events_are_authorised _ _ (World.quiet_fresh _) rfl rfl hT⟩

end Ticketing
