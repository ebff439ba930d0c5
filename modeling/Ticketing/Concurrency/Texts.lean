import Ticketing.Concurrency.System
import Ticketing.Schemas.Requests
import Ticketing.Services.TicketCollaboration

/-!
# Stored texts

The pool of the requests that store texts, as they come in (`Request`): a request its schema
refuses changes nothing, an accepted one reaches its service with its texts trimmed, and the
service strips them once more.

* `TextsOk`: every stored text respects the bounds of its field, on a row, on the rows and on a
  write.
* `Request.Lasts` is the condition under which the second strip leaves every accepted text long
  enough: two characters that are no whitespace to `str.strip`, far enough apart
  (`Lib.Text.Spans`). It is exact for one text (`le_length_stripChars_iff`).

Results:
* `TextField.length_strip`: what is left of an accepted text.
* `request`: whatever a request reads and is answered, it writes texts that respect their bounds.
* `texts_keep_minimum`: so every stored text does, in every run of requests that meet the
  condition.
* `separators_become_empty`: it fails for the four characters that `str.strip` removes and a
  schema does not.

Assumed: the rest of the system leaves the four tables alone. The e-mail check of `EmailStr` is a
parameter.
-/

namespace Ticketing

open Lib (Prog System)
open Lib.Text (strip isSpace Spans)

/-! ## The requests -/

inductive Request
  | createTicket (context : CurrentTenant) (request : TicketCreateRequest) (idempotencyKey : String)
  | updateTicket (context : CurrentTenant) (ticketId : UUID) (request : TicketUpdateRequest)
  | claimTicket (context : CurrentTenant) (ticketId : UUID) (request : TicketActionRequest)
  | transferTicket (context : CurrentTenant) (ticketId : UUID) (request : TicketTransferRequest)
  | resolveTicket (context : CurrentTenant) (ticketId : UUID) (request : TicketActionRequest)
  | reopenTicket (context : CurrentTenant) (ticketId : UUID) (request : TicketActionRequest)
  | closeTicket (context : CurrentTenant) (ticketId : UUID) (request : TicketActionRequest)
  | createTicketComment (context : CurrentTenant) (ticketId : UUID)
      (request : TicketCommentCreateRequest)
  | createCustomer (context : CurrentTenant) (request : CustomerCreateRequest)
  | updateCustomer (context : CurrentTenant) (customerId : UUID) (request : CustomerUpdateRequest)
  deriving DecidableEq

/-- What FastAPI does with a request body before the endpoint sees it. -/
@[irreducible]
def accepted {α β : Type} (validated : Option α) (endpoint : α → Service β) : Service Unit :=
  match validated with
  | none => throw (.other "RequestValidationError")
  | some request => do
    let _ ← endpoint request
    pure ()

def Request.prog (P : Platform) (S : TicketCollaborationService)
    (validateEmail : String → Option String) : Request → Service Unit
  | createTicket context request key => accepted request.validate fun r =>
    TicketService.create P S.rbac context ⟨r.customerId, r.subject, r.description, r.priority⟩ key
  | updateTicket context id request => accepted request.validate fun r =>
    TicketService.update S.rbac context id r.changes
  | claimTicket context id request => accepted request.validate fun r =>
    TicketService.claim S.rbac context id r.note
  | transferTicket context id request => accepted request.validate fun r =>
    TicketService.transfer S.rbac context id r.assigneeMembershipId r.note
  | resolveTicket context id request => accepted request.validate fun r =>
    TicketService.resolve S.rbac context id r.note
  | reopenTicket context id request => accepted request.validate fun r =>
    TicketService.reopen S.rbac context id r.note
  | closeTicket context id request => accepted request.validate fun r =>
    TicketService.close S.rbac context id r.note
  | createTicketComment context id request => accepted request.validate fun r =>
    S.createComment context id r.body r.visibility
  | createCustomer context request => accepted (request.validate validateEmail) fun r =>
    CustomerService.create P context r.name r.email r.phone
  | updateCustomer context id request => accepted (request.validate validateEmail) fun r =>
    CustomerService.update P context id r.changes

def requests (P : Platform) (S : TicketCollaborationService)
    (validateEmail : String → Option String) : Calls where
  Call := Request
  Ret _ := Unit
  prog := Request.prog P S validateEmail

/-- The tables texts are stored in. -/
def textTables : List Table := [.tickets, .ticketEvents, .ticketComments, .customers]

/-- A text keeps the minimum of its field when it is stripped: between some character that is no
whitespace and another one, both included, there are enough of them. -/
def TextField.Lasts (f : TextField) (s : String) : Prop := Spans isSpace f.minLength s.toList

/-- Every text of the request that is accepted keeps its minimum. -/
def Request.Lasts (validateEmail : String → Option String) : Request → Prop
  | createTicket _ request _ => ∀ r, request.validate = some r →
    TextField.subject.Lasts r.subject ∧ TextField.description.Lasts r.description
  | updateTicket _ _ request => ∀ r, request.validate = some r →
    (∀ s ∈ r.subject.join, TextField.subject.Lasts s) ∧
      ∀ s ∈ r.description.join, TextField.description.Lasts s
  | claimTicket _ _ request | resolveTicket _ _ request | reopenTicket _ _ request
  | closeTicket _ _ request => ∀ r, request.validate = some r →
    ∀ s ∈ r.note, TextField.note.Lasts s
  | transferTicket _ _ request => ∀ r, request.validate = some r →
    ∀ s ∈ r.note, TextField.note.Lasts s
  | createTicketComment _ _ request => ∀ r, request.validate = some r → TextField.body.Lasts r.body
  | createCustomer _ request => ∀ r, request.validate validateEmail = some r →
    TextField.name.Lasts r.name
  | updateCustomer _ _ request => ∀ r, request.validate validateEmail = some r →
    ∀ s ∈ r.name.join, TextField.name.Lasts s

/-! ## Bounded texts -/

/-- The texts of a row respect their bounds. -/
def Table.TextsOk : (t : Table) → t.Row → Prop
  | tickets, r => 3 ≤ r.subject.length ∧ r.subject.length ≤ 200 ∧ 1 ≤ r.description.length
  | ticketEvents, r => ∀ note ∈ r.note, 1 ≤ note.length
  | ticketComments, r => 1 ≤ r.body.length
  | customers, r => 2 ≤ r.name.length ∧ r.name.length ≤ 100
  | _, _ => True

/-- The texts of every row respect their bounds. -/
def Db.TextsOk (db : Db) : Prop := ∀ t, ∀ r ∈ db t, t.TextsOk r

/-- A write brings in no text out of bounds. -/
def Write.TextsOk : Write → Prop
  | insert t row => t.TextsOk row
  | update t l c => ∀ row, t.TextsOk row → t.TextsOk (t.patch l c row)
  | delete .. => True
  | revokeAllActive .. => True

namespace Texts

theorem stamp (w : Write) (τ : Time) (h : w.TextsOk) : (w.stamp τ).TextsOk := by
  cases w with
  | insert t row => cases t <;> exact h
  | update t l c => cases t <;> exact h
  | delete t p ids => trivial
  | revokeAllActive => trivial

theorem apply (w : Write) (db : Db) (h : w.TextsOk) (hdb : db.TextsOk) : (w.apply db).TextsOk := by
  intro t r hr
  by_cases ht : t = w.table
  · cases w with
    | insert t' row =>
      obtain rfl : t = t' := ht
      rw [Write.apply_insert, List.mem_append, List.mem_singleton] at hr
      rcases hr with hr | rfl
      · exact hdb t r hr
      · exact h
    | update t' l c =>
      obtain rfl : t = t' := ht
      rw [Write.apply_update] at hr
      obtain ⟨r₀, hr₀, rfl⟩ := List.mem_map.mp hr
      split
      · exact h r₀ (hdb t r₀ hr₀)
      · exact hdb t r₀ hr₀
    | delete t' p ids =>
      obtain rfl : t = t' := ht
      rw [Write.apply_delete] at hr
      exact hdb t r (List.mem_filter.mp hr).1
    | revokeAllActive =>
      obtain rfl : t = .refreshTokens := ht
      trivial
  · rw [Write.apply_other w db ht] at hr
    exact hdb t r hr

theorem of_rows (db db' : Db) (h : ∀ t ∈ textTables, db' t = db t) (hdb : db.TextsOk) :
    db'.TextsOk := by
  intro t r hr
  by_cases ht : t ∈ textTables
  · exact hdb t r (h t ht ▸ hr)
  · cases t <;> trivial

/-! ## What a schema and a strip make of a text -/

section Field

variable {f : TextField} {s t : String}

/-- What a schema accepts and the condition lets through is stored within its bounds. -/
theorem length_strip (hf : 0 < f.minLength) (h : f.validate s = some t) (hl : f.Lasts t) :
    f.minLength ≤ (strip t).length ∧ (strip t).length ≤ f.maxLength := by
  rw [Lib.Text.length_strip]
  obtain ⟨-, -, hmax⟩ := TextField.validate_eq_some h
  exact ⟨(Lib.Text.le_length_stripChars_iff isSpace hf _).mpr hl,
    (Lib.Text.length_stripChars_le isSpace _).trans hmax⟩

theorem validateOptional_eq_some {s t : Option String} (h : f.validateOptional s = some t)
    {x : String} (hx : x ∈ t) : ∃ y, f.validate y = some x := by
  cases s with
  | none => cases h; cases hx
  | some s =>
    obtain ⟨y, hy, rfl⟩ := Option.map_eq_some_iff.mp h
    cases hx
    exact ⟨s, hy⟩

theorem validateUnset_eq_some {s t : Option (Option String)} (h : f.validateUnset s = some t)
    {x : String} (hx : x ∈ t.join) : ∃ y, f.validate y = some x := by
  cases s with
  | none => cases h; cases hx
  | some s =>
    obtain ⟨y, hy, rfl⟩ := Option.map_eq_some_iff.mp h
    exact validateOptional_eq_some hy hx

end Field

/-! ## What the services write -/

/-- Every write of the program keeps the texts in bounds. -/
abbrev Kept {α : Type} (p : Service α) : Prop := p.Within (Op.Writes Write.TextsOk) fun _ => True

variable {α β : Type} {ρ : Exn → Prop}

theorem kept_quiet {p : Service α} (h : Service.Quiet ρ p) : Kept p :=
  h.within fun o ho => by cases o <;> first | exact ho.elim | trivial

theorem kept_raise (e : Exn) : Kept (throw e : Service α) := trivial

theorem kept_bind {p : Service α} {f : α → Service β} (hp : Kept p) (hf : ∀ a, Kept (f a)) :
    Kept (p.bind f) := hp.bind fun a _ => hf a

theorem kept_check {b : Bool} {e : Exn} {k : Service α} (h : Kept k) :
    Kept (if b then throw e else k) := by
  split
  · exact kept_raise e
  · exact h

theorem kept_insert {t : Table} {row : t.Row} (h : t.TextsOk row) : Kept (Service.insert t row) :=
  .perform h

theorem kept_update {t : Table} {l c : t.Row} (h : Write.TextsOk (.update t l c)) :
    Kept (Service.update t l c) := by
  unfold Service.update
  split
  · trivial
  · exact .perform h

theorem kept_commit : Kept Service.commit := .perform trivial

theorem kept_rollback : Kept Service.rollback := .perform trivial

theorem kept_refresh (t : Table) (id : UUID) : Kept (Service.refresh t id) :=
  kept_quiet (Service.quiet_refresh (ρ := fun _ => True) t id trivial)

theorem kept_exceptIntegrityError {body handler : Service α} (hb : Kept body)
    (hh : Kept handler) : Kept (Service.exceptIntegrityError body handler) := by
  refine hb.handle fun e => ?_
  split
  · exact hh
  · exact kept_raise e

/-- An update that leaves the texts of a ticket, or brings in ones within bounds. -/
theorem updatesTicket {l c : Ticket}
    (hs : c.subject = l.subject ∨ 3 ≤ c.subject.length ∧ c.subject.length ≤ 200)
    (hd : c.description = l.description ∨ 1 ≤ c.description.length) :
    Write.TextsOk (.update .tickets l c) := by
  intro row ⟨hmin, hmax, hdesc⟩
  simp only [Table.TextsOk, Table.patch, Table.changed]
  refine ⟨?_, ?_, ?_⟩
  · split
    · exact hmin
    · rename_i hne
      exact (hs.resolve_left (Ne.symm hne)).1
  · split
    · exact hmax
    · rename_i hne
      exact (hs.resolve_left (Ne.symm hne)).2
  · split
    · exact hdesc
    · rename_i hne
      exact hd.resolve_left (Ne.symm hne)

theorem updatesCustomer {l c : Customer}
    (hn : c.name = l.name ∨ 2 ≤ c.name.length ∧ c.name.length ≤ 100) :
    Write.TextsOk (.update .customers l c) := by
  intro row hrow
  simp only [Table.TextsOk, Table.patch, Table.changed]
  split
  · exact hrow
  · rename_i hne
    exact hn.resolve_left (Ne.symm hne)

section Services

variable (P : Platform) (S : TicketCollaborationService) (context : CurrentTenant)

open TicketService in
theorem create {r : CreationRequest} (key : String)
    (hs : 3 ≤ (strip r.subject).length ∧ (strip r.subject).length ≤ 200)
    (hd : 1 ≤ (strip r.description).length) :
    Kept (TicketService.create P S.rbac context r key) := by
  have replay := fun record => kept_quiet (quiet_replayCreation record (creationRequestHash P r))
  have uuid := kept_quiet (Service.quiet_uuid4 (ρ := fun _ => True))
  have select := fun {β : Type} (q : Db → β) =>
    kept_quiet (Service.quiet_select (ρ := fun _ => True) q)
  refine kept_bind (select _) fun existing => ?_
  rcases existing with _ | record
  · refine kept_bind (kept_quiet (quiet_checkCustomer S.rbac context r.customerId)) fun _ => ?_
    refine kept_bind uuid fun ticketId => kept_bind uuid fun eventId =>
      kept_bind uuid fun keyId => ?_
    refine kept_bind (kept_exceptIntegrityError ?_ ?_) fun replayed => ?_
    · refine kept_bind (kept_bind (kept_insert ⟨hs.1, hs.2, hd⟩) fun _ => ?_) fun _ =>
        kept_bind kept_commit fun _ => trivial
      exact kept_bind (kept_insert nofun) fun _ => kept_insert trivial
    · refine kept_bind (kept_bind kept_rollback fun _ => kept_bind (select _) fun raced => ?_)
        fun _ => trivial
      cases raced with
      | none => exact kept_raise _
      | some record => exact replay record
    · cases replayed with
      | some result => trivial
      | none => exact kept_bind (kept_refresh _ _) fun _ => trivial
  · exact replay record

open TicketService in
theorem saveAction (t : Ticket) (action : TicketAction) (next : TicketStatus)
    (assignee : Option UUID) {note : Option String} (hn : ∀ s ∈ note, 1 ≤ (strip s).length) :
    Kept (TicketService.saveAction context t action next assignee note) := by
  refine kept_bind (kept_quiet (Service.quiet_uuid4 (ρ := fun _ => True))) fun eventId => ?_
  refine kept_bind (kept_update (updatesTicket (.inl rfl) (.inl rfl))) fun _ => ?_
  refine kept_bind (kept_insert ?_) fun _ => kept_bind kept_commit fun _ => kept_refresh _ _
  intro s hs
  obtain ⟨given, hgiven, rfl⟩ := Option.map_eq_some_iff.mp hs
  exact hn given hgiven

section Actions

variable {note : Option String}

open TicketService

theorem kept_locked {ticketId : UUID} {f : Ticket → Service Ticket} (hf : ∀ t, Kept (f t)) :
    Kept ((getLockedVisible S.rbac context ticketId).bind f) :=
  kept_bind (kept_quiet (quiet_getLockedVisible S.rbac context ticketId)) hf

theorem kept_workflow {k : Service Ticket} (hk : Kept k) :
    Kept ((requireWorkflowPermission S.rbac context).bind fun _ => k) :=
  kept_bind (kept_quiet (quiet_requireWorkflowPermission S.rbac context)) fun _ => hk

theorem kept_assignee {t : Ticket} {k : Service Ticket} (hk : Kept k) :
    Kept ((requireAssigneeOrAdmin S.rbac context t).bind fun _ => k) :=
  kept_bind (kept_quiet (quiet_requireAssigneeOrAdmin S.rbac context t)) fun _ => hk

theorem kept_next {s : TicketStatus} {action : TicketAction} {f : TicketStatus → Service Ticket}
    (hf : ∀ next, Kept (f next)) : Kept ((nextStatus s action).bind f) :=
  kept_bind (kept_quiet (quiet_nextStatus s action)) hf

theorem claim (ticketId : UUID) (hn : ∀ s ∈ note, 1 ≤ (strip s).length) :
    Kept (TicketService.claim S.rbac context ticketId note) :=
  kept_locked S context fun t => kept_workflow S context (kept_next fun _ =>
    kept_check (saveAction context t _ _ _ hn))

theorem transfer (ticketId target : UUID) (hn : ∀ s ∈ note, 1 ≤ (strip s).length) :
    Kept (TicketService.transfer S.rbac context ticketId target note) := by
  refine kept_locked S context fun t => kept_workflow S context (kept_assignee S context ?_)
  refine kept_next fun next => kept_bind (kept_quiet (Service.quiet_select (ρ := fun _ => True) _))
    fun found => ?_
  rcases found with _ | m
  · exact kept_raise _
  · refine kept_bind (kept_quiet (S.rbac.quiet_hasPermission (ρ := fun _ => True) trivial m _))
      fun ok => kept_check ?_
    show Kept (if _ then _ else _)
    split
    · exact kept_raise _
    · exact saveAction context t _ _ _ hn

theorem conclude (action : TicketAction) (ticketId : UUID)
    (hn : ∀ s ∈ note, 1 ≤ (strip s).length) :
    Kept (TicketService.conclude S.rbac action context ticketId note) :=
  kept_locked S context fun t => kept_workflow S context (kept_assignee S context (kept_next
    fun _ => saveAction context t _ _ _ hn))

theorem reopen (ticketId : UUID) (hn : ∀ s ∈ note, 1 ≤ (strip s).length) :
    Kept (TicketService.reopen S.rbac context ticketId note) := by
  refine kept_locked S context fun t => kept_bind (kept_quiet
    (S.rbac.quiet_hasPermission (ρ := fun _ => True) trivial context.membership _)) fun ok => ?_
  exact kept_check (kept_next fun _ => saveAction context t _ _ _ hn)

end Actions

/-- The change of one field, to a value that has been asked for. -/
theorem within_changeField {fields : List String} {field : String} {value : Option α} {x : β}
    {change : α → Service β} {Q : β → Prop} (hx : Q x)
    (h : ∀ a, value = some a → (change a).Within (Op.Writes Write.TextsOk) Q) :
    (Service.changeField fields field value x change).Within (Op.Writes Write.TextsOk) Q := by
  rcases Service.changeField_cases fields field value x change with
    he | he | ⟨a, ha, he⟩ <;> rw [he]
  · exact hx
  · trivial
  · exact h a ha

/-- A ticket as an update leaves it. -/
def Edited (l c : Ticket) : Prop :=
  (c.subject = l.subject ∨ 3 ≤ c.subject.length ∧ c.subject.length ≤ 200) ∧
    (c.description = l.description ∨ 1 ≤ c.description.length)

open TicketService in
theorem update (ticketId : UUID) {changes : TicketChanges}
    (hs : ∀ s ∈ changes.subject, 3 ≤ (strip s).length ∧ (strip s).length ≤ 200)
    (hd : ∀ s ∈ changes.description, 1 ≤ (strip s).length) :
    Kept (TicketService.update S.rbac context ticketId changes) := by
  have subject (t : Ticket) :
      (changeSubject t changes).Within (Op.Writes Write.TextsOk) (Edited t) :=
    within_changeField ⟨.inl rfl, .inl rfl⟩ fun s h => ⟨.inr (hs s h), .inl rfl⟩
  have description (l t : Ticket) (ht : Edited l t) :
      (changeDescription t changes).Within (Op.Writes Write.TextsOk) (Edited l) :=
    within_changeField ht fun s h => ⟨ht.1, .inr (hd s h)⟩
  have priority (l t : Ticket) (ht : Edited l t) :
      (changePriority t changes).Within (Op.Writes Write.TextsOk) (Edited l) :=
    within_changeField ht fun _ _ => ht
  refine kept_bind (kept_quiet (Service.quiet_select (ρ := fun _ => True) _)) fun found => ?_
  refine kept_bind (kept_quiet (quiet_requireAccess S.rbac context found _)) fun l => ?_
  refine (subject l).bind fun t ht => (description l t ht).bind fun t ht =>
    (priority l t ht).bind fun t ht => ?_
  exact kept_bind (kept_update (updatesTicket ht.1 ht.2)) fun _ => kept_bind kept_commit fun _ =>
    kept_refresh _ _

theorem createComment (ticketId : UUID) {body : String} (visibility : CommentVisibility)
    (hb : 1 ≤ (strip body).length) : Kept (S.createComment context ticketId body visibility) := by
  refine kept_bind (kept_quiet (TicketService.quiet_get S.rbac context ticketId)) fun _ => ?_
  have store : Kept (Service.uuid4.bind fun id => (Service.insert .ticketComments
      ⟨id, context.tenant.id, ticketId, context.membership.id, visibility, strip body, 0⟩).bind
        fun _ => Service.commit.bind fun _ => Service.refresh .ticketComments id) :=
    kept_bind (kept_quiet (Service.quiet_uuid4 (ρ := fun _ => True))) fun id =>
      kept_bind (kept_insert hb) fun _ => kept_bind kept_commit fun _ => kept_refresh _ _
  show Kept (if _ then _ else _)
  split
  · exact kept_bind (kept_quiet (S.rbac.quiet_hasPermission (ρ := fun _ => True) trivial _ _))
      fun ok => kept_check store
  · exact store

theorem commitOrEmailConflict {flush : Service Unit} (hf : Kept flush) :
    Kept (CustomerService.commitOrEmailConflict flush) :=
  kept_exceptIntegrityError (kept_bind hf fun _ => kept_commit)
    (kept_bind kept_rollback fun _ => kept_raise _)

theorem createCustomer {name : String} (email : String) (phone : Option String)
    (hn : 2 ≤ (strip name).length ∧ (strip name).length ≤ 100) :
    Kept (CustomerService.create P context name email phone) := by
  refine kept_bind (kept_quiet (Service.quiet_select (ρ := fun _ => True) _)) fun existing => ?_
  refine kept_check (kept_bind (kept_quiet (Service.quiet_uuid4 (ρ := fun _ => True))) fun id => ?_)
  exact kept_bind (commitOrEmailConflict (kept_insert hn)) fun _ => kept_refresh _ _

open CustomerService in
theorem updateCustomer (customerId : UUID) {changes : CustomerChanges}
    (hn : ∀ s ∈ changes.name, 2 ≤ (strip s).length ∧ (strip s).length ≤ 100) :
    Kept (CustomerService.update P context customerId changes) := by
  let Named (l c : Customer) : Prop :=
    c.name = l.name ∨ 2 ≤ c.name.length ∧ c.name.length ≤ 100
  have email (l : Customer) :
      (changeEmail P context l changes).Within (Op.Writes Write.TextsOk) (Named l) := by
    refine within_changeField (.inl rfl) fun e _ => ?_
    refine (kept_quiet (Service.quiet_select (ρ := fun _ => True) _)).bind fun existing _ => ?_
    show Prog.Within _ _ (if _ then _ else _)
    split
    · trivial
    · exact .inl rfl
  have name (l c : Customer) (hc : Named l c) :
      (changeName c changes).Within (Op.Writes Write.TextsOk) (Named l) :=
    within_changeField hc fun s h => .inr (hn s h)
  have active (l c : Customer) (hc : Named l c) :
      (changeActive (changePhone c changes) changes).Within
        (Op.Writes Write.TextsOk) (Named l) := by
    have hp : Named l (changePhone c changes) := by
      unfold changePhone
      split <;> exact hc
    exact within_changeField hp fun _ _ => hp
  refine kept_bind ?_ fun l => (email l).bind fun c hc => (name l c hc).bind fun c hc =>
    (active l c hc).bind fun c hc => ?_
  · refine kept_bind (kept_quiet (Service.quiet_select (ρ := fun _ => True) _)) fun found => ?_
    cases found <;> trivial
  · exact kept_bind (commitOrEmailConflict (kept_update (updatesCustomer hc))) fun _ =>
      kept_refresh _ _

theorem kept_accepted {validated : Option α} {endpoint : α → Service β}
    (h : ∀ r, validated = some r → Kept (endpoint r)) : Kept (accepted validated endpoint) := by
  unfold accepted
  rcases validated with _ | r
  · exact kept_raise _
  · exact kept_bind (h r rfl) fun _ => trivial

end Services

/-! ## What the requests write -/

theorem ofCreate {r r' : TicketCreateRequest} (h : r.validate = some r') :
    TextField.subject.validate r.subject = some r'.subject ∧
      TextField.description.validate r.description = some r'.description := by
  obtain ⟨subject, hs, h⟩ := Option.bind_eq_some_iff.mp h
  obtain ⟨description, hd, h⟩ := Option.bind_eq_some_iff.mp h
  cases h
  exact ⟨hs, hd⟩

theorem ofUpdate {r r' : TicketUpdateRequest} (h : r.validate = some r') :
    TextField.subject.validateUnset r.subject = some r'.subject ∧
      TextField.description.validateUnset r.description = some r'.description := by
  obtain ⟨subject, hs, h⟩ := Option.bind_eq_some_iff.mp h
  obtain ⟨description, hd, h⟩ := Option.bind_eq_some_iff.mp h
  unfold TicketUpdateRequest.requireUpdateField at h
  split at h
  · cases h
  · cases h
    exact ⟨hs, hd⟩

theorem ofAction {r r' : TicketActionRequest} (h : r.validate = some r') :
    TextField.note.validateOptional r.note = some r'.note := by
  obtain ⟨note, hn, h⟩ := Option.bind_eq_some_iff.mp h
  cases h
  exact hn

theorem ofTransfer {r r' : TicketTransferRequest} (h : r.validate = some r') :
    TextField.note.validateOptional r.note = some r'.note := by
  obtain ⟨action, ha, h⟩ := Option.bind_eq_some_iff.mp h
  cases h
  exact ofAction ha

theorem ofComment {r r' : TicketCommentCreateRequest} (h : r.validate = some r') :
    TextField.body.validate r.body = some r'.body := by
  obtain ⟨body, hb, h⟩ := Option.bind_eq_some_iff.mp h
  cases h
  exact hb

theorem ofCreateCustomer {validateEmail : String → Option String} {r r' : CustomerCreateRequest}
    (h : r.validate validateEmail = some r') : TextField.name.validate r.name = some r'.name := by
  obtain ⟨name, hn, h⟩ := Option.bind_eq_some_iff.mp h
  obtain ⟨email, -, h⟩ := Option.bind_eq_some_iff.mp h
  obtain ⟨phone, -, h⟩ := Option.bind_eq_some_iff.mp h
  cases h
  exact hn

theorem ofUpdateCustomer {validateEmail : String → Option String} {r r' : CustomerUpdateRequest}
    (h : r.validate validateEmail = some r') :
    TextField.name.validateUnset r.name = some r'.name := by
  obtain ⟨name, hn, h⟩ := Option.bind_eq_some_iff.mp h
  obtain ⟨email, -, h⟩ := Option.bind_eq_some_iff.mp h
  obtain ⟨phone, -, h⟩ := Option.bind_eq_some_iff.mp h
  unfold CustomerUpdateRequest.requireUpdateField at h
  split at h
  · cases h
  · cases h
    exact hn

/-- A note that is accepted and lasts is not empty when it is stripped. -/
theorem noted {given note : Option String} (h : TextField.note.validateOptional given = some note)
    (hl : ∀ s ∈ note, TextField.note.Lasts s) : ∀ s ∈ note, 1 ≤ (strip s).length := fun s hs => by
  obtain ⟨y, hy⟩ := validateOptional_eq_some h hs
  exact (length_strip (f := .note) (by decide) hy (hl s hs)).1

/-- **What a request whose texts last writes is within bounds.** -/
theorem request (P : Platform) (S : TicketCollaborationService)
    (validateEmail : String → Option String) {request : Request}
    (hl : request.Lasts validateEmail) : Kept (request.prog P S validateEmail) := by
  cases request with
  | createTicket context request key =>
    refine kept_accepted fun r h => ?_
    obtain ⟨hs, hd⟩ := ofCreate h
    have hsubject := length_strip (f := .subject) (by decide) hs (hl r h).1
    have hdescription := length_strip (f := .description) (by decide) hd (hl r h).2
    exact create P S context key hsubject hdescription.1
  | updateTicket context id request =>
    refine kept_accepted fun r h => ?_
    obtain ⟨hs, hd⟩ := ofUpdate h
    refine update S context id (fun s hmem => ?_) fun s hmem => ?_
    · obtain ⟨y, hy⟩ := validateUnset_eq_some hs hmem
      exact length_strip (f := .subject) (by decide) hy ((hl r h).1 s hmem)
    · obtain ⟨y, hy⟩ := validateUnset_eq_some hd hmem
      exact (length_strip (f := .description) (by decide) hy ((hl r h).2 s hmem)).1
  | claimTicket context id request =>
    exact kept_accepted fun r h => claim S context id (noted (ofAction h) (hl r h))
  | transferTicket context id request =>
    exact kept_accepted fun r h => transfer S context id _ (noted (ofTransfer h) (hl r h))
  | resolveTicket context id request =>
    exact kept_accepted fun r h => conclude S context .resolve id (noted (ofAction h) (hl r h))
  | reopenTicket context id request =>
    exact kept_accepted fun r h => reopen S context id (noted (ofAction h) (hl r h))
  | closeTicket context id request =>
    exact kept_accepted fun r h => conclude S context .close id (noted (ofAction h) (hl r h))
  | createTicketComment context id request =>
    refine kept_accepted fun r h => createComment S context id r.visibility ?_
    exact (length_strip (f := .body) (by decide) (ofComment h) (hl r h)).1
  | createCustomer context request =>
    refine kept_accepted fun r h => createCustomer P context r.email r.phone ?_
    exact length_strip (f := .name) (by decide) (ofCreateCustomer h) (hl r h)
  | updateCustomer context id request =>
    refine kept_accepted fun r h => updateCustomer P context id fun s hs => ?_
    obtain ⟨y, hy⟩ := validateUnset_eq_some (ofUpdateCustomer h) hs
    exact length_strip (f := .name) (by decide) hy (hl r h s hs)

end Texts

/-! ## Runs -/

/-- **In every run of requests whose accepted texts last, every stored text respects its
bounds.** -/
theorem texts_keep_minimum (P : Platform) (S : TicketCollaborationService)
    (validateEmail : String → Option String) {W₀ : World} (hq : W₀.Quiet)
    (h₀ : W₀.store.db.TextsOk)
    {pool : ((requests P S validateEmail).system (fun _ request => request.Lasts validateEmail)
      (fun _ _ _ _ => True) (Untouched textTables)).Pool} (h : System.Reachable W₀ pool) :
    pool.shared.store.db.TextsOk :=
  Calls.keeps (requests P S validateEmail) Texts.stamp Texts.apply Texts.of_rows
    (fun _ _ hl => Texts.request P S validateEmail hl) hq h₀ h

theorem textsOk_provisioned : Db.provisioned.TextsOk := fun t r hr => by
  cases t <;> trivial

def fireTicket : Request :=
  .createTicket .owner { subject := " Fire", description := "It burns" } "key-0001"

theorem lasts_fireTicket : fireTicket.Lasts some := fun r h => by
  have hr : some r = some { subject := "Fire", description := "It burns" } :=
    h.symm.trans (by decide +kernel)
  obtain rfl := Option.some.inj hr
  exact ⟨(Lib.Text.le_length_stripChars_iff isSpace (by decide) _).mp (by decide +kernel),
    (Lib.Text.le_length_stripChars_iff isSpace (by decide) _).mp (by decide +kernel)⟩

theorem lasts_of_eq {request : Request} (h : decide (request = fireTicket) = true) :
    request.Lasts some := of_decide_eq_true h ▸ lasts_fireTicket

/-- A ticket with a subject of four letters. -/
theorem texts_keep_minimum_fire :
    ∃ pool : ((requests .plain ⟨⟨false, 300, 30⟩, 100⟩ some).system
        (fun _ request => request.Lasts some) (fun _ _ _ _ => True) (Untouched textTables)).Pool,
      System.Reachable (World.fresh Db.provisioned) pool ∧
      (pool.shared.store.db .tickets).map (·.subject) = ["Fire"] ∧
      pool.shared.store.db.TextsOk := by
  let moves : List (System.Move Request Choice Empty) := [
    .start 0 fireTicket, .ops 0 (List.replicate 9 { uuid := 1 }), .finish 0]
  let mayStart (_ : Nat) (request : Request) : Bool := decide (request = fireTicket)
  obtain ⟨pool, hreach, hobs⟩ := ((requests .plain ⟨⟨false, 300, 30⟩, 100⟩ some).player
    (Untouched textTables) mayStart fun _ _ => lasts_of_eq).replay_map moves
    (.init (World.fresh Db.provisioned))
    (fun pool => (pool.shared.store.db .tickets).map (·.subject))
    (b := ["Fire"]) (by decide +kernel)
  exact ⟨pool, hreach, hobs, texts_keep_minimum _ _ _ (World.quiet_fresh _) textsOk_provisioned
    hreach⟩

/-- **A ticket of separators is accepted and stored empty.** -/
theorem separators_become_empty :
    ¬ ∀ (P : Platform) (S : TicketCollaborationService) (validateEmail : String → Option String)
      (W₀ : World) (_ : W₀.Quiet) (_ : W₀.store.db.TextsOk)
      (pool : ((requests P S validateEmail).system (fun _ _ => True)
        (fun _ _ _ _ => True) (Untouched textTables)).Pool) (_ : System.Reachable W₀ pool),
      pool.shared.store.db.TextsOk := by
  intro hall
  let requests := requests .plain ⟨⟨false, 300, 30⟩, 100⟩ some
  let moves : List (System.Move Request Choice Empty) := [
    .start 0 (.createTicket .owner { subject := "\x1c\x1d\x1e", description := "\x1f" } "key-0001"),
    .ops 0 (List.replicate 9 { uuid := 1 }), .finish 0]
  obtain ⟨pool, hreach, hobs⟩ := (requests.player (Untouched textTables) (fun _ _ => true)
    fun _ _ _ => trivial).replay_map moves (.init (World.fresh Db.provisioned))
    (fun pool => (pool.shared.store.db .tickets).map fun t => (t.subject, t.description))
    (b := [("", "")]) (by decide +kernel)
  have hmem : (("", "") : String × String) ∈ (pool.shared.store.db .tickets).map fun t =>
      (t.subject, t.description) := by rw [hobs]; exact List.mem_singleton_self _
  obtain ⟨t, ht, he⟩ := List.mem_map.mp hmem
  have hmin := (hall .plain _ some _ (World.quiet_fresh _) textsOk_provisioned pool hreach
    .tickets t ht).1
  rw [(Prod.mk.inj he).1] at hmin
  exact absurd hmin (by decide)

end Ticketing
