import Ticketing.Concurrency.TicketCalls
import Mathlib.Data.List.Chain

/-!
# The audit log and the ticket row

`TicketService.create`, `update` and the five workflow actions, by any members, interleaved
statement by statement. What a ticket's row says (`entry`: status and assignee) and the ticket's
events, in the order they were committed, are kept together by one invariant.

* `History`: events that begin with a creation and go on by actions that `transitions` admits,
  each from what the one before left (`Acts`), with the status and the assignee they end at.
* `Ledger`: a ticket has one row, and its events are a history that ends at what the row says.

A workflow action reads the ticket under its row lock, so until it commits nobody else changes the
entry (`frame`), and the event it writes starts from what the row still says (`Locked`). `update`
takes no lock before its `UPDATE` and works on a copy that may be stale, but the statement sets
only the columns it changed, none of which the ledger is about (`SavedFields`).

Results:
* `entry_action`, `entry_update_fields`: what the two kinds of commits make of the entry.
* `call`: each of the seven programs keeps the ledger, whatever raises on the way. `poolOk`
  carries it over the runs of any calls that do.
* `audit_log_agrees_with_ticket`: row and log agree in every reachable state, and a call that
  ended with an error of the ticket service has committed nothing.
-/

namespace Ticketing

open Lib (Prog Store System Outline)
open Lib.Outline (Triple post)

namespace Audit

/-! ## Histories -/

/-- The event of a creation. -/
structure Creates (e : TicketEvent) : Prop where
  type : e.eventType = .created
  fromStatus : e.fromStatus = none
  toStatus : e.toStatus = .open
  fromAssignee : e.fromAssigneeMembershipId = none
  toAssignee : e.toAssigneeMembershipId = none

/-- The event of a workflow action on a ticket with status `s` and assignee `a`. -/
structure Acts (e : TicketEvent) (s : TicketStatus) (a : Option UUID) (action : TicketAction) :
    Prop where
  type : e.eventType = eventTypes action
  fromStatus : e.fromStatus = some s
  fromAssignee : e.fromAssigneeMembershipId = a
  transition : (s, e.toStatus) ∈ transitions action
  unassigned : e.toStatus = .open ↔ e.toAssigneeMembershipId = none

/-- `History es s a`: the events `es` take a ticket from its creation to status `s` and assignee
`a`. -/
inductive History : List TicketEvent → TicketStatus → Option UUID → Prop
  | created {e : TicketEvent} (he : Creates e) :
      History [e] e.toStatus e.toAssigneeMembershipId
  | acted {es : List TicketEvent} {s : TicketStatus} {a : Option UUID} {e : TicketEvent}
      {action : TicketAction} (h : History es s a) (he : Acts e s a action) :
      History (es ++ [e]) e.toStatus e.toAssigneeMembershipId

variable {es : List TicketEvent} {s : TicketStatus} {a : Option UUID}

theorem History.unassigned (h : History es s a) : s = .open ↔ a = none := by
  cases h with
  | created he => simp [he.toStatus, he.toAssignee]
  | acted h he => exact he.unassigned

theorem History.getLast? (h : History es s a) :
    ∃ e, es.getLast? = some e ∧ e.toStatus = s ∧ e.toAssigneeMembershipId = a := by
  cases h with
  | created he => exact ⟨_, rfl, rfl, rfl⟩
  | acted h he => exact ⟨_, by simp, rfl, rfl⟩

/-- Only the first event creates. -/
theorem History.head (h : History es s a) :
    ∃ e rest, es = e :: rest ∧ Creates e ∧ ∀ e' ∈ rest, ∃ s' a' action, Acts e' s' a' action := by
  induction h with
  | created he => exact ⟨_, [], rfl, he, by simp⟩
  | acted h he ih =>
    obtain ⟨e, rest, rfl, hc, hr⟩ := ih
    refine ⟨e, _, List.cons_append, hc, fun e' he' => ?_⟩
    rcases List.mem_append.mp he' with he' | he'
    · exact hr e' he'
    · rw [List.mem_singleton.mp he']
      exact ⟨_, _, _, he⟩

/-- Each event starts where the one before it ended. -/
theorem History.chain (h : History es s a) :
    es.IsChain fun e e' => e'.fromStatus = some e.toStatus ∧
      e'.fromAssigneeMembershipId = e.toAssigneeMembershipId := by
  induction h with
  | created he => exact .singleton _
  | acted h he ih =>
    obtain ⟨l, hl, hs, ha⟩ := h.getLast?
    refine ih.append (.singleton _) fun x hx y hy => ?_
    rw [hl] at hx
    cases hx
    cases hy
    exact ⟨he.fromStatus.trans (congrArg some hs.symm), he.fromAssignee.trans ha.symm⟩

theorem ne_created (action : TicketAction) : eventTypes action ≠ .created := by
  cases action <;> decide

/-- From where nothing is open, only a reopening leads to an open ticket. -/
theorem Acts.open_iff {e : TicketEvent} {action : TicketAction} (h : Acts e s a action) :
    e.toStatus = .open ↔ e.eventType = .reopened := by
  have ht := h.transition
  rw [h.type]
  generalize e.toStatus = t at ht ⊢
  cases action <;> cases s <;> cases t <;> simp_all [transitions, eventTypes]

theorem Acts.claimed {e : TicketEvent} {action : TicketAction} (h : Acts e s a action)
    (hc : e.eventType = .claimed) : s = .open := by
  have ht := h.transition
  rw [h.type] at hc
  cases action <;> cases s <;> simp_all [transitions, eventTypes]

/-- A history in which a claim is followed by no reopening leaves the ticket not open. -/
theorem History.not_open_of_claimed (h : History es s a) {pre mid : List TicketEvent}
    {c : TicketEvent} (he : es = pre ++ c :: mid) (hc : c.eventType = .claimed)
    (hm : ∀ e ∈ mid, e.eventType ≠ .reopened) : s ≠ .open := by
  induction h generalizing mid with
  | created hcr =>
    obtain ⟨rfl, rfl⟩ : pre = [] ∧ mid = [] := by
      have := congrArg List.length he
      simp at this
      exact ⟨List.length_eq_zero_iff.mp (by omega), List.length_eq_zero_iff.mp (by omega)⟩
    cases he
    rw [hcr.type] at hc
    cases hc
  | @acted es s a e action h ha ih =>
    rcases List.eq_nil_or_concat' mid with rfl | ⟨mid', e', rfl⟩
    · obtain ⟨-, he'⟩ := List.append_inj' he rfl
      cases he'
      intro ho
      rw [ha.open_iff.mp ho] at hc
      cases hc
    · rw [← List.cons_append, ← List.append_assoc] at he
      obtain ⟨he, he'⟩ := List.append_inj' he rfl
      cases he'
      intro ho
      exact hm e (by simp) (ha.open_iff.mp ho)

/-- Between two claims there is a reopening. -/
theorem History.reopened_between (h : History es s a) {pre mid post : List TicketEvent}
    {c c' : TicketEvent} (he : es = pre ++ c :: mid ++ c' :: post) (hc : c.eventType = .claimed)
    (hc' : c'.eventType = .claimed) : ∃ e ∈ mid, e.eventType = .reopened := by
  by_contra hno
  push Not at hno
  induction h generalizing post with
  | created hcr =>
    have := congrArg List.length he
    simp at this
    omega
  | @acted es s a e action h ha ih =>
    rcases List.eq_nil_or_concat' post with rfl | ⟨post', e', rfl⟩
    · obtain ⟨hes, heq⟩ := List.append_inj' he rfl
      cases heq
      exact h.not_open_of_claimed hes hc hno (ha.claimed hc')
    · rw [← List.cons_append, ← List.append_assoc] at he
      exact ih (List.append_inj' he rfl).1

/-! ## What writes do to an entry -/

/-- What the row of ticket `id` says, and the ticket's events. -/
abbrev Entry := List (TicketStatus × Option UUID) × List TicketEvent

def entry (db : Db) (id : UUID) : Entry :=
  (((db .tickets).filter (·.id = id)).map fun t => (t.status, t.assigneeMembershipId),
    (db .ticketEvents).filter (·.ticketId = id))

/-- There is no such ticket and it has no events, or there is one and the events lead to it. -/
def Ledger (x : Entry) : Prop :=
  x = ([], []) ∨ ∃ s a, x.1 = [(s, a)] ∧ History x.2 s a

theorem entry_other {w : Write} (db : Db) (id : UUID) (ht : Table.tickets ≠ w.table)
    (he : Table.ticketEvents ≠ w.table) : entry (w.apply db) id = entry db id := by
  simp only [entry, Write.apply_other w db ht, Write.apply_other w db he]

theorem entry_insert_ticket (t : Ticket) (db : Db) (id : UUID) :
    entry ((Write.insert .tickets t).apply db) id =
      if t.id = id then ((entry db id).1 ++ [(t.status, t.assigneeMembershipId)], (entry db id).2)
      else entry db id := by
  have he : (Write.insert .tickets t).apply db .ticketEvents = db .ticketEvents :=
    Write.apply_other _ db nofun
  by_cases h : t.id = id <;> simp [entry, he, h]

theorem entry_insert_event (e : TicketEvent) (db : Db) (id : UUID) :
    entry ((Write.insert .ticketEvents e).apply db) id =
      if e.ticketId = id then ((entry db id).1, (entry db id).2 ++ [e]) else entry db id := by
  have ht : (Write.insert .ticketEvents e).apply db .tickets = db .tickets :=
    Write.apply_other _ db nofun
  by_cases h : e.ticketId = id <;> simp [entry, ht, h]

theorem entry_update_ticket (l c : Ticket) (db : Db) (id : UUID) :
    entry ((Write.update .tickets l c).apply db) id =
      if l.id = id then ((entry db id).1.map fun p => (Table.changed l.status c.status p.1,
        Table.changed l.assigneeMembershipId c.assigneeMembershipId p.2), (entry db id).2)
      else entry db id := by
  have he : (Write.update .tickets l c).apply db .ticketEvents = db .ticketEvents :=
    Write.apply_other _ db nofun
  simp only [entry, he, Write.apply_update, List.filter_map, List.map_map]
  have hf : ((fun r : Ticket => decide (r.id = id)) ∘ fun r =>
      if Table.isSameRow .tickets l r then Table.patch .tickets l c r else r) =
      fun r => decide (r.id = id) := by
    funext r
    simp only [Function.comp]
    split <;> rfl
  rw [hf]
  split
  · rename_i h
    congr 1
    refine List.map_congr_left fun r hr => ?_
    have hr : r.id = l.id := by simpa [h] using (List.mem_filter.mp hr).2
    simp [Function.comp, Table.isSameRow, Table.id, hr, Table.patch]
  · rename_i h
    congr 1
    refine List.map_congr_left fun r hr => ?_
    have hr : r.id ≠ l.id := fun he => h (by simpa [he] using (List.mem_filter.mp hr).2)
    simp [Function.comp, Table.isSameRow, Table.id, hr]

/-- An update of the other columns leaves every entry, however stale its copy of the ticket. -/
theorem entry_update_fields {l c : Ticket} (hs : c.status = l.status)
    (ha : c.assigneeMembershipId = l.assigneeMembershipId) (db : Db) (id : UUID) :
    entry ((Write.update .tickets l c).apply db) id = entry db id := by
  rw [entry_update_ticket, hs, ha]
  split
  · simp [Table.changed]
  · rfl

/-- A ticket a query finds under its row lock is what its entry says. -/
theorem entry_of_ticket {db : Db} {tenantId ticketId : UUID} {t : Ticket}
    (h : db.ticket tenantId ticketId = some t) (hl : Ledger (entry db t.id)) :
    ∃ es, entry db t.id = ([(t.status, t.assigneeMembershipId)], es) := by
  have hmem : t ∈ db .tickets := List.mem_of_find?_eq_some h
  have hrow : (t.status, t.assigneeMembershipId) ∈ (entry db t.id).1 :=
    List.mem_map.mpr ⟨t, List.mem_filter.mpr ⟨hmem, by simp⟩, rfl⟩
  rcases hl with hl | ⟨s, a, hl, -⟩
  · rw [hl] at hrow
    cases hrow
  · rw [hl, List.mem_singleton] at hrow
    exact ⟨_, Prod.ext (by rw [hl, hrow]) rfl⟩

/-! ## The outline -/

/-- Every entry is in order, and a locked ticket's entry is its holder's to change. -/
def outline : WorldOutline := StoreOutline.world {
  inv s := ∀ id, Ledger (entry s.db id)
  frame j s s' := ∀ id, s.owner (.row .tickets id) = some j → entry s'.db id = entry s.db id
  refl _ _ _ _ := rfl
  trans j _ _ _ hf h h' id ho := (h' id ((hf.owner _).mpr ho)).trans (h id ho)
  inv_local hl h := by rw [hl.db]; exact h
  frame_local _ hl _ _ := by rw [hl.db] }

variable {i : Nat}

/-- Ticket `t` is locked, and its entry is still what `t` says. -/
def Locked (i : Nat) (t : Ticket) (es : List TicketEvent) : outline.outline.Assertion i where
  holds W := W.store.owner (.row .tickets t.id) = some i ∧
    entry W.store.db t.id = ([(t.status, t.assigneeMembershipId)], es)
  stable _ _ h hm := ⟨(hm.2.1.owner _).mpr h.1, (hm.2.2 _ h.1).trans h.2⟩

theorem own_locked {t : Ticket} {es : List TicketEvent} :
    WorldOutline.Own (Locked i t es) := fun hl ho _ h => ⟨ho _ h.1, by rw [hl.db]; exact h.2⟩

/-- A locked ticket has an assignee unless it is open. -/
theorem Locked.unassigned {t : Ticket} {es : List TicketEvent} {W : World}
    (h : Locked i t es W) (hi : outline.outline.inv W) :
    t.status = .open ↔ t.assigneeMembershipId = none := by
  rcases hi.2 t.id with hl | ⟨s, a, hr, hh⟩
  · rw [h.2] at hl
    cases hl
  · rw [h.2] at hr
    cases hr
    exact hh.unassigned

/-- What is left when a call raises: a domain error means that nothing was committed. -/
def Raised (i : Nat) (e : Exn) : outline.outline.Assertion i where
  holds W := e.isTicketServiceError = true ∨ e = .integrityError → outline.NoCommit i W
  stable W W' h hm he := (outline.NoCommit i).stable W W' (h he) hm

theorem raised_of_noCommit (e : Exn) (W : World) (h : outline.NoCommit i W) : Raised i e W :=
  fun _ => h

theorem raised_of_outside {e : Exn} (h : e.isOutside = true ∨ e = .invalidRequest) (W : World) :
    Raised i e W := by
  rintro (he | rfl)
  · rcases h with h | rfl
    · cases e <;> cases h <;> cases he
    · cases he
  · rcases h with h | h <;> cases h

/-! ## The calls -/

open WorldOutline (Before commitOnce addWrite local_before own_true raise_outside)

section Calls

variable {admits : Admission} {X : outline.outline.Assertion i}
variable {φ : List Write → Prop} (S : RBACService)

theorem quiet {α : Type} {p : Service α} {ρ : Exn → Prop} (hp : Service.Quiet ρ p)
    (hX : WorldOutline.Own X) :
    Triple (callStep admits i) (Before X φ) p (fun _ => Before X φ) (Raised i) :=
  WorldOutline.quiet hp (fun _ ho => ⟨ho.quiet, trivial⟩) (local_before hX raised_of_noCommit)

/-- A domain error raised before the commit. -/
theorem throws {α : Type} {e : Exn} {B : α → outline.outline.Assertion i} :
    Triple (callStep admits i) (Before X φ) (throw e : Service α) B (Raised i) :=
  Triple.raise fun W _ h => raised_of_noCommit e W h.1

/-- Reading a row back after the commit. -/
theorem refresh (t : Table) (id : UUID) {B : t.Row → outline.outline.Assertion i}
    (hB : ∀ row W, B row W) :
    Triple (callStep admits i) .true (Service.refresh t id) B (Raised i) :=
  (WorldOutline.quiet (Service.quiet_refresh t id (ρ := (· = .invalidRequest)) rfl)
    (fun _ ho => ⟨ho.quiet, trivial⟩) ⟨fun _ _ _ => trivial, fun _ _ he _ =>
      raised_of_outside he.symm _,
      fun _ _ _ he _ _ _ => raised_of_outside he.symm _⟩).conseq (fun _ _ h => h)
    (fun row W _ _ => hB row W) fun _ _ _ h => h

theorem hasPermission (hX : WorldOutline.Own X) (m : Membership) (p : PermissionCode) :
    Triple (callStep admits i) (Before X φ) (S.hasPermission m p) (fun _ => Before X φ)
      (Raised i) :=
  quiet (S.quiet_hasPermission (ρ := fun _ => True) trivial m p) hX

/-- The rest of a call after a check that may raise. -/
theorem check {α : Type} {b : Bool} {e : Exn} {k : Service α}
    {B : α → outline.outline.Assertion i}
    (h : Triple (callStep admits i) (Before X φ) k B (Raised i)) :
    Triple (callStep admits i) (Before X φ) (if b then throw e else k) B (Raised i) := by
  split
  · exact throws
  · exact h

theorem requireAccess (hX : WorldOutline.Own X) (context : CurrentTenant) (t : Ticket)
    (p : PermissionCode) :
    Triple (callStep admits i) (Before X φ) (TicketService.requireAccess S context (some t) p)
      (fun t' => (Before X φ).and (.pure (t' = t))) (Raised i) := by
  refine Triple.bind (M := fun _ => Before X φ) ?_ fun ok => ?_
  · unfold TicketService.canAccess
    split
    · exact Triple.ret fun _ _ h => h
    · exact hasPermission S hX _ _
  · split
    · exact Triple.ret fun W _ h => ⟨h, rfl⟩
    · exact throws

/-- A workflow action starts from a locked ticket. -/
theorem getLockedVisible (context : CurrentTenant) (ticketId : UUID) :
    Triple (callStep admits i) (Before .true (· = []))
      (TicketService.getLockedVisible S context ticketId)
      (fun t => .ex fun es => Before (Locked i t es) (· = [])) (Raised i) := by
  refine Triple.bind (M := fun found => match found with
      | none => Before .true (· = [])
      | some t => .ex fun es => Before (Locked i t es) (· = [])) ?_ fun found => ?_
  · refine WorldOutline.selectForUpdate (local_before own_true raised_of_noCommit)
      (ρ := fun _ => True) fun W W' hi h hk _ hl => ?_
    have hw : (W'.store.sessions i).writes = [] := hk.writes.trans h.2.2
    rw [WorldOutline.view_eq h.2.2] at hl ⊢
    cases hq : W.store.db.ticket context.tenant.id ticketId with
    | none => exact ⟨WorldOutline.noCommit_local hk.toLocal h.1, trivial, hw⟩
    | some t =>
      obtain ⟨es, hes⟩ := entry_of_ticket hq (hi.2 t.id)
      exact ⟨es, WorldOutline.noCommit_local hk.toLocal h.1,
        ⟨hl t hq, by rw [hk.db]; exact hes⟩, hw⟩
  · cases found with
    | none => exact throws
    | some t =>
      refine Triple.ex fun es => (requireAccess S own_locked context t _).conseq
        (fun _ _ h => h) (fun t' W _ h => ?_) fun _ _ _ h => h
      obtain ⟨h, rfl⟩ := h
      exact ⟨es, h⟩

theorem transition_mem {s t : TicketStatus} {action : TicketAction}
    (h : nextTicketStatus s action = .ok t) : (s, t) ∈ transitions action := by
  unfold nextTicketStatus at h
  split at h
  · rename_i next hn
    cases h
    obtain ⟨l₁, l₂, hl, -⟩ := List.lookup_eq_some_iff.mp hn
    simp [hl]
  · cases h

/-- What an action's two statements make of the entries. -/
theorem entry_action {db : Db} {t t' : Ticket} {e : TicketEvent} {es : List TicketEvent} {τ : Time}
    (hid : e.ticketId = t.id)
    (hx : entry db t.id = ([(t.status, t.assigneeMembershipId)], es)) {ws : List Write}
    (hws : ws = [] ∧ t = t' ∨ ∃ τ, ws = [(Write.update .tickets t t').stamp τ]) (id : UUID) :
    entry ((ws ++ [(Write.insert .ticketEvents e).stamp τ]).foldl (fun db w => w.apply db) db) id =
      if id = t.id then ([(t'.status, t'.assigneeMembershipId)], es ++ [{ e with createdAt := τ }])
      else entry db id := by
  simp only [List.foldl_append, List.foldl_cons, List.foldl_nil, Write.stamp, Table.stampInsert,
    entry_insert_event, hid]
  have hu : entry (ws.foldl (fun db w => w.apply db) db) id =
      if id = t.id then ([(t'.status, t'.assigneeMembershipId)], es) else entry db id := by
    rcases hws with ⟨rfl, rfl⟩ | ⟨τ', rfl⟩
    · split
      · rename_i h
        rw [h]
        exact hx
      · rfl
    · simp only [List.foldl_cons, List.foldl_nil, Write.stamp, Table.stampUpdate,
        entry_update_ticket]
      by_cases h : t.id = id
      · rw [if_pos h, if_pos h.symm, ← h, hx]
        simp [Table.changed_self]
      · rw [if_neg h, if_neg (Ne.symm h)]
  rw [hu]
  by_cases h : t.id = id
  · rw [if_pos h, if_pos h.symm, if_pos h.symm]
  · rw [if_neg h, if_neg (Ne.symm h), if_neg (Ne.symm h)]

/-- What a session has written once it has saved an action's ticket. -/
def Saved (t t' : Ticket) (ws : List Write) : Prop :=
  ws = [] ∧ t = t' ∨ ∃ τ, ws = [(Write.update .tickets t t').stamp τ]

/-- A workflow action that is allowed keeps every ledger. -/
theorem saveAction {context : CurrentTenant} {t : Ticket} {es : List TicketEvent}
    {action : TicketAction} {next : TicketStatus} {assignee : Option UUID} {note : Option String}
    (htr : (t.status, next) ∈ transitions action) (hopen : next = .open ↔ assignee = none) :
    Triple (callStep admits i) (Before (Locked i t es) (· = []))
      (TicketService.saveAction context t action next assignee note) (fun _ => .true)
      (Raised i) := by
  refine Triple.bind (quiet Service.quiet_uuid4 own_locked (ρ := fun _ => True)) fun eventId => ?_
  let t' := TicketService.withAction t next assignee
  let e := TicketService.actionEvent context t action next assignee note eventId
  refine Triple.bind (M := fun _ => Before (Locked i t es) (Saved t t')) ?_ fun _ => ?_
  · unfold Service.update
    split
    · rename_i heq
      exact Triple.ret fun W _ h => ⟨h.1, h.2.1, .inl ⟨h.2.2, heq⟩⟩
    · exact addWrite own_locked raised_of_noCommit fun ws τ hws => .inr ⟨τ, by rw [hws]; rfl⟩
  refine Triple.bind (M := fun _ => Before (Locked i t es) fun ws => ∃ ws₁ τ,
    Saved t t' ws₁ ∧ ws = ws₁ ++ [(Write.insert .ticketEvents e).stamp τ])
    (addWrite own_locked raised_of_noCommit fun ws τ hws => ⟨ws, τ, hws, rfl⟩) fun _ => ?_
  refine Triple.bind (M := fun _ => .true) (commitOnce own_locked raised_of_noCommit
    (raise_outside fun e W he _ => raised_of_outside (.inl he) W)
    fun W W' hi hX ⟨ws₁, τ, hws, hw⟩ hc _ => ?_) fun _ => refresh _ _ fun _ _ => trivial
  have hentry : ∀ id, entry W'.store.db id = if id = t.id then
      ([(next, assignee)], es ++ [{ e with createdAt := τ }]) else entry W.store.db id := by
    intro id
    rw [hc.db, Store.view, hw]
    exact entry_action rfl hX.2 hws id
  refine ⟨fun id => ?_, fun j hj id ho => ?_, trivial⟩
  · rw [hentry]
    split
    · refine .inr ⟨next, assignee, rfl, ?_⟩
      rcases hi.2 t.id with hl | ⟨s, a, hr, hh⟩
      · rw [hX.2] at hl
        cases hl
      · rw [hX.2] at hr hh
        cases hr
        exact .acted (e := { e with createdAt := τ }) hh ⟨rfl, rfl, rfl, htr, hopen⟩
    · exact hi.2 id
  · rw [hentry, if_neg]
    rintro rfl
    exact hj (Option.some.inj (ho.symm.trans hX.1))

/-- The check of the transition, and what it says of the action. -/
theorem nextStatus {α : Type} {A : outline.outline.Assertion i} {s : TicketStatus}
    {action : TicketAction} {k : TicketStatus → Service α} {B : α → outline.outline.Assertion i}
    (hA : ∀ W, A W → outline.NoCommit i W)
    (h : ∀ t, (s, t) ∈ transitions action → Triple (callStep admits i) A (k t) B (Raised i)) :
    Triple (callStep admits i) A ((TicketService.nextStatus s action).bind k) B (Raised i) := by
  unfold TicketService.nextStatus
  split
  · rename_i t ht
    exact h t (transition_mem ht)
  · exact Triple.raise fun W _ hW => raised_of_noCommit _ W (hA W hW)

/-- A workflow action, after its lock. -/
theorem locked {context : CurrentTenant} {ticketId : UUID} {α : Type} {k : Ticket → Service α}
    {B : α → outline.outline.Assertion i}
    (h : ∀ t es, (t.status = .open ↔ t.assigneeMembershipId = none) →
      Triple (callStep admits i) (Before (Locked i t es) (· = [])) (k t) B (Raised i)) :
    Triple (callStep admits i) (Before .true (· = []))
      ((TicketService.getLockedVisible S context ticketId).bind k) B (Raised i) :=
  Triple.bind (getLockedVisible S context ticketId) fun t => Triple.ex fun es W hi hA =>
    h t es (Locked.unassigned hA.2.1 hi) W hi hA

theorem claim (context : CurrentTenant) (ticketId : UUID) (note : Option String) :
    Triple (callStep admits i) (Before .true (· = []))
      (TicketService.claim S context ticketId note) (fun _ => .true) (Raised i) := by
  refine locked S fun t es _ => ?_
  refine Triple.bind (quiet (TicketService.quiet_requireWorkflowPermission S context) own_locked)
    fun _ => ?_
  refine nextStatus (fun _ h => h.1) fun next htr => check (saveAction htr ?_)
  obtain rfl : next = .inProgress := by
    have := List.mem_singleton.mp htr
    exact congrArg Prod.snd this
  exact ⟨nofun, nofun⟩

theorem transfer (context : CurrentTenant) (ticketId assignee : UUID) (note : Option String) :
    Triple (callStep admits i) (Before .true (· = []))
      (TicketService.transfer S context ticketId assignee note) (fun _ => .true) (Raised i) := by
  refine locked S fun t es _ => ?_
  refine Triple.bind (quiet (TicketService.quiet_requireWorkflowPermission S context) own_locked)
    fun _ => ?_
  refine Triple.bind (quiet (TicketService.quiet_requireAssigneeOrAdmin S context t) own_locked)
    fun _ => ?_
  refine nextStatus (fun _ h => h.1) fun next htr => ?_
  refine Triple.bind (quiet (ρ := fun _ => True) (Service.quiet_select _) own_locked)
    fun found => ?_
  cases found with
  | none => exact throws
  | some target =>
    refine Triple.bind (hasPermission S own_locked target _) fun ok => check ?_
    show Triple _ _ (if _ then _ else _) _ _
    split
    · exact throws
    · refine saveAction htr ?_
      obtain rfl : next = .inProgress := by
        have := List.mem_singleton.mp htr
        exact congrArg Prod.snd this
      exact ⟨nofun, nofun⟩

/-- `resolve` and `close`: the assignee stays. -/
theorem conclude {action : TicketAction} (haction : action = .resolve ∨ action = .close)
    (context : CurrentTenant) (ticketId : UUID) (note : Option String) :
    Triple (callStep admits i) (Before .true (· = []))
      (TicketService.conclude S action context ticketId note) (fun _ => .true) (Raised i) := by
  refine locked S fun t es hopen => ?_
  refine Triple.bind (quiet (TicketService.quiet_requireWorkflowPermission S context) own_locked)
    fun _ => ?_
  refine Triple.bind (quiet (TicketService.quiet_requireAssigneeOrAdmin S context t) own_locked)
    fun _ => ?_
  refine nextStatus (fun _ h => h.1) fun next htr => saveAction htr ?_
  obtain ⟨hs, hn⟩ : t.status ≠ .open ∧ next ≠ .open := by
    rcases haction with rfl | rfl <;> simp_all [transitions]
  exact ⟨fun h => absurd h hn, fun h => absurd (hopen.mpr h) hs⟩

theorem reopen (context : CurrentTenant) (ticketId : UUID) (note : Option String) :
    Triple (callStep admits i) (Before .true (· = []))
      (TicketService.reopen S context ticketId note) (fun _ => .true) (Raised i) := by
  refine locked S fun t es _ => ?_
  refine Triple.bind (hasPermission S own_locked context.membership _) fun ok => check ?_
  refine nextStatus (fun _ h => h.1) fun next htr => saveAction htr ?_
  have hn : next = .open := by
    have : (t.status, next) = (.resolved, .open) ∨ (t.status, next) = (.closed, .open) := by
      simpa [transitions] using htr
    rcases this with h | h <;> exact congrArg Prod.snd h
  simp [hn]

/-- The changes of `update` leave what the ledger is about. -/
def SameEntry (l c : Ticket) : Prop :=
  c.status = l.status ∧ c.assigneeMembershipId = l.assigneeMembershipId

/-- A change of one field: the object as it was or with the field changed, or an error. -/
theorem changeField {α : Type} {fields : List String} {field : String} {value : Option α}
    {l : Ticket} {change : α → Ticket} (hsame : ∀ a, SameEntry l (change a)) :
    Triple (callStep admits i) (Before X φ)
      (Service.changeField fields field value l fun a => pure (change a))
      (fun c => (Before X φ).and (.pure (SameEntry l c))) (Raised i) := by
  rcases Service.changeField_cases fields field value l fun a => pure (change a) with
    h | h | ⟨a, -, h⟩ <;> rw [h]
  · exact Triple.ret fun _ _ hb => ⟨hb, rfl, rfl⟩
  · exact throws
  · exact Triple.ret fun _ _ hb => ⟨hb, hsame a⟩

/-- What a session has written once it has saved a ticket's other fields. -/
def SavedFields (ws : List Write) : Prop :=
  ws = [] ∨ ∃ l c τ, SameEntry l c ∧ ws = [(Write.update .tickets l c).stamp τ]

/-- `update` holds no lock before its statement, and changes no entry. -/
theorem update (context : CurrentTenant) (ticketId : UUID) (c : TicketChanges) :
    Triple (callStep admits i) (Before .true (· = []))
      (TicketService.update S context ticketId c) (fun _ => .true) (Raised i) := by
  refine Triple.bind (quiet (ρ := fun _ => True) (Service.quiet_select _) own_true) fun found => ?_
  refine Triple.bind (M := fun _ => Before .true (· = [])) ?_ fun loaded => ?_
  · cases found with
    | none => exact throws
    | some t =>
      exact (requireAccess S own_true context t _).conseq (fun _ _ h => h) (fun _ _ _ h => h.1)
        fun _ _ _ h => h
  refine Triple.bind (changeField fun _ => ⟨rfl, rfl⟩) fun t₁ => Triple.assume fun h₁ => ?_
  refine Triple.bind (changeField fun _ => ⟨rfl, rfl⟩) fun t₂ => Triple.assume fun h₂ => ?_
  refine Triple.bind (changeField fun _ => ⟨rfl, rfl⟩) fun t₃ => Triple.assume fun h₃ => ?_
  have hsame : SameEntry loaded t₃ :=
    ⟨h₃.1.trans (h₂.1.trans h₁.1), h₃.2.trans (h₂.2.trans h₁.2)⟩
  refine Triple.bind (M := fun _ => Before .true SavedFields) ?_ fun _ => ?_
  · unfold Service.update
    split
    · exact Triple.ret fun W _ h => ⟨h.1, h.2.1, .inl h.2.2⟩
    · exact addWrite own_true raised_of_noCommit fun ws τ hws =>
        .inr ⟨loaded, t₃, τ, hsame, by rw [hws]; rfl⟩
  refine Triple.bind (M := fun _ => .true) (commitOnce own_true raised_of_noCommit
    (raise_outside fun e W he _ => raised_of_outside (.inl he) W)
    fun W W' hi _ hws hc _ => ?_) fun _ => refresh _ _ fun _ _ => trivial
  have hentry : ∀ id, entry W'.store.db id = entry W.store.db id := by
    intro id
    rw [hc.db, Store.view]
    rcases hws with hws | ⟨l, c, τ, hsame, hws⟩
    · rw [hws]
      rfl
    · rw [hws]
      exact entry_update_fields (c := Table.stampUpdate τ .tickets c) hsame.1 hsame.2 _ _
  exact ⟨fun id => by rw [hentry]; exact hi.2 id, fun _ _ id _ => hentry id, trivial⟩

/-- No row has the id of a ticket whose key is reserved. -/
theorem entry_of_absent {db : Db} {id : UUID} (h : db.present (.row .tickets id) = false)
    (hl : Ledger (entry db id)) : entry db id = ([], []) := by
  have hnone : (entry db id).1 = [] := by
    rw [entry, List.map_eq_nil_iff, List.filter_eq_nil_iff]
    exact fun t ht hid => Db.present_row.mp h t ht (of_decide_eq_true hid)
  rcases hl with hl | ⟨s, a, hl, -⟩
  · exact hl
  · rw [hnone] at hl
    cases hl

/-- The body `create` guards against a uniqueness race. -/
theorem insertTicket (context : CurrentTenant) (r : CreationRequest) (key hash : String)
    (ticketId eventId keyId : UUID) :
    Triple (callStep admits i) (Before .true (· = []))
      (do
        TicketService.insertTicket context r key hash ticketId eventId keyId
        Service.commit
        pure (none : Option TicketCreationResult)) (fun _ => .true) (Raised i) := by
  let X : outline.outline.Assertion i := .and .true (outline.Reserved i (.row .tickets ticketId))
  have hX : WorldOutline.Own X := own_true.and (WorldOutline.own_reserved _)
  refine Triple.bind (M := fun _ => Before X
    (TicketService.Created context r key hash ticketId eventId keyId)) ?_ fun _ => ?_
  · refine Triple.bind (WorldOutline.addInsert (k := .row .tickets ticketId)
      (by simp [Table.id, TicketService.newTicket]) own_true (fun ws hws => by simp [hws])
      raised_of_noCommit) fun _ => ?_
    refine Triple.bind (M := fun _ => Before X fun ws => ∃ τ τ', ws =
      [(Write.insert .tickets (TicketService.newTicket context r ticketId)).stamp τ,
      (Write.insert .ticketEvents (TicketService.createdEvent context ticketId eventId)).stamp τ'])
      (addWrite hX raised_of_noCommit ?_) fun _ => addWrite hX raised_of_noCommit ?_
    · rintro ws τ' ⟨_, τ, rfl, hws⟩
      exact ⟨τ, τ', by rw [hws]; rfl⟩
    · rintro ws τ'' ⟨τ, τ', hws⟩
      exact ⟨τ, τ', τ'', by rw [hws]; rfl⟩
  · refine Triple.bind (M := fun _ => .true) (commitOnce hX raised_of_noCommit
      (raise_outside fun e W he _ => raised_of_outside (.inl he) W)
      fun W W' hi hres hws hc _ => ?_) fun _ => Triple.ret fun _ _ _ => trivial
    obtain ⟨τ, τ', τ'', hws⟩ := hws
    have hnone : entry W.store.db ticketId = ([], []) := entry_of_absent hres.2.2 (hi.2 ticketId)
    have hentry : ∀ id, entry W'.store.db id = if ticketId = id then ([(.open, none)],
        [{ TicketService.createdEvent context ticketId eventId with createdAt := τ' }])
        else entry W.store.db id := by
      intro id
      rw [hc.db, Store.view, hws]
      simp only [List.foldl_cons, List.foldl_nil, schema]
      rw [Write.stamp, entry_other _ id (by rintro ⟨⟩) (by rintro ⟨⟩), Write.stamp,
        entry_insert_event,
        Write.stamp, entry_insert_ticket]
      by_cases hid : ticketId = id
      · subst hid
        simp [Table.stampInsert, TicketService.createdEvent, TicketService.newTicket, hnone]
      · simp [Table.stampInsert, TicketService.createdEvent, TicketService.newTicket, hid]
    refine ⟨fun id => ?_, fun j hj id ho => ?_, trivial⟩
    · rw [hentry]
      split
      · exact .inr ⟨.open, none, rfl, History.created ⟨rfl, rfl, rfl, rfl, rfl⟩⟩
      · exact hi.2 id
    · rw [hentry, if_neg]
      rintro rfl
      exact hj (Option.some.inj (ho.symm.trans hres.2.1))

/-- After a uniqueness race a call only reads. -/
theorem replayRaced (context : CurrentTenant) (key hash : String) :
    Triple (callStep admits i) (Before .true fun _ => True)
      (TicketService.replayRaced context key hash) (fun _ => .true) (Raised i) := by
  refine Triple.bind (M := fun _ => Before .true fun _ => True) ?_ fun _ => ?_
  · exact WorldOutline.rollback (local_before own_true raised_of_noCommit) (ρ := fun _ => True)
      fun W W' _ h hd _ => ⟨WorldOutline.noCommit_local hd.toLocal h.1, trivial, trivial⟩
  refine Triple.bind (quiet (ρ := fun _ => True) (Service.quiet_select _) own_true) fun found => ?_
  cases found with
  | none => exact throws
  | some record =>
    exact (quiet (TicketService.quiet_replayCreation record hash) own_true).conseq
      (fun _ _ h => h) (fun _ _ _ _ => trivial) fun _ _ _ h => h

theorem create (P : Platform) (context : CurrentTenant) (r : CreationRequest) (key : String) :
    Triple (callStep admits i) (Before .true (· = []))
      (TicketService.create P S context r key) (fun _ => .true) (Raised i) := by
  refine Triple.bind (quiet (ρ := fun _ => True) (Service.quiet_select _) own_true) fun found => ?_
  cases found with
  | some record =>
    exact (quiet (TicketService.quiet_replayCreation record _) own_true).conseq
      (fun _ _ h => h) (fun _ _ _ _ => trivial) fun _ _ _ h => h
  | none =>
    refine Triple.bind (quiet (TicketService.quiet_checkCustomer S context _) own_true) fun _ => ?_
    refine Triple.bind (quiet (ρ := fun _ => True) Service.quiet_uuid4 own_true) fun ticketId => ?_
    refine Triple.bind (quiet (ρ := fun _ => True) Service.quiet_uuid4 own_true) fun eventId => ?_
    refine Triple.bind (quiet (ρ := fun _ => True) Service.quiet_uuid4 own_true) fun keyId => ?_
    refine Triple.bind (M := fun _ => .true) (Triple.handle (M := Raised i) ?_ fun e => ?_)
      fun replayed => ?_
    · exact insertTicket context r key _ ticketId eventId keyId
    · split
      · rename_i he
        subst he
        refine Triple.bind (M := fun _ => .true) ((replayRaced context key _).pre fun W _ h =>
          ⟨h (.inr rfl), trivial, trivial⟩) fun _ => Triple.ret fun _ _ _ => trivial
      · exact Triple.raise fun _ _ h => h
    · cases replayed with
      | some replayed => exact Triple.ret fun _ _ _ => trivial
      | none =>
        exact Triple.bind (refresh _ _ (B := fun _ => .true) fun _ _ => trivial)
          fun _ => Triple.ret fun _ _ _ => trivial

theorem call (P : Platform) (c : TicketCall) :
    Triple (callStep admits i) (Before .true (· = [])) (c.prog P S) (fun _ => .true)
      (Raised i) := by
  cases c with
  | create context r key => exact create S P context r key
  | update context id c => exact update S context id c
  | claim context id note => exact claim S context id note
  | transfer context id assignee note => exact transfer S context id assignee note
  | resolve context id note => exact conclude S (.inl rfl) context id note
  | reopen context id note => exact reopen S context id note
  | close context id note => exact conclude S (.inr rfl) context id note

end Calls

theorem inv_elsewhere {W W' : World} (h : Elsewhere W W') (hi : outline.outline.inv W) :
    outline.outline.inv W' ∧ ∀ j, outline.outline.frame j W W' := by
  have hentry : ∀ id, entry W'.store.db id = entry W.store.db id := fun id => by
    rw [entry, h.tickets, h.ticketEvents]
    rfl
  refine ⟨⟨fun j w hw k hk => ?_, fun id => by rw [hentry]; exact hi.2 id⟩, fun j =>
    ⟨⟨by rw [h.sessions], fun k => by rw [h.owner], fun k hk hp => ?_, [], by simp [h.wal],
      fun _ hc => by cases hc⟩, fun id _ => hentry id⟩⟩
  · rw [h.sessions] at hw
    rw [h.owner]
    exact hi.1 j w hw k hk
  · exact h.absent k (by rw [hk]; nofun) hp

/-- What is left of a call that has ended. -/
def Left (i : Nat) {α : Type} (r : Except Exn α) (W : World) : Prop :=
  ∀ e, r = .error e → e.isTicketServiceError = true → outline.NoCommit i W

section Pool

variable {C : Calls} {admits : Admission}

/-- Calls that keep the ledgers. -/
def Keep (C : Calls) (admits : Admission) : Prop :=
  ∀ i c, Triple (callStep admits i) (Before .true (· = [])) (C.prog c) (fun _ => .true) (Raised i)

/-- The calls meet the outline. -/
theorem ok (hcall : Keep C admits) :
    outline.outline.Ok (C.system (fun _ _ => True) admits Elsewhere)
      (fun i _ => post (fun _ => .true) (Raised i)) (fun i _ r W => Left i r W) :=
  WorldOutline.sound (fun _ _ _ _ => trivial) (fun _ _ _ => .true) (fun i _ => Raised i)
    (fun i c _ => hcall i c)
    (fun i c r W _ h e he hd => by
      subst he
      exact h (.inl hd))
    (fun i c r W W' h hm e he hd => (outline.NoCommit i).stable W W' (h e he hd) hm)
    fun W W' hi henv => inv_elsewhere henv hi

/-- From a database without tickets every reachable one keeps the ledgers. -/
theorem poolOk (hcall : Keep C admits) {W₀ : World} (hq : W₀.Quiet)
    (ht : W₀.store.db .tickets = []) (he : W₀.store.db .ticketEvents = [])
    {pool : (C.system (fun _ _ => True) admits Elsewhere).Pool} (h : System.Reachable W₀ pool) :
    outline.outline.PoolOk (fun i _ => post (fun _ => .true) (Raised i))
      (fun i _ r W => Left i r W) pool := by
  refine (ok hcall).sound ⟨fun i w hw => ?_, fun id => .inl ?_⟩ h
  · rw [hq.sessions i] at hw
    cases hw
  · rw [entry, ht, he]
    rfl

end Pool

/-- The calls of the ticket service do. -/
theorem keep_ticketCalls (P : Platform) (S : RBACService) (admits : Admission) :
    Keep (ticketCalls P S) admits := fun _ c => call S P c

end Audit

/-- What the audit log says of ticket `t`, next to what its row says. -/
structure AuditLogAgrees (db : Db) (t : Ticket) : Prop where
  /-- The first event is the creation, and the only one. -/
  created : ∃ e rest, (db .ticketEvents).filter (·.ticketId = t.id) = e :: rest ∧
    e.eventType = .created ∧ e.fromStatus = none ∧ e.toStatus = .open ∧
    e.fromAssigneeMembershipId = none ∧ e.toAssigneeMembershipId = none ∧
    ∀ e' ∈ rest, e'.eventType ≠ .created ∧ ∃ action s, e'.eventType = eventTypes action ∧
      e'.fromStatus = some s ∧ (s, e'.toStatus) ∈ transitions action
  chain : ((db .ticketEvents).filter (·.ticketId = t.id)).IsChain fun e e' =>
    e'.fromStatus = some e.toStatus ∧ e'.fromAssigneeMembershipId = e.toAssigneeMembershipId
  last : ∃ e, ((db .ticketEvents).filter (·.ticketId = t.id)).getLast? = some e ∧
    e.toStatus = t.status ∧ e.toAssigneeMembershipId = t.assigneeMembershipId
  unassigned : t.status = .open ↔ t.assigneeMembershipId = none
  reopened : ∀ pre c mid c' post,
    (db .ticketEvents).filter (·.ticketId = t.id) = pre ++ c :: mid ++ c' :: post →
    c.eventType = .claimed → c'.eventType = .claimed → ∃ e ∈ mid, e.eventType = .reopened

theorem Audit.Ledger.agrees {db : Db} {t : Ticket} (ht : t ∈ db .tickets)
    (hl : Ledger (entry db t.id)) : AuditLogAgrees db t := by
  have hrow : (t.status, t.assigneeMembershipId) ∈ (entry db t.id).1 :=
    List.mem_map.mpr ⟨t, List.mem_filter.mpr ⟨ht, by simp⟩, rfl⟩
  rcases hl with hl | ⟨s, a, hl, hh⟩
  · rw [hl] at hrow
    cases hrow
  · rw [hl, List.mem_singleton] at hrow
    cases hrow
    obtain ⟨e, rest, hes, hc, hr⟩ := hh.head
    refine ⟨⟨e, rest, hes, hc.type, hc.fromStatus, hc.toStatus, hc.fromAssignee, hc.toAssignee,
      fun e' he' => ?_⟩, hh.chain, hh.getLast?, hh.unassigned,
      fun _ _ _ _ _ => hh.reopened_between⟩
    obtain ⟨s', a', action, ha⟩ := hr e' he'
    exact ⟨by rw [ha.type]; exact ne_created action, action, s', ha.type, ha.fromStatus,
      ha.transition⟩

/-- A ticket with a ledger is the only one with its id. -/
theorem Audit.Ledger.unique {db : Db} {t : Ticket} (ht : t ∈ db .tickets)
    (hl : Ledger (entry db t.id)) : (db .tickets).filter (·.id = t.id) = [t] := by
  have hmem : t ∈ (db .tickets).filter (·.id = t.id) := List.mem_filter.mpr ⟨ht, by simp⟩
  rcases hl with hl | ⟨s, a, hl, -⟩
  · rw [List.map_eq_nil_iff.mp (congrArg Prod.fst hl)] at hmem
    cases hmem
  · obtain ⟨t', ht'⟩ := List.length_eq_one_iff.mp (by
      have := congrArg List.length hl
      simpa [Audit.entry] using this)
    rw [ht', List.mem_singleton] at hmem
    rw [ht', hmem]

/-- **The audit log and the ticket rows agree in every reachable state**, one row and one log for
each ticket, and a call that ended with an error of the ticket service has committed nothing. -/
theorem audit_log_agrees_with_ticket (P : Platform) (S : RBACService) {W₀ : World}
    (hq : W₀.Quiet) (ht : W₀.store.db .tickets = []) (he : W₀.store.db .ticketEvents = [])
    {pool : ((ticketCalls P S).system (fun _ _ => True) (fun _ _ _ _ => True) Elsewhere).Pool}
    (h : System.Reachable W₀ pool) :
    (∀ t ∈ pool.shared.store.db .tickets, AuditLogAgrees pool.shared.store.db t ∧
      (pool.shared.store.db .tickets).filter (·.id = t.id) = [t]) ∧
    (∀ e ∈ pool.shared.store.db .ticketEvents,
      ∃ t ∈ pool.shared.store.db .tickets, t.id = e.ticketId) ∧
    ∀ i c e, pool.threads i = .finished c (.error e) → e.isTicketServiceError = true →
      ∀ w ∈ pool.shared.store.wal, w.1 ≠ i := by
  have hok := Audit.poolOk (Audit.keep_ticketCalls P S _) hq ht he h
  refine ⟨fun t ht => ⟨Audit.Ledger.agrees ht (hok.inv.2 t.id), Audit.Ledger.unique ht
    (hok.inv.2 t.id)⟩, fun e he => ?_, fun i c e hi hd => ?_⟩
  · have hmem : e ∈ (Audit.entry pool.shared.store.db e.ticketId).2 :=
      List.mem_filter.mpr ⟨he, by simp⟩
    rcases hok.inv.2 e.ticketId with hl | ⟨s, a, hl, -⟩
    · rw [hl] at hmem
      cases hmem
    · have hrow : (s, a) ∈ (Audit.entry pool.shared.store.db e.ticketId).1 := by simp [hl]
      obtain ⟨t, ht, -⟩ := List.mem_map.mp hrow
      obtain ⟨ht, hid⟩ := List.mem_filter.mp ht
      exact ⟨t, ht, of_decide_eq_true hid⟩
  · exact hok.finished hi e rfl hd

/-- A ticket is created, claimed, and claimed again in vain. -/
theorem audit_log_agrees_with_ticket_claimed :
    ∃ pool : ((ticketCalls .plain ⟨false, 300, 30⟩).system
        (fun _ _ => True) (fun _ _ _ _ => True) Elsewhere).Pool,
      System.Reachable (World.fresh Db.provisioned) pool ∧
      ((pool.shared.store.db .tickets).map fun t => (t.status, t.assigneeMembershipId)) =
        [(.inProgress, some 1)] ∧
      (∀ t ∈ pool.shared.store.db .tickets, AuditLogAgrees pool.shared.store.db t) ∧
      ∀ w ∈ pool.shared.store.wal, w.1 ≠ 2 := by
  let calls := ticketCalls .plain ⟨false, 300, 30⟩
  let moves : List (System.Move TicketCall Choice Empty) := [
    .start 0 (.create .owner ⟨none, "Printer", "It is on fire", .high⟩ "key"),
    .ops 0 (List.replicate 9 { uuid := 1 }), .finish 0,
    .start 1 (.claim .owner 1 none), .ops 1 (List.replicate 7 { uuid := 2 }), .finish 1,
    .start 2 (.claim .owner 1 none), .ops 2 (List.replicate 2 {}), .finish 2]
  obtain ⟨pool, hreach, hobs⟩ := (calls.player Elsewhere (fun _ _ => true)
    fun _ _ _ => trivial).replay_map moves
    (.init (World.fresh Db.provisioned)) (fun pool =>
      ((pool.shared.store.db .tickets).map fun t => (t.status, t.assigneeMembershipId),
        (pool.threads 2).error?))
    (b := ([(.inProgress, some 1)], some (.ticketTransitionConflict .claim .inProgress)))
    (by decide +kernel)
  obtain ⟨hrows, hthread⟩ := Prod.mk.inj hobs
  obtain ⟨c, hc⟩ := System.Thread.error?_eq_some.mp hthread
  obtain ⟨hrow, -, herr⟩ := audit_log_agrees_with_ticket _ _ (World.quiet_fresh _) rfl rfl hreach
  exact ⟨pool, hreach, hrows, fun t ht => (hrow t ht).1, herr 2 _ _ hc rfl⟩

end Ticketing
