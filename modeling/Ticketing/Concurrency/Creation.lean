import Ticketing.Concurrency.TicketCalls
import Mathlib.Data.List.Nodup

/-!
# Creation is idempotent for each key

`TicketService.create` calls, interleaved with each other and with every other call of the ticket
service. `plan` says which call each thread runs.

* `Matches`: a key row is of the member and the key of a call. `creations` are the commits that
  inserted key rows, with what they inserted.
* `Registered` is the invariant. It lines the key rows up with what else a creation leaves behind:
  the tickets, the CREATED events and the commits that inserted the key rows are the same list,
  key by key, and the unique constraints keep that list without repetitions.
* A call knows before its commit that its ticket's id and its key are reserved (`Reserved`), and
  after it which row it has committed (`Done`). For calls that start when some keys `ks` are
  already committed the invariant says so, and such a call can only replay (`Outline.Ok.later`).

Results:
* `hash_eq_iff`: two requests have the same hash exactly if they are the same up to white space.
  This is where the digest is taken to be injective.
* `run_create`: a call for a committed key, left alone, returns at once: the ticket, or a
  conflict.
* `ticket_creation_is_idempotent`: every clause of `IdempotentCreation` in every reachable state.

Assumed: `sha256Hex` is injective, and the tables are empty at the start.
-/

namespace Ticketing

open Lib (Prog Store System Outline Json)
open Lib.Outline (Triple post)

/-! ## The hash of a request -/

namespace CreationRequest

/-- The request as the hash reads it. -/
theorem canonicalRequest_injective {r r' : CreationRequest}
    (h : TicketService.canonicalRequest r = TicketService.canonicalRequest r') :
    r.normalized = r'.normalized := by
  simp only [TicketService.canonicalRequest, Json.obj.injEq, List.cons.injEq, Prod.mk.injEq,
    true_and, and_true, Json.str.injEq] at h
  obtain ⟨hc, hd, hp, hs⟩ := h
  have hcustomer : r.customerId = r'.customerId := by
    rcases hr : r.customerId with _ | u <;> rcases hr' : r'.customerId with _ | v <;>
      rw [hr, hr'] at hc
    · cases hc
    · cases hc
    · rw [UUID.str_injective (Json.str.inj hc)]
  have hpriority : r.priority = r'.priority := Option.some.inj (by
    rw [← TicketPriority.ofValue_value, ← TicketPriority.ofValue_value, hp])
  simp only [normalized, hcustomer, hpriority, hs, hd]

theorem canonicalRequest_normalized {r r' : CreationRequest} (h : r.normalized = r'.normalized) :
    TicketService.canonicalRequest r = TicketService.canonicalRequest r' := by
  simp only [normalized, CreationRequest.mk.injEq] at h
  obtain ⟨hc, hs, hd, hp⟩ := h
  simp only [TicketService.canonicalRequest, hc, hs, hd, hp]

theorem textual_canonicalRequest (r : CreationRequest) :
    Json.Textual (TicketService.canonicalRequest r) := by
  refine ⟨by simp, ?_, trivial, trivial, trivial, trivial⟩
  rcases r.customerId with _ | u <;> trivial

/-- Without collisions the hash separates exactly the requests that would create different
tickets. -/
theorem hash_eq_iff {P : Platform} (hP : Function.Injective P.sha256Hex) {r r' : CreationRequest} :
    TicketService.creationRequestHash P r = TicketService.creationRequestHash P r' ↔
      r.normalized = r'.normalized := by
  unfold TicketService.creationRequestHash
  constructor
  · intro h
    have hjson := String.toByteArray_inj.mp (hP h)
    exact canonicalRequest_injective (Json.dumps_injective false (textual_canonicalRequest r)
      (textual_canonicalRequest r') hjson)
  · intro h
    rw [canonicalRequest_normalized h]

end CreationRequest

/-! ## The invariant -/

namespace Creation

/-- The key row is the one `context` asks for under `key`. -/
structure Matches (context : CurrentTenant) (key : String) (k : TicketCreationKey) : Prop where
  tenant : k.tenantId = context.tenant.id
  membership : k.membershipId = context.membership.id
  key : k.key = key

/-- The unique value of a key row. -/
def ident (k : TicketCreationKey) : UUID × UUID × String := (k.tenantId, k.membershipId, k.key)

/-- What a key row says of its ticket: whose it is, and its id. -/
def subject (k : TicketCreationKey) : UUID × UUID × UUID :=
  (k.tenantId, k.membershipId, k.ticketId)

theorem Matches.ident {context : CurrentTenant} {key : String} {k k' : TicketCreationKey}
    (h : Matches context key k) (h' : Matches context key k') : ident k = ident k' := by
  simp only [Creation.ident, h.tenant, h.membership, h.key, h'.tenant, h'.membership, h'.key]

/-- The key rows a write inserts. -/
def keyOf : Write → List TicketCreationKey
  | .insert .ticketCreationKeys k => [k]
  | _ => []

/-- The key rows of the commits, each with the thread that committed it. -/
def creations (wal : List (Nat × List Write)) : List (Nat × TicketCreationKey) :=
  wal.flatMap fun w => (w.2.flatMap keyOf).map fun k => (w.1, k)

def ticketSubjects (db : Db) : List (UUID × UUID × UUID) :=
  (db .tickets).map fun t => (t.tenantId, t.createdByMembershipId, t.id)

def createdSubjects (db : Db) : List (UUID × UUID × UUID) :=
  ((db .ticketEvents).filter (·.eventType = .created)).map fun e =>
    (e.tenantId, e.actorMembershipId, e.ticketId)

variable (P : Platform) (plan : Nat → TicketCall)

/-- Thread `j` was to create what `k` is the record of. -/
def Planned (j : Nat) (k : TicketCreationKey) : Prop :=
  ∃ context r key, plan j = .create context r key ∧ Matches context key k ∧
    k.requestHash = TicketService.creationRequestHash P r

/-- **The invariant**: tickets, creation events, key rows and the commits that inserted them are
one list without repetitions. -/
structure Registered (db : Db) (wal : List (Nat × List Write)) : Prop where
  log : (creations wal).map Prod.snd = db .ticketCreationKeys
  tickets : ticketSubjects db = (db .ticketCreationKeys).map subject
  events : createdSubjects db = (db .ticketCreationKeys).map subject
  ids : ((db .tickets).map Ticket.id).Nodup
  keys : ((db .ticketCreationKeys).map ident).Nodup
  planned : ∀ c ∈ creations wal, Planned P plan c.1 c.2

/-- Every key row is registered once, those of `ks` among them, and none ever goes. -/
def outline (ks : List TicketCreationKey) : WorldOutline := StoreOutline.world {
  inv s := Registered P plan s.db s.wal ∧ ∀ k ∈ ks, k ∈ s.db .ticketCreationKeys
  frame _ s s' := ∀ k ∈ s.db .ticketCreationKeys, k ∈ s'.db .ticketCreationKeys
  refl _ _ _ hk := hk
  trans _ _ _ _ _ h h' k hk := h' k (h k hk)
  inv_local hl h := by rwa [hl.db, hl.wal]
  frame_local _ hl k hk := by rwa [hl.db] }

section Facts

variable {P plan} {db : Db} {wal : List (Nat × List Write)}

/-- Two key rows with one unique value are the same row. -/
theorem Registered.key_unique (h : Registered P plan db wal) {k k' : TicketCreationKey}
    (hk : k ∈ db .ticketCreationKeys) (hk' : k' ∈ db .ticketCreationKeys)
    (he : ident k = ident k') : k = k' := List.inj_on_of_nodup_map h.keys hk hk' he

/-- The ticket of a key row. -/
theorem Registered.ticket (h : Registered P plan db wal) {k : TicketCreationKey}
    (hk : k ∈ db .ticketCreationKeys) : ∃ t ∈ db .tickets, t.tenantId = k.tenantId ∧
      t.createdByMembershipId = k.membershipId ∧ t.id = k.ticketId := by
  have hmem : subject k ∈ ticketSubjects db := by
    rw [h.tickets]
    exact List.mem_map_of_mem hk
  obtain ⟨t, ht, he⟩ := List.mem_map.mp hmem
  simp only [subject, Prod.mk.injEq] at he
  exact ⟨t, ht, he⟩

/-- The query of `_replay_creation` finds the ticket of a key row. -/
theorem Registered.find_ticket (h : Registered P plan db wal) {k : TicketCreationKey}
    (hk : k ∈ db .ticketCreationKeys) :
    ∃ t, db.ticket k.tenantId k.ticketId = some t ∧ t.id = k.ticketId := by
  obtain ⟨t, ht, htenant, -, hid⟩ := h.ticket hk
  have hsome : (db.ticket k.tenantId k.ticketId).isSome := by
    rw [Db.ticket, List.find?_isSome]
    exact ⟨t, ht, by simp [htenant, hid]⟩
  obtain ⟨t', ht'⟩ := Option.isSome_iff_exists.mp hsome
  have hp := List.find?_some ht'
  exact ⟨t', ht', by simpa using (of_decide_eq_true hp).2⟩

/-- What the query for a key finds. -/
theorem creationKey_some {context : CurrentTenant} {key : String} {k : TicketCreationKey}
    (h : db.creationKey context.tenant.id context.membership.id key = some k) :
    k ∈ db .ticketCreationKeys ∧ Matches context key k := by
  unfold Db.creationKey at h
  have hp := List.find?_some h
  obtain ⟨ht, hm, hk⟩ := of_decide_eq_true hp
  exact ⟨List.mem_of_find?_eq_some h, ht, hm, hk⟩

theorem creationKey_none {context : CurrentTenant} {key : String}
    (h : db.creationKey context.tenant.id context.membership.id key = none)
    {k : TicketCreationKey} (hk : k ∈ db .ticketCreationKeys) : ¬ Matches context key k := by
  intro hm
  have := List.find?_eq_none.mp h k hk
  exact this (by simp [hm.tenant, hm.membership, hm.key])

/-- What the invariant reads of the database. -/
structure SameLists (db db' : Db) : Prop where
  keys : db' .ticketCreationKeys = db .ticketCreationKeys
  tickets : ticketSubjects db' = ticketSubjects db
  events : createdSubjects db' = createdSubjects db
  ids : (db' .tickets).map Ticket.id = (db .tickets).map Ticket.id

theorem SameLists.refl (db : Db) : SameLists db db := ⟨rfl, rfl, rfl, rfl⟩

theorem SameLists.trans {db db' db'' : Db} (h : SameLists db db') (h' : SameLists db' db'') :
    SameLists db db'' :=
  ⟨h'.keys.trans h.keys, h'.tickets.trans h.tickets, h'.events.trans h.events, h'.ids.trans h.ids⟩

theorem Registered.same {db' : Db} (h : Registered P plan db wal) (hs : SameLists db db') :
    Registered P plan db' wal where
  log := by rw [hs.keys]; exact h.log
  tickets := by rw [hs.tickets, hs.keys]; exact h.tickets
  events := by rw [hs.events, hs.keys]; exact h.events
  ids := by rw [hs.ids]; exact h.ids
  keys := by rw [hs.keys]; exact h.keys
  planned := h.planned

/-- The writes of the other calls insert no key row. -/
theorem keyOf_changesTicket {w : Write} (h : w.ChangesTicket) : keyOf w = [] := by
  rcases w with ⟨t, row⟩ | ⟨t, l, c⟩ | ⟨t, ids⟩ | _
  · cases t <;> first | rfl | exact h.elim
  · rfl
  · rfl
  · rfl

/-- The writes of the other calls leave the invariant's lists alone. -/
theorem same_changesTicket {w : Write} (h : w.ChangesTicket) (db : Db) :
    SameLists db (w.apply db) := by
  have hother (t : Table) (ht : t ≠ w.table) : w.apply db t = db t := Write.apply_other w db ht
  rcases w with ⟨t, row⟩ | ⟨t, l, c⟩ | _ | _
  · -- an event that is not a creation
    cases t <;> first | exact h.elim | skip
    have hne : ¬ (row.eventType = .created) := h
    have ht := hother .tickets nofun
    refine ⟨hother _ nofun, ?_, ?_, ?_⟩
    · rw [ticketSubjects, ht, ticketSubjects]
    · simp [createdSubjects, hne]
    · rw [ht]
  · -- an update of a ticket
    cases t <;> first | exact h.elim | skip
    have hmap {β : Type} (f : Ticket → β) (hf : ∀ r, f (Table.patch .tickets l c r) = f r) :
        ((Write.update .tickets l c).apply db .tickets).map f = (db .tickets).map f := by
      rw [Write.apply_update, List.map_map]
      refine List.map_congr_left fun r _ => ?_
      simp only [Function.comp]
      split
      · exact hf r
      · rfl
    refine ⟨hother _ nofun, hmap _ fun _ => rfl, ?_, hmap _ fun _ => rfl⟩
    rw [createdSubjects, hother .ticketEvents nofun, createdSubjects]
  · exact h.elim
  · exact h.elim

theorem same_foldl {ws : List Write} (h : ∀ w ∈ ws, w.ChangesTicket) (db : Db) :
    SameLists db (ws.foldl (fun db w => w.apply db) db) ∧ ws.flatMap keyOf = [] := by
  induction ws generalizing db with
  | nil => exact ⟨.refl db, rfl⟩
  | cons w ws ih =>
    have hw := h w List.mem_cons_self
    obtain ⟨hs, hk⟩ := ih (fun w' hw' => h w' (List.mem_cons_of_mem _ hw')) (w.apply db)
    refine ⟨(same_changesTicket hw db).trans hs, ?_⟩
    rw [List.flatMap_cons, keyOf_changesTicket hw, hk]
    rfl

theorem changesTicket_stamp {w : Write} (h : w.ChangesTicket) (τ : Time) :
    (w.stamp τ).ChangesTicket := by
  rcases w with ⟨t, row⟩ | ⟨t, l, c⟩ | _ | _
  · cases t <;> exact h
  · cases t <;> exact h
  · exact h
  · exact h

theorem absent_key {context : CurrentTenant} {key : String}
    (h : db.present (.ticketCreationKey context.tenant.id context.membership.id key) = false)
    {k : TicketCreationKey} (hk : k ∈ db .ticketCreationKeys) : ¬ Matches context key k := by
  intro hm
  refine Db.present_eq_false.mp h k hk (List.mem_cons_of_mem _ ?_)
  show _ ∈ [Key.ticketCreationKey k.tenantId k.membershipId k.key]
  rw [hm.tenant, hm.membership, hm.key]
  exact List.mem_singleton.mpr rfl

/-- A creation under a fresh id and a fresh key is registered. -/
theorem Registered.create {i : Nat} {context : CurrentTenant} {r : CreationRequest} {key : String}
    {ticketId eventId keyId : UUID} {ws : List Write} (h : Registered P plan db wal)
    (hplan : plan i = .create context r key)
    (hws : TicketService.Created context r key (TicketService.creationRequestHash P r)
      ticketId eventId keyId ws)
    (hid : db.present (.row .tickets ticketId) = false)
    (hkey : db.present (.ticketCreationKey context.tenant.id context.membership.id key) = false) :
    ∃ k, Matches context key k ∧ k.ticketId = ticketId ∧
      k.requestHash = TicketService.creationRequestHash P r ∧
      (ws.foldl (fun db w => w.apply db) db) .ticketCreationKeys = db .ticketCreationKeys ++ [k] ∧
      creations (wal ++ [(i, ws)]) = creations wal ++ [(i, k)] ∧
      Registered P plan (ws.foldl (fun db w => w.apply db) db) (wal ++ [(i, ws)]) := by
  obtain ⟨τ, τ', τ'', hws⟩ := hws
  let t := Table.stampInsert τ .tickets (TicketService.newTicket context r ticketId)
  let e := Table.stampInsert τ' .ticketEvents
    (TicketService.createdEvent context ticketId eventId)
  let k := Table.stampInsert τ'' .ticketCreationKeys (TicketService.newCreationKey context key
    (TicketService.creationRequestHash P r) ticketId keyId)
  obtain rfl : ws = [.insert .tickets t, .insert .ticketEvents e,
    .insert .ticketCreationKeys k] := hws
  let db' := [(Write.insert .tickets t), .insert .ticketEvents e,
    .insert .ticketCreationKeys k].foldl (fun db w => w.apply db) db
  have htickets : db' .tickets = db .tickets ++ [t] := by
    simp [db', Write.apply_other (t := .tickets) (.insert .ticketEvents e) _ nofun,
      Write.apply_other (t := .tickets) (.insert .ticketCreationKeys k) _ nofun]
  have hevents : db' .ticketEvents = db .ticketEvents ++ [e] := by
    simp [db', Write.apply_other (t := .ticketEvents) (.insert .tickets t) _ nofun,
      Write.apply_other (t := .ticketEvents) (.insert .ticketCreationKeys k) _ nofun]
  have hkeys : db' .ticketCreationKeys = db .ticketCreationKeys ++ [k] := by
    simp [db', Write.apply_other (t := .ticketCreationKeys) (.insert .tickets t) _ nofun,
      Write.apply_other (t := .ticketCreationKeys) (.insert .ticketEvents e) _ nofun]
  have hlog : creations (wal ++ [(i, [(Write.insert .tickets t), .insert .ticketEvents e,
      .insert .ticketCreationKeys k])]) = creations wal ++ [(i, k)] := by
    simp [creations, keyOf]
  have hmatch : Matches context key k := ⟨rfl, rfl, rfl⟩
  refine ⟨k, hmatch, rfl, rfl, hkeys, hlog, ?_, ?_, ?_, ?_, ?_, ?_⟩
  · rw [hlog, List.map_append, h.log]
    exact hkeys.symm
  · show ticketSubjects db' = (db' .ticketCreationKeys).map subject
    rw [ticketSubjects, htickets, hkeys, List.map_append, List.map_append, ← h.tickets]
    rfl
  · show createdSubjects db' = (db' .ticketCreationKeys).map subject
    rw [createdSubjects, hevents, hkeys, List.filter_append, List.map_append, List.map_append,
      ← h.events]
    rfl
  · show ((db' .tickets).map Ticket.id).Nodup
    rw [htickets, List.map_append, List.map_singleton]
    refine List.nodup_append.mpr ⟨h.ids, List.nodup_singleton _, ?_⟩
    rintro _ hmem _ hnew rfl
    obtain ⟨t', ht', hid'⟩ := List.mem_map.mp hmem
    exact Db.present_row.mp hid t' ht' (hid'.trans (List.mem_singleton.mp hnew))
  · show ((db' .ticketCreationKeys).map ident).Nodup
    rw [hkeys, List.map_append, List.map_singleton]
    refine List.nodup_append.mpr ⟨h.keys, List.nodup_singleton _, ?_⟩
    rintro _ hmem _ hnew rfl
    obtain ⟨k', hk', hid'⟩ := List.mem_map.mp hmem
    have hident := hid'.trans (List.mem_singleton.mp hnew)
    simp only [ident, Prod.mk.injEq] at hident
    exact absent_key hkey hk' ⟨hident.1, hident.2.1, hident.2.2⟩
  · rw [hlog]
    intro c hc
    rcases List.mem_append.mp hc with hc | hc
    · exact h.planned c hc
    · rw [List.mem_singleton.mp hc]
      exact ⟨context, r, key, hplan, hmatch, rfl⟩

end Facts

/-! ## What calls know -/

section Assertions

variable (ks : List TicketCreationKey) (i : Nat)

/-- The key row `k` is committed. -/
def Found (k : TicketCreationKey) : (outline P plan ks).outline.Assertion i where
  holds W := k ∈ W.store.db .ticketCreationKeys
  stable _ _ h hm := hm.2.2 k h

/-- Thread `i` has committed the key row of ticket `ticketId`. -/
def Done (context : CurrentTenant) (r : CreationRequest) (key : String) (ticketId : UUID) :
    (outline P plan ks).outline.Assertion i where
  holds W := ∃ k ∈ W.store.db .ticketCreationKeys, Matches context key k ∧ k.ticketId = ticketId ∧
    k.requestHash = TicketService.creationRequestHash P r ∧ (i, k) ∈ creations W.store.wal
  stable W W' := by
    rintro ⟨k, hk, hm, hid, hh, hc⟩ hmoved
    obtain ⟨more, hwal, -⟩ := hmoved.2.1.wal
    refine ⟨k, hmoved.2.2 k hk, hm, hid, hh, ?_⟩
    rw [hwal, creations, List.flatMap_append]
    exact List.mem_append_left _ hc

/-- What a call that returned `res` leaves behind. -/
def Returned (context : CurrentTenant) (r : CreationRequest) (key : String)
    (res : TicketCreationResult) : (outline P plan ks).outline.Assertion i where
  holds W := (∃ k ∈ W.store.db .ticketCreationKeys, Matches context key k ∧
      k.ticketId = res.ticket.id ∧ k.requestHash = TicketService.creationRequestHash P r ∧
      (res.replayed = false → (i, k) ∈ creations W.store.wal)) ∧
    ∀ k ∈ ks, Matches context key k → res.replayed = true
  stable W W' := by
    rintro ⟨⟨k, hk, hm, hid, hh, hc⟩, hks⟩ hmoved
    obtain ⟨more, hwal, -⟩ := hmoved.2.1.wal
    refine ⟨⟨k, hmoved.2.2 k hk, hm, hid, hh, fun hr => ?_⟩, hks⟩
    rw [hwal, creations, List.flatMap_append]
    exact List.mem_append_left _ (hc hr)

/-- What a call that raised `e` leaves behind. -/
def Raised (context : CurrentTenant) (r : CreationRequest) (key : String) (e : Exn) :
    (outline P plan ks).outline.Assertion i where
  holds W := (e.isOutside = false → e ≠ .invalidRequest →
      (outline P plan ks).NoCommit i W) ∧
    ∀ k ∈ ks, Matches context key k → e.isOutside = true ∨ e = .idempotencyKeyConflict ∧
      k.requestHash ≠ TicketService.creationRequestHash P r
  stable W W' h hm :=
    ⟨fun ho hi => ((outline P plan ks).NoCommit i).stable W W' (h.1 ho hi) hm, h.2⟩

end Assertions

open WorldOutline (Before commitOnce addWrite addInsert local_before local_raising own_true
  raise_outside)

section Calls

variable {P plan} {ks : List TicketCreationKey} {i : Nat} {admits : Admission}
variable {context : CurrentTenant} {r : CreationRequest} {key : String}

theorem own_found (k : TicketCreationKey) : WorldOutline.Own (Found P plan ks i k) :=
  fun {W W'} hl _ _ h => by
    show k ∈ W'.store.db .ticketCreationKeys
    rw [hl.db]
    exact h

theorem raised_of_outside {e : Exn} (he : e.isOutside = true) (W : World) :
    Raised P plan ks i context r key e W :=
  ⟨fun h => absurd (he.symm.trans h) nofun, fun _ _ _ => .inl he⟩

variable (P plan i r) in
/-- Where no known key is the one asked for, an error need only leave nothing behind. -/
theorem raised_of_noCommit (hfree : ∀ k ∈ ks, ¬ Matches context key k) (e : Exn) (W : World)
    (h : (outline P plan ks).NoCommit i W) : Raised P plan ks i context r key e W :=
  ⟨fun _ _ => h, fun k hk hm => absurd hm (hfree k hk)⟩

theorem local_done {ticketId : UUID} (hfree : ∀ k ∈ ks, ¬ Matches context key k) :
    WorldOutline.Local (· = .invalidRequest) (Done P plan ks i context r key ticketId)
      (Raised P plan ks i context r key) := by
  have hE (e : Exn) (he : e = .invalidRequest ∨ e.isOutside = true) (W : World) :
      Raised P plan ks i context r key e W := by
    rcases he with rfl | he
    · exact ⟨fun _ h => absurd rfl h, fun k hk hm => absurd hm (hfree k hk)⟩
    · exact raised_of_outside he W
  refine ⟨fun hk _ ⟨k, hmem, hm, hid, hh, hc⟩ => ⟨k, ?_, hm, hid, hh, ?_⟩,
    fun e _ he _ => hE e he _, fun e _ _ he _ _ _ => hE e he _⟩
  · rwa [hk.db]
  · rwa [hk.wal]

/-- The query for the key, before anything is written. -/
theorem selectKey {α : Type} {k : Option TicketCreationKey → Service α}
    {B : α → (outline P plan ks).outline.Assertion i}
    (hsome : ∀ record, Matches context key record →
      Triple (callStep admits i) (Before (Found P plan ks i record) (· = [])) (k (some record)) B
        (Raised P plan ks i context r key))
    (hnone : (∀ k ∈ ks, ¬ Matches context key k) →
      Triple (callStep admits i) (Before .true (· = [])) (k none) B
        (Raised P plan ks i context r key)) :
    Triple (callStep admits i) (Before .true (· = []))
      ((Service.select fun db => db.creationKey context.tenant.id context.membership.id key).bind k)
      B (Raised P plan ks i context r key) := by
  refine Triple.bind (M := fun found => found.elim
      ((Before .true (· = [])).and (.pure (∀ k ∈ ks, ¬ Matches context key k)))
      fun record => (Before (Found P plan ks i record) (· = [])).and
        (.pure (Matches context key record))) ?_ fun found => ?_
  · refine WorldOutline.select (ρ := fun _ => False)
      (local_raising own_true fun e W he _ => raised_of_outside (by simpa using he) W)
      fun W W' hi h hk _ => ?_
    have hwrites : (W'.store.sessions i).writes = [] := hk.writes.trans h.2.2
    have hno := WorldOutline.noCommit_local hk.toLocal h.1
    rw [WorldOutline.view_eq h.2.2]
    rcases hq : W.store.db.creationKey context.tenant.id context.membership.id key with _ | record
    · exact ⟨⟨hno, trivial, hwrites⟩, fun k hk => creationKey_none hq (hi.2.2 k hk)⟩
    · obtain ⟨hmem, hmatch⟩ := creationKey_some hq
      refine ⟨⟨hno, ?_, hwrites⟩, hmatch⟩
      show record ∈ W'.store.db .ticketCreationKeys
      rwa [hk.db]
  · rcases found with _ | record
    · exact Triple.assume hnone
    · exact Triple.assume (hsome record)

/-- A replay answers from the committed key row. -/
theorem replayCreation {record : TicketCreationKey} (hm : Matches context key record) :
    Triple (callStep admits i) (Before (Found P plan ks i record) (· = []))
      (TicketService.replayCreation record (TicketService.creationRequestHash P r))
      (Returned P plan ks i context r key) (Raised P plan ks i context r key) := by
  unfold TicketService.replayCreation
  split
  · rename_i hne
    refine Triple.raise fun W hi h => ⟨fun _ _ => h.1, fun k hk hmk => .inr ⟨rfl, ?_⟩⟩
    rw [hi.2.1.key_unique (hi.2.2 k hk) h.2.1 (hmk.ident hm)]
    exact hne
  · rename_i heq
    have hhash := not_not.mp heq
    refine Triple.bind (M := fun found => (Before (Found P plan ks i record) (· = [])).and
      (.pure (∃ t, found = some t ∧ t.id = record.ticketId))) ?_ fun found =>
      Triple.assume fun hfound => ?_
    · refine WorldOutline.select (ρ := fun _ => False)
        (local_raising (own_found record) fun e W he _ => raised_of_outside (by simpa using he) W)
        fun W W' hi h hk hs => ?_
      rw [WorldOutline.view_eq h.2.2]
      exact ⟨WorldOutline.before_keeps (own_found record) hk hs h, hi.2.1.find_ticket h.2.1⟩
    · obtain ⟨t, rfl, hid⟩ := hfound
      exact Triple.ret fun W _ h =>
        ⟨⟨record, h.2.1, hm, hid.symm, hhash, nofun⟩, fun _ _ _ => rfl⟩

/-- The guarded body of `create`. -/
theorem insertTicket (hplan : plan i = .create context r key)
    (hfree : ∀ k ∈ ks, ¬ Matches context key k) (ticketId eventId keyId : UUID) :
    Triple (callStep admits i) (Before .true (· = []))
      (do
        TicketService.insertTicket context r key (TicketService.creationRequestHash P r)
          ticketId eventId keyId
        Service.commit
        pure (none : Option TicketCreationResult))
      (fun
        | none => Done P plan ks i context r key ticketId
        | some res => Returned P plan ks i context r key res)
      (Raised P plan ks i context r key) := by
  have hE := raised_of_noCommit P plan i r hfree
  let uniqueKey : Key := .ticketCreationKey context.tenant.id context.membership.id key
  let X : (outline P plan ks).outline.Assertion i :=
    .and .true ((outline P plan ks).Reserved i (.row .tickets ticketId))
  let Y : (outline P plan ks).outline.Assertion i :=
    X.and ((outline P plan ks).Reserved i uniqueKey)
  have hX : WorldOutline.Own X := own_true.and (WorldOutline.own_reserved _)
  have hY : WorldOutline.Own Y := hX.and (WorldOutline.own_reserved _)
  refine Triple.bind (M := fun _ => Before Y (TicketService.Created context r key
    (TicketService.creationRequestHash P r) ticketId eventId keyId)) ?_ fun _ => ?_
  · refine Triple.bind (addInsert (k := .row .tickets ticketId)
      (by simp [Table.id, TicketService.newTicket]) own_true (fun ws hws => by simp [hws]) hE)
      fun _ => ?_
    refine Triple.bind (M := fun _ => Before X fun ws => ∃ τ τ', ws =
      [(Write.insert .tickets (TicketService.newTicket context r ticketId)).stamp τ,
      (Write.insert .ticketEvents (TicketService.createdEvent context ticketId eventId)).stamp τ'])
      (addWrite hX hE fun ws τ' ⟨_, τ, rfl, hws⟩ => ⟨τ, τ', by rw [hws]; rfl⟩) fun _ => ?_
    have hother : ∀ ws, (∃ τ τ', ws =
        [(Write.insert .tickets (TicketService.newTicket context r ticketId)).stamp τ,
        (Write.insert .ticketEvents (TicketService.createdEvent context ticketId eventId)).stamp
          τ']) → ∀ w ∈ ws, .ticketCreationKeys ≠ w.table := by
      rintro ws ⟨τ, τ', rfl⟩ w hw
      rcases List.mem_cons.mp hw with rfl | hw
      · rintro ⟨⟩
      · rw [List.mem_singleton.mp hw]
        rintro ⟨⟩
    refine (addInsert (k := uniqueKey) (List.mem_cons_of_mem _ (List.mem_singleton.mpr rfl)) hX
      hother hE).conseq (fun _ _ h => h) (fun _ W _ h => ?_) fun _ _ _ h => h
    obtain ⟨ws₁, τ'', ⟨τ, τ', rfl⟩, hws⟩ := h.2.2
    exact ⟨h.1, h.2.1, τ, τ', τ'', hws⟩
  · refine Triple.bind (M := fun _ => Done P plan ks i context r key ticketId)
      (commitOnce hY hE (raise_outside fun e W he _ => raised_of_outside he W)
      fun W W' hi hres hws hc _ => ?_) fun _ => Triple.ret fun _ _ h => h
    obtain ⟨k, hm, hid, hh, hkeys, hlog, hreg⟩ :=
      hi.2.1.create hplan hws hres.1.2.2 hres.2.2
    have hdb : W'.store.db =
        (W.store.sessions i).writes.foldl (fun db w => w.apply db) W.store.db :=
      hc.db
    have hgrow : ∀ k' ∈ W.store.db .ticketCreationKeys, k' ∈ W'.store.db .ticketCreationKeys := by
      rw [hdb, hkeys]
      exact fun k' hk' => List.mem_append_left _ hk'
    refine ⟨⟨?_, fun k' hk' => hgrow k' (hi.2.2 k' hk')⟩, fun _ _ => hgrow, k, ?_, hm, hid, hh, ?_⟩
    · rw [hdb, hc.wal]
      exact hreg
    · rw [hdb, hkeys]
      simp
    · rw [hc.wal, hlog]
      simp

/-- After a uniqueness race a call replays. -/
theorem replayRaced (hfree : ∀ k ∈ ks, ¬ Matches context key k) :
    Triple (callStep admits i) (Before .true fun _ => True)
      (TicketService.replayRaced context key (TicketService.creationRequestHash P r))
      (Returned P plan ks i context r key) (Raised P plan ks i context r key) := by
  have hE := raised_of_noCommit P plan i r hfree
  refine Triple.bind (M := fun _ => Before .true (· = [])) ?_ fun _ => ?_
  · exact WorldOutline.rollback (ρ := fun _ => True) (local_before own_true hE)
      fun W W' _ h hd _ => ⟨WorldOutline.noCommit_local hd.toLocal h.1, trivial, hd.writes⟩
  · exact selectKey (fun record hm => replayCreation hm) fun _ =>
      Triple.raise fun W _ h => hE _ W h.1

theorem create (hplan : plan i = .create context r key) (S : RBACService) :
    Triple (callStep admits i) (Before .true (· = [])) (TicketService.create P S context r key)
      (Returned P plan ks i context r key) (Raised P plan ks i context r key) := by
  refine selectKey (fun record hm => replayCreation hm) fun hfree => ?_
  have hE := raised_of_noCommit P plan i r hfree
  have quiet {α : Type} {p : Service α} (hp : Service.Quiet (· ≠ .integrityError) p) :=
    show Triple (callStep admits i) (Before .true (· = [])) p _ _ from
      WorldOutline.quiet hp (fun _ ho => ⟨ho.quiet, trivial⟩) (local_before own_true hE)
  refine Triple.bind (quiet (TicketService.quiet_checkCustomer S context _)) fun _ => ?_
  refine Triple.bind (quiet Service.quiet_uuid4) fun ticketId => ?_
  refine Triple.bind (quiet Service.quiet_uuid4) fun eventId => ?_
  refine Triple.bind (quiet Service.quiet_uuid4) fun keyId => ?_
  refine Triple.bind (Triple.handle (insertTicket hplan hfree ticketId eventId keyId) fun e => ?_)
    fun replayed => ?_
  · split
    · rename_i he
      subst he
      refine Triple.bind ((replayRaced hfree).pre fun W _ h =>
        ⟨h.1 rfl (by simp), trivial, trivial⟩)
        fun res => Triple.ret fun _ _ h => h
    · exact Triple.raise fun _ _ h => h
  · rcases replayed with _ | res
    · refine Triple.bind (M := fun ticket => (Done P plan ks i context r key ticketId).and
        (.pure (ticket.id = ticketId))) (WorldOutline.refresh (local_done hfree) rfl)
        fun ticket => Triple.ret fun W _ h => ?_
      obtain ⟨⟨k, hk, hm, hid, hh, hc⟩, hticket⟩ := h
      exact ⟨⟨k, hk, hm, hid.trans hticket.symm, hh, fun _ => hc⟩,
        fun k hk hm => absurd hm (hfree k hk)⟩
    · exact Triple.ret fun _ _ h => h

/-- The other calls neither create nor replay anything. -/
theorem changes {α : Type} {p : Service α} (hp : TicketService.Straight p) :
    Triple (callStep admits i) (Before .true (· = [])) p
      (fun _ => (outline P plan ks).Writes i fun ws => ∀ w ∈ ws, w.ChangesTicket)
      (fun _ => .true) := by
  refine (WorldOutline.straight (fun w τ h => changesTicket_stamp h τ) (fun _ _ => trivial)
    hp fun W W' hi h hcom _ => ?_).pre fun W _ h => ?_
  · obtain ⟨hsame, hkeys⟩ := same_foldl h W.store.db
    have hdb : SameLists W.store.db W'.store.db := by
      rw [hcom.db]
      exact hsame
    have hlog : creations W'.store.wal = creations W.store.wal := by
      rw [hcom.wal, creations, List.flatMap_append]
      simp [creations, hkeys]
    have hreg := hi.2.1.same hdb
    have hgrow : ∀ k ∈ W.store.db .ticketCreationKeys, k ∈ W'.store.db .ticketCreationKeys :=
      fun k hk => by rwa [hdb.keys]
    refine ⟨⟨⟨?_, hreg.tickets, hreg.events, hreg.ids, hreg.keys, ?_⟩,
      fun k hk => hgrow k (hi.2.2 k hk)⟩, fun _ => hgrow⟩
    · rw [hlog]
      exact hreg.log
    · rw [hlog]
      exact hreg.planned
  · show ∀ w ∈ (W.store.sessions i).writes, w.ChangesTicket
    simp [show (W.store.sessions i).writes = [] from h.2.2]

end Calls

/-! ## Adequacy -/

section Adequacy

/-- What a call that returned leaves behind. -/
def Answer (ks : List TicketCreationKey) (i : Nat) :
    (c : TicketCall) → c.Ret → (outline P plan ks).outline.Assertion i
  | .create context r key, res => Returned P plan ks i context r key res
  | .update .., _ => .true
  | .claim .., _ => .true
  | .transfer .., _ => .true
  | .resolve .., _ => .true
  | .reopen .., _ => .true
  | .close .., _ => .true

/-- What a call that raised leaves behind. -/
def Refusal (ks : List TicketCreationKey) (i : Nat) :
    TicketCall → Exn → (outline P plan ks).outline.Assertion i
  | .create context r key, e => Raised P plan ks i context r key e
  | _, _ => .true

variable {P plan} {S : RBACService} {ks : List TicketCreationKey}

/-- Nothing is asked of the calls that do not create. -/
theorem answer_other {i : Nat} {c : TicketCall} (hc : ∀ context r key, c ≠ .create context r key)
    (res : c.Ret) (W : World) : Answer P plan ks i c res W := by
  cases c with
  | create context r key => exact absurd rfl (hc context r key)
  | _ => trivial

theorem refusal_other {i : Nat} {c : TicketCall} (hc : ∀ context r key, c ≠ .create context r key)
    (e : Exn) (W : World) : Refusal P plan ks i c e W := by
  cases c with
  | create context r key => exact absurd rfl (hc context r key)
  | _ => trivial

theorem call (i : Nat) (c : TicketCall) (hc : c = plan i) :
    Triple (callStep (fun _ _ _ _ => True) i) (Before .true (· = [])) (c.prog P S)
      (Answer P plan ks i c) (Refusal P plan ks i c) := by
  by_cases hcreate : ∃ context r key, c = .create context r key
  · obtain ⟨context, r, key, rfl⟩ := hcreate
    exact create hc.symm S
  · have hne : ∀ context r key, c ≠ .create context r key := fun context r key h =>
      hcreate ⟨context, r, key, h⟩
    exact (changes (TicketService.straight_prog S P c hne)).conseq (fun _ _ h => h)
      (fun res W _ _ => answer_other hne res W) fun e W _ _ => refusal_other hne e W

theorem elsewhere {W W' : World} (h : Elsewhere W W') (hi : (outline P plan ks).outline.inv W) :
    (outline P plan ks).outline.inv W' ∧ ∀ j, (outline P plan ks).outline.frame j W W' := by
  have hsame : SameLists W.store.db W'.store.db :=
    ⟨h.ticketCreationKeys, by rw [ticketSubjects, h.tickets]; rfl,
      by rw [createdSubjects, h.ticketEvents]; rfl, by rw [h.tickets]⟩
  have hkeys : ∀ k ∈ W.store.db .ticketCreationKeys, k ∈ W'.store.db .ticketCreationKeys :=
    fun k hk => by rwa [h.ticketCreationKeys]
  refine ⟨⟨fun j w hw k hk => ?_, ?_, fun k hk => hkeys k (hi.2.2 k hk)⟩, fun j =>
    ⟨⟨by rw [h.sessions], fun k => by rw [h.owner], fun k hk hp => ?_, [], by simp [h.wal],
      fun _ hc => by cases hc⟩, hkeys⟩⟩
  · rw [h.sessions] at hw
    rw [h.owner]
    exact hi.1 j w hw k hk
  · rw [h.wal]
    exact hi.2.1.same hsame
  · exact h.absent k (by rw [hk]; nofun) hp

variable (P plan ks) in
/-- What a call that has ended leaves behind. -/
def Outcome (i : Nat) (c : TicketCall) (r : Except Exn c.Ret) (W : World) : Prop :=
  post (Answer P plan ks i c) (Refusal P plan ks i c) r W

variable (P plan S ks) in
/-- The calls meet the outline. -/
theorem ok : (outline P plan ks).outline.Ok
    ((ticketCalls P S).system (fun i c => c = plan i) (fun _ _ _ _ => True) Elsewhere)
    (Outcome P plan ks) (Outcome P plan ks) := by
  refine WorldOutline.sound (C := ticketCalls P S) (fun _ _ _ _ => trivial) (Answer P plan ks)
    (Refusal P plan ks) (fun i c hc => call i c hc) (fun i c r W _ h => ?_)
    (fun i c r W W' h hm => ?_) fun W W' hi henv => elsewhere henv hi
  · -- ending a session commits nothing
    rcases r with e | res
    · cases c <;> exact h
    · cases c <;> exact h
  · rcases r with e | res
    · exact (Refusal P plan ks i c e).stable W W' h hm
    · exact (Answer P plan ks i c res).stable W W' h hm

theorem outline_known (k : TicketCreationKey) : (outline P plan [k]).outline =
    (outline P plan []).outline.restrict fun W => k ∈ W.store.db .ticketCreationKeys := by
  unfold WorldOutline.outline Outline.restrict
  congr 1
  funext W
  simp [outline, StoreOutline.world, and_assoc]

end Adequacy

/-! ## Running alone -/

section Alone

variable {P plan} {S : RBACService} {i : Nat} {W : World}

/-- **A call for a committed key returns at once**: the ticket, or a conflict. -/
theorem run_create {context : CurrentTenant} {r : CreationRequest} {key : String}
    {k : TicketCreationKey} (h : Registered P plan W.store.db W.store.wal)
    (hk : k ∈ W.store.db .ticketCreationKeys) (hm : Matches context key k)
    (hw : (W.store.sessions i).writes = []) (hb : (W.store.sessions i).broken = false) :
    ∃ W' t, (TicketService.create P S context r key).run (undisturbed i) W =
      some (if k.requestHash = TicketService.creationRequestHash P r then .ok ⟨t, true⟩
        else .error .idempotencyKeyConflict, W') ∧ t.id = k.ticketId := by
  obtain ⟨t, ht, hid⟩ := h.find_ticket hk
  obtain ⟨W₁, hfirst, hdb, hw₁, hb₁⟩ := select_undisturbed hw hb fun db =>
    db.creationKey context.tenant.id context.membership.id key
  have hfind : W.store.db.creationKey context.tenant.id context.membership.id key = some k := by
    rcases hq : W.store.db.creationKey context.tenant.id context.membership.id key with _ | k'
    · exact absurd hm (creationKey_none hq hk)
    · obtain ⟨hk', hm'⟩ := creationKey_some hq
      rw [h.key_unique hk' hk (hm'.ident hm)]
  rw [hfind] at hfirst
  unfold TicketService.create
  rw [Prog.bind_eq, Prog.run_bind, hfirst]
  simp only [TicketService.replayCreation]
  by_cases hhash : k.requestHash = TicketService.creationRequestHash P r
  · obtain ⟨W₂, hsecond, -⟩ := select_undisturbed hw₁ hb₁ fun db =>
      db.ticket k.tenantId k.ticketId
    rw [hdb, ht] at hsecond
    refine ⟨W₂, t, ?_, hid⟩
    rw [if_neg (not_not.mpr hhash), Prog.bind_eq, Prog.run_bind, hsecond, if_pos hhash]
    rfl
  · refine ⟨W₁, t, ?_, hid⟩
    rw [if_pos hhash, if_neg hhash]
    rfl

end Alone

/-- From a database without tickets the invariant holds. -/
theorem inv_start {P : Platform} {plan : Nat → TicketCall} {W₀ : World} (hq : W₀.Quiet)
    (ht : W₀.store.db .tickets = []) (he : W₀.store.db .ticketEvents = [])
    (hk : W₀.store.db .ticketCreationKeys = []) : (outline P plan []).outline.inv W₀ := by
  refine ⟨fun i w hw => ?_, ⟨?_, ?_, ?_, ?_, ?_, ?_⟩, nofun⟩
  · rw [hq.sessions i] at hw
    cases hw
  · rw [hq.wal, hk]
    rfl
  · rw [ticketSubjects, ht, hk]
    rfl
  · rw [createdSubjects, he, hk]
    rfl
  · rw [ht]
    exact List.nodup_nil
  · rw [hk]
    exact List.nodup_nil
  · rw [hq.wal]
    nofun

end Creation

open Creation (Matches creations)

/-- What there is of the creation `k` is the record of: one key row, one ticket, one event. -/
structure OneCreation (db : Db) (k : TicketCreationKey) : Prop where
  key : ∀ k' ∈ db .ticketCreationKeys, k'.tenantId = k.tenantId ∧
    k'.membershipId = k.membershipId ∧ k'.key = k.key → k' = k
  ticket : ∃ t, (db .tickets).filter (·.id = k.ticketId) = [t] ∧ t.tenantId = k.tenantId ∧
    t.createdByMembershipId = k.membershipId
  event : ∃ e, (db .ticketEvents).filter
    (fun e => e.eventType = .created ∧ e.ticketId = k.ticketId) = [e]
  ownTicket : ∀ k' ∈ db .ticketCreationKeys, k'.ticketId = k.ticketId → k' = k

theorem Creation.Registered.one {P : Platform} {plan : Nat → TicketCall} {db : Db}
    {wal : List (Nat × List Write)} (h : Registered P plan db wal) {k : TicketCreationKey}
    (hk : k ∈ db .ticketCreationKeys) : OneCreation db k := by
  have hids : ((db .ticketCreationKeys).map (·.ticketId)).Nodup := by
    have := h.ids
    have hmap : (db .tickets).map Ticket.id = (ticketSubjects db).map (·.2.2) := by
      simp [ticketSubjects]
    rwa [hmap, h.tickets, List.map_map] at this
  have hevents : (((db .ticketEvents).filter (·.eventType = .created)).map (·.ticketId)).Nodup := by
    have hmap : ((db .ticketEvents).filter (·.eventType = .created)).map (·.ticketId) =
        (createdSubjects db).map (·.2.2) := by simp [createdSubjects]
    rw [hmap, h.events, List.map_map]
    exact hids
  refine ⟨fun k' hk' he => h.key_unique hk' hk ?_, ?_, ?_, fun k' hk' he =>
    List.inj_on_of_nodup_map hids hk' hk he⟩
  · simp only [ident, he.1, he.2.1, he.2.2]
  · obtain ⟨t, ht, htenant, hcreator, hid⟩ := h.ticket hk
    refine ⟨t, ?_, htenant, hcreator⟩
    rw [← hid]
    exact filter_of_nodup h.ids ht
  · have hmem : subject k ∈ createdSubjects db := by
      rw [h.events]
      exact List.mem_map_of_mem hk
    obtain ⟨e, he, hsub⟩ := List.mem_map.mp hmem
    simp only [subject, Prod.mk.injEq] at hsub
    refine ⟨e, ?_⟩
    have hfilter := filter_of_nodup hevents he
    rw [List.filter_filter] at hfilter
    rw [← hfilter, ← hsub.2.2]
    refine List.filter_congr fun e' _ => ?_
    simp [Bool.and_comm]

/-- **Creation is idempotent for each key.** `plan` says which call each thread runs; thread `j`
created `k` where `(j, k) ∈ creations wal`. A call ends with an exception from outside only if one
of its own operations fails or is cancelled. -/
structure IdempotentCreation (P : Platform) (S : RBACService) (plan : Nat → TicketCall)
    (pool : ((ticketCalls P S).system (fun i c => c = plan i)
      (fun _ _ _ _ => True) Elsewhere).Pool) : Prop where
  /-- One ticket, one creation event and one key row, always together. -/
  one : ∀ k ∈ pool.shared.store.db .ticketCreationKeys, OneCreation pool.shared.store.db k
  tickets : ∀ t ∈ pool.shared.store.db .tickets,
    ∃ k ∈ pool.shared.store.db .ticketCreationKeys, k.ticketId = t.id
  events : ∀ e ∈ pool.shared.store.db .ticketEvents, e.eventType = .created →
    ∃ k ∈ pool.shared.store.db .ticketCreationKeys, k.ticketId = e.ticketId
  /-- Each key row was committed by one thread, which was asked to create it. -/
  created : ∀ k ∈ pool.shared.store.db .ticketCreationKeys, ∃ j context r key,
    (j, k) ∈ creations pool.shared.store.wal ∧ plan j = .create context r key ∧
      Matches context key k
  /-- What returns is the creation's ticket, to an equal request, and as a new one to its
  creator only. -/
  returned : ∀ i context r key res, pool.threads i = .finished (.create context r key) (.ok res) →
    ∃ k ∈ pool.shared.store.db .ticketCreationKeys, Matches context key k ∧
      k.ticketId = res.ticket.id ∧
      ∀ j context' r' key', (j, k) ∈ creations pool.shared.store.wal →
        plan j = .create context' r' key' →
        r'.normalized = r.normalized ∧ (res.replayed = false → j = i)
  /-- A call that raises on its own account has created nothing. -/
  raised : ∀ i context r key e, pool.threads i = .finished (.create context r key) (.error e) →
    e.isOutside = false → e ≠ .invalidRequest → ∀ w ∈ pool.shared.store.wal, w.1 ≠ i
  /-- From now on a call for a committed key replays it, or conflicts with it. -/
  later : ∀ pool', System.Steps pool pool' → ∀ i, pool.threads i = .idle →
    ∀ k ∈ pool.shared.store.db .ticketCreationKeys, ∀ context r key, Matches context key k →
    ∀ j context' r' key', (j, k) ∈ creations pool.shared.store.wal →
      plan j = .create context' r' key' →
    ∀ outcome, pool'.threads i = .finished (.create context r key) outcome →
      (∃ e, outcome = .error e ∧ e.isOutside = true) ∨
      (r'.normalized = r.normalized ∧ ∃ t, outcome = .ok ⟨t, true⟩ ∧ t.id = k.ticketId) ∨
      r'.normalized ≠ r.normalized ∧ outcome = .error .idempotencyKeyConflict
  /-- Nothing such a call does has to wait: left alone it ends so. -/
  alone : ∀ i, ∀ k ∈ pool.shared.store.db .ticketCreationKeys, ∀ context r key,
    Matches context key k → ∀ j context' r' key', (j, k) ∈ creations pool.shared.store.wal →
      plan j = .create context' r' key' →
    ∃ W' outcome, (TicketService.create P S context r key).run (undisturbed i)
        (pool.shared.closeSession i) = some (outcome, W') ∧
      ((r'.normalized = r.normalized ∧ ∃ t, outcome = .ok ⟨t, true⟩ ∧ t.id = k.ticketId) ∨
        r'.normalized ≠ r.normalized ∧ outcome = .error .idempotencyKeyConflict)

theorem ticket_creation_is_idempotent (P : Platform) (S : RBACService) (plan : Nat → TicketCall)
    (hP : Function.Injective P.sha256Hex) {W₀ : World} (hq : W₀.Quiet)
    (ht : W₀.store.db .tickets = []) (he : W₀.store.db .ticketEvents = [])
    (hk : W₀.store.db .ticketCreationKeys = [])
    {pool : ((ticketCalls P S).system (fun i c => c = plan i) (fun _ _ _ _ => True) Elsewhere).Pool}
    (h : System.Reachable W₀ pool) : IdempotentCreation P S plan pool := by
  have hok := (Creation.ok P plan S []).sound (Creation.inv_start hq ht he hk) h
  have hreg := hok.inv.2.1
  -- the key row's hash is that of its creator's request
  have creator {j : Nat} {k : TicketCreationKey} {context' : CurrentTenant}
      {r' : CreationRequest} {key' : String} (hj : (j, k) ∈ creations pool.shared.store.wal)
      (hp : plan j = .create context' r' key') :
      k.requestHash = TicketService.creationRequestHash P r' := by
    obtain ⟨context, r, key, hplan, -, hh⟩ := hreg.planned _ hj
    rw [hplan] at hp
    cases hp
    exact hh
  refine ⟨fun k hk => hreg.one hk, ?_, ?_, ?_, ?_, ?_, ?_, ?_⟩
  · intro t ht
    have hmem : (t.tenantId, t.createdByMembershipId, t.id) ∈
        Creation.ticketSubjects pool.shared.store.db := List.mem_map_of_mem ht
    rw [hreg.tickets] at hmem
    obtain ⟨k, hk, hs⟩ := List.mem_map.mp hmem
    simp only [Creation.subject, Prod.mk.injEq] at hs
    exact ⟨k, hk, hs.2.2⟩
  · intro e he hcreated
    have hmem : (e.tenantId, e.actorMembershipId, e.ticketId) ∈
        Creation.createdSubjects pool.shared.store.db :=
      List.mem_map_of_mem (List.mem_filter.mpr ⟨he, by simpa using hcreated⟩)
    rw [hreg.events] at hmem
    obtain ⟨k, hk, hs⟩ := List.mem_map.mp hmem
    simp only [Creation.subject, Prod.mk.injEq] at hs
    exact ⟨k, hk, hs.2.2⟩
  · intro k hk
    rw [← hreg.log] at hk
    obtain ⟨⟨j, k'⟩, hj, rfl⟩ := List.mem_map.mp hk
    obtain ⟨context, r, key, hplan, hm, -⟩ := hreg.planned _ hj
    exact ⟨j, context, r, key, hj, hplan, hm⟩
  · intro i context r key res hi
    obtain ⟨⟨k, hk, hm, hid, hh, hc⟩, -⟩ := hok.finished hi
    refine ⟨k, hk, hm, hid, fun j context' r' key' hj hp => ⟨?_, fun hr => ?_⟩⟩
    · exact (CreationRequest.hash_eq_iff hP).mp ((creator hj hp).symm.trans hh)
    · have hnodup : ((creations pool.shared.store.wal).map Prod.snd).Nodup := by
        rw [hreg.log]
        exact hreg.keys.of_map
      exact congrArg Prod.fst (List.inj_on_of_nodup_map hnodup hj (hc hr) rfl)
  · intro i context r key e hi ho hne
    exact (hok.finished hi).1 ho hne
  · intro pool' hsteps i hidle k hk context r key hm j context' r' key' hj hp outcome hfin
    have hlasting : (Creation.outline P plan []).outline.Lasting fun W =>
        k ∈ W.store.db .ticketCreationKeys := fun _ _ _ hf hk => hf.2 k hk
    have hknown := Creation.ok P plan S [k]
    rw [Creation.outline_known] at hknown
    obtain ⟨hk', hpost⟩ := Outline.Ok.later hlasting (Creation.ok P plan S []) hknown hok hk hsteps
      hidle hfin
    have hreg' := ((Creation.ok P plan S []).sound
      (Creation.inv_start hq ht he ‹_›) (h.trans hsteps)).inv.2.1
    rcases outcome with e | res
    · rcases hpost.2 k (List.mem_singleton.mpr rfl) hm with ho | ⟨rfl, hne⟩
      · exact .inl ⟨e, rfl, ho⟩
      · refine .inr (.inr ⟨fun hn => hne ?_, rfl⟩)
        rw [creator hj hp, (CreationRequest.hash_eq_iff hP).mpr hn]
    · obtain ⟨⟨k', hmem, hm', hid, hh, -⟩, hreplayed⟩ := hpost
      obtain rfl := hreg'.key_unique hmem hk' (hm'.ident hm)
      refine .inr (.inl ⟨(CreationRequest.hash_eq_iff hP).mp ((creator hj hp).symm.trans hh),
        res.ticket, ?_, hid.symm⟩)
      rw [← hreplayed k' (List.mem_singleton.mpr rfl) hm]
      rfl
  · intro i k hk context r key hm j context' r' key' hj hp
    obtain ⟨W', t, hrun, hid⟩ := Creation.run_create (S := S) (W := pool.shared.closeSession i)
      (i := i) (r := r) hreg hk hm (Store.dropped_rollback _ i).writes
      (by simp [World.closeSession, World.setStore, Store.rollback, Store.release])
    refine ⟨W', _, hrun, ?_⟩
    rw [creator hj hp]
    by_cases hn : r'.normalized = r.normalized
    · rw [if_pos ((CreationRequest.hash_eq_iff hP).mpr hn)]
      exact .inl ⟨hn, t, rfl, hid⟩
    · rw [if_neg fun hh => hn ((CreationRequest.hash_eq_iff hP).mp hh)]
      exact .inr ⟨hn, rfl⟩

/-- A request and its canonical text. -/
def CreationRequest.sample : CreationRequest := ⟨none, "Printer", "On fire", .high⟩

/-- A platform whose hash is SHA-256 on the sample request, and has no collisions. -/
def Platform.sample : Platform where
  sha256Hex data :=
    if data.data = (Json.dumps false (TicketService.canonicalRequest .sample)).toUTF8.data then
      "28440735715b6534c375a6c95997c843914efdb55ed016ca4eeb80124483d69f"
    else String.ofList ('-' :: data.data.toList.map Char.ofUInt8)
  lower := id
  sqlLower := id
  message _ := ""
  className _ := "Exception"

theorem Platform.sha256Hex_sample : Function.Injective Platform.sample.sha256Hex := by
  have hdigest : "28440735715b6534c375a6c95997c843914efdb55ed016ca4eeb80124483d69f".toList.head? =
    some '2' := rfl
  have hbyte : Function.Injective Char.ofUInt8 := fun b b' h =>
    UInt8.toUInt32_inj.mp (congrArg Char.val h)
  intro a b h
  simp only [sample] at h
  split_ifs at h with ha hb hb
  · rw [ByteArray.ext ha, ByteArray.ext hb]
  · rw [h] at hdigest
    simp at hdigest
  · rw [← h] at hdigest
    simp at hdigest
  · have hlist := String.ofList_inj.mp h
    have hdata := List.map_injective_iff.mpr hbyte (List.cons.inj hlist).2
    exact ByteArray.ext (Array.toList_inj.mp hdata)

/-- Two calls pass the first look-up together and one creates; a third comes with another
request. -/
theorem ticket_creation_is_idempotent_raced :
    ∃ (plan : Nat → TicketCall) (pool : ((ticketCalls .sample ⟨false, 300, 30⟩).system
        (fun i c => c = plan i) (fun _ _ _ _ => True) Elsewhere).Pool),
      System.Reachable (World.fresh Db.provisioned) pool ∧
      (pool.shared.store.db .tickets).length = 1 ∧ (pool.threads 1).error? = none ∧
      (pool.threads 2).error? = some .idempotencyKeyConflict ∧
      IdempotentCreation .sample ⟨false, 300, 30⟩ plan pool := by
  let plan : Nat → TicketCall
    | 2 => .create .owner ⟨none, "Phone", "Out of order", .low⟩ "key"
    | _ => .create .owner .sample "key"
  let moves : List (System.Move TicketCall Choice Empty) := [
    .start 0 (plan 0), .ops 0 [{}], .start 1 (plan 1), .ops 1 [{}],
    .ops 0 (List.replicate 8 { uuid := 1 }), .finish 0,
    .ops 1 (List.replicate 9 { uuid := 2 }), .finish 1,
    .start 2 (plan 2), .ops 2 [{}], .finish 2]
  obtain ⟨pool, hreach, hobs⟩ := ((ticketCalls .sample ⟨false, 300, 30⟩).player Elsewhere
    (fun i (c : TicketCall) => decide (c = plan i))
    fun i (c : TicketCall) h => (decide_eq_true_iff (p := c = plan i)).mp h).replay_map moves
    (.init (World.fresh Db.provisioned)) (fun pool => ((pool.shared.store.db .tickets).length,
      (pool.threads 1).error?, (pool.threads 2).error?))
    (b := (1, none, some .idempotencyKeyConflict)) (by decide +kernel)
  simp only [Prod.mk.injEq] at hobs
  exact ⟨plan, pool, hreach, hobs.1, hobs.2.1, hobs.2.2,
    ticket_creation_is_idempotent _ _ _ Platform.sha256Hex_sample (World.quiet_fresh _) rfl rfl rfl
      hreach⟩

end Ticketing
