import Ticketing.Api.Tickets
import Ticketing.Concurrency.Authority
import Ticketing.Concurrency.Pages
import Ticketing.Concurrency.Rotation
import Mathlib.Data.List.Sort

/-!
# The order a ticket's events are listed in

`list_events` sorts by `created_at`, the time at which the transaction of an action began: with
the first query of its request, which looks up the caller. What happened first is what was
committed first, and the commits are ordered by the lock on the ticket's row. A request that has
begun before another and gets the lock after it is listed before it.

* `ticketRequests` is the pool: the calls of the ticket service as whole requests, from the
  authentication on (`TicketRequest` of `Api/Tickets.lean`).
* `ListsHistory`: a listing is the history of the ticket, in the order of `History`.
* `Listed` is the order of the listing: by `created_at`, then by `id`. `InOrder`: what a session
  is about to commit is to be listed after what is committed.

Results:
* `sorted`: where every commit is in order, so are the events of each ticket.
* `events_listed_in_order`: in such runs every listing is the history of the ticket.
* `events_listed_out_of_order`: a run in which one is not.
-/

namespace Ticketing

open Lib (Prog Store System)
open Traced (Ends Walks)
open Authority (AllowedFor)

/-- The requests that create or change tickets, at once. -/
def ticketRequests (P : Platform) (X : Security) (C : Settings) (S : RBACService) : Calls where
  Call := TicketRequest
  Ret q := q.endpoint.Ret
  prog := TicketRequest.serve P X C S

/-- What `list_events` is to return of the ticket `x`. -/
structure ListsHistory (x : Ticket) (events : List TicketEvent) : Prop where
  created : ∃ e rest, events = e :: rest ∧ e.eventType = .created
  chain : events.IsChain fun e e' => e'.fromStatus = some e.toStatus ∧
    e'.fromAssigneeMembershipId = e.toAssigneeMembershipId
  last : ∃ e, events.getLast? = some e ∧ e.toStatus = x.status ∧
    e.toAssigneeMembershipId = x.assigneeMembershipId

namespace EventOrder

variable {P : Platform} {X : Security} {C : Settings} {S : RBACService} {admits : Admission}

/-! ## Requests -/

/-- A request keeps the ledgers as the call it makes does. -/
theorem keep_ticketRequests (P : Platform) (X : Security) (C : Settings) (S : RBACService)
    (admits : Admission) : Audit.Keep (ticketRequests P X C S) admits := by
  rintro i ⟨rawToken, xTenantId, tenantId, endpoint⟩
  refine .bind (Audit.quiet (quiet_getCurrentTenant X C _ _) WorldOutline.own_true)
    fun context => ?_
  refine .bind (Audit.quiet (quiet_ensurePathTenant _ _) WorldOutline.own_true) fun _ => ?_
  cases endpoint with
  | createTicket r key => exact Audit.create S P context r key
  | updateTicket id changes => exact Audit.update S context id changes
  | claimTicket id note => exact Audit.claim S context id note
  | transferTicket id assignee note => exact Audit.transfer S context id assignee note
  | resolveTicket id note => exact Audit.conclude S (.inl rfl) context id note
  | reopenTicket id note => exact Audit.reopen S context id note
  | closeTicket id note => exact Audit.conclude S (.inr rfl) context id note

theorem ends_serve (q : TicketRequest) :
    Ends (AllowedFor S fun _ => True) (.pure True) [] (q.serve P X C S) := by
  obtain ⟨rawToken, xTenantId, tenantId, endpoint⟩ := q
  refine .bind (Walks.quiet (quiet_getCurrentTenant X C _ _)) fun context => ?_
  refine .bind (Walks.quiet (quiet_ensurePathTenant _ _)) fun _ => ?_
  suffices h : Ends (Authority.Allowed S context) (.pure True) []
      (endpoint.serve P S context) from
    (h.mono fun _ _ h => ⟨context, trivial, h⟩).pre fun _ _ => trivial
  cases endpoint with
  | createTicket r key => exact Authority.ends_create r key
  | updateTicket id changes => exact Authority.ends_update id changes
  | claimTicket id note => exact Authority.ends_claim id note
  | transferTicket id assignee note => exact Authority.ends_transfer id assignee note
  | resolveTicket id note => exact Authority.ends_conclude (.inl rfl) id note
  | reopenTicket id note => exact Authority.ends_reopen id note
  | closeTicket id note => exact Authority.ends_conclude (.inr rfl) id note

/-! ## Commits in order -/

/-- `e` is listed before `e'`. -/
def Listed (e e' : TicketEvent) : Prop :=
  Db.createdOrder (e.createdAt, e.id) (e'.createdAt, e'.id)

instance instDecidableListed (e e' : TicketEvent) : Decidable (Listed e e') :=
  inferInstanceAs (Decidable (_ = true))

/-- What session `i` adds to the log of a ticket comes after what is there: its transaction began
later. -/
def InOrder (i : Nat) (W : World) : Prop :=
  ∀ e ∈ (W.store.sessions i).writes.filterMap Write.event?, ∀ e' ∈ W.store.db .ticketEvents,
    e'.ticketId = e.ticketId → Listed e' e

instance instDecidableInOrder (i : Nat) (W : World) : Decidable (InOrder i W) :=
  inferInstanceAs (Decidable (∀ e ∈ _, ∀ e' ∈ _, _ → _))

/-- Runs whose commits are in order. -/
def inOrder : Admission := fun i W o _ => o = .commit → InOrder i W

/-- The events of the ticket `id`, in the order of their commits. -/
def eventsOf (db : Db) (id : UUID) : List TicketEvent :=
  (db .ticketEvents).filter (·.ticketId = id)

section Sorted

variable {K : Calls} {ctx : K.Call → CurrentTenant → Prop} {may : Nat → K.Call → Prop}
variable {pool : (K.system may inOrder Elsewhere).Pool} {T : Nat → Trace} {W₀ : World}

theorem pairwise_of_one {l : List TicketEvent} (h : l.length ≤ 1) : l.Pairwise Listed := by
  rcases l with _ | ⟨e, _ | ⟨e', l⟩⟩
  · exact .nil
  · exact List.pairwise_singleton _ e
  · simp at h

/-- **Committed in order, the events of a ticket are in the order of the listing.** -/
theorem sorted (he₀ : W₀.store.db .ticketEvents = [])
    (hends : ∀ c, Ends (AllowedFor S (ctx c)) (.pure True) [] (K.prog c))
    (h : System.Records W₀ pool T) (id : UUID) :
    (eventsOf pool.shared.store.db id).Pairwise Listed := by
  induction h with
  | init =>
    rw [eventsOf, show (System.Pool.init W₀ : (K.system may inOrder Elsewhere).Pool).shared.store.db
      .ticketEvents = [] from he₀]
    exact .nil
  | start h j d hj hc ih => exact ih
  | @exec pool T h j d o k hj r W hs ih =>
    obtain ⟨ch, hadmit, hs⟩ := hs
    rcases opStep_commits hs with ⟨hdb, -⟩ | ⟨rfl, hc⟩
    · show (eventsOf W.store.db id).Pairwise Listed
      rw [eventsOf, hdb]
      exact ih
    · obtain ⟨ws, ⟨context, -, hallowed⟩, hstamped⟩ :=
        Calls.committing_of_ends (fun _ _ hW => hW.sessions) hends h hj
      have hkeep : ∀ w ∈ (pool.shared.store.sessions j).writes, w.KeepsTickets := fun w hw => by
        obtain ⟨w₀, hw₀, τ, rfl⟩ := hstamped.mem hw
        exact Authority.keepsTickets_stamp τ (hallowed.writes w₀ hw₀)
      have hevents : W.store.db .ticketEvents = pool.shared.store.db .ticketEvents ++
          (pool.shared.store.sessions j).writes.filterMap Write.event? := by
        rw [hc.db, Store.view]
        exact Authority.foldl_events hkeep _
      have hone := (Authority.events_stamped hstamped).trans_le hallowed.one
      show (eventsOf W.store.db id).Pairwise Listed
      rw [eventsOf, hevents, List.filter_append, List.pairwise_append]
      refine ⟨ih, .sublist List.filter_sublist (pairwise_of_one hone), fun e he e' he' => ?_⟩
      · obtain ⟨he, hid⟩ := List.mem_filter.mp he
        obtain ⟨he', hid'⟩ := List.mem_filter.mp he'
        exact hadmit rfl e' he' e he ((of_decide_eq_true hid).trans (of_decide_eq_true hid').symm)
  | finish h j d p hj r hr ih => exact ih
  | crash h j d p hj ih => exact ih
  | env h W hs ih =>
    show (eventsOf W.store.db id).Pairwise Listed
    rw [eventsOf, hs.ticketEvents]
    exact ih

end Sorted

/-! ## Listings -/

/-- What `list_events` returns. -/
theorem of_serves {m : Moment} {context : CurrentTenant} {ticketId : UUID}
    {events : List TicketEvent}
    (h : m.Serves (TicketService.listEvents S context ticketId) events) :
    (∃ x, m.db.ticket context.tenant.id ticketId = some x) ∧
      events = m.db.ticketEventsOf context.tenant.id ticketId := by
  obtain ⟨hm, W, hrun⟩ := h
  obtain ⟨x, ⟨W₁, draws₁⟩, hget, hlist⟩ := Prog.run_bind_ok hrun
  refine ⟨?_, ?_⟩
  · obtain ⟨found, s, hfind, haccess⟩ := Prog.run_bind_ok hget
    obtain ⟨W₂, hselect, -⟩ := hm.run_select m.random [] fun db : Db =>
      db.ticket context.tenant.id ticketId
    obtain ⟨hfound, -⟩ : m.world.store.db.ticket context.tenant.id ticketId = found ∧
        (W₂, []) = s := by
      simpa using hselect.symm.trans hfind
    rcases found with _ | y
    · cases haccess
    · exact ⟨y, hfound⟩
  · obtain ⟨hW, hs, -⟩ := hm.run_reading (TicketService.quiet_get S context ticketId) hget
    obtain ⟨W₂, hselect, -⟩ := hW.run_select m.random draws₁ fun db : Db =>
      db.ticketEventsOf context.tenant.id ticketId
    rw [List.foldl_nil, hs.db] at hselect
    obtain ⟨rfl, -⟩ : m.world.store.db.ticketEventsOf context.tenant.id ticketId = events ∧
        W₂ = W ∧ draws₁ = [] := by
      simpa using hselect.symm.trans hlist
    rfl

/-- A sorted log whose events are of the tenant is listed as it is. -/
theorem ticketEventsOf_eq {db : Db} {tenantId id : UUID} (hs : (eventsOf db id).Pairwise Listed)
    (ht : ∀ e ∈ eventsOf db id, e.tenantId = tenantId) :
    db.ticketEventsOf tenantId id = eventsOf db id := by
  have hfilter : (db .ticketEvents).filter (fun e => e.tenantId = tenantId ∧ e.ticketId = id) =
      eventsOf db id := List.filter_congr fun e he => by
    by_cases hid : e.ticketId = id
    · have htenant := ht e (List.mem_filter.mpr ⟨he, decide_eq_true hid⟩)
      simp [hid, htenant]
    · simp [hid]
  rw [Db.ticketEventsOf, hfilter]
  exact List.Pairwise.insertionSort_eq hs

end EventOrder

open EventOrder

/-- **Events are listed in the order they happened** where transactions that add events to one
ticket commit in the order they began. -/
theorem events_listed_in_order (P : Platform) (X : Security) (C : Settings) (S : RBACService)
    {W₀ : World} (hq : W₀.Quiet) (ht : W₀.store.db .tickets = [])
    (he : W₀.store.db .ticketEvents = [])
    {pool : ((ticketRequests P X C S).system (fun _ _ => True) inOrder Elsewhere).Pool}
    (h : System.Reachable W₀ pool) {m : Moment} (hm : m.world = pool.shared)
    {context : CurrentTenant} {ticketId : UUID} {events : List TicketEvent}
    (hlist : m.Serves (TicketService.listEvents S context ticketId) events) :
    ∃ x ∈ pool.shared.store.db .tickets, x.id = ticketId ∧ x.tenantId = context.tenant.id ∧
      ListsHistory x events := by
  obtain ⟨T, hT⟩ := System.exists_records h
  have hends : ∀ q : TicketRequest, Ends (AllowedFor S fun _ => True) (.pure True) []
    ((ticketRequests P X C S).prog q) := ends_serve
  have hinv := (Audit.poolOk (keep_ticketRequests P X C S _) hq ht he h).inv.2
  obtain ⟨⟨x, hx⟩, rfl⟩ := of_serves hlist
  have hdb : m.db = pool.shared.store.db := congrArg (fun W => W.store.db) hm
  rw [hdb] at hx ⊢
  have hmem : x ∈ pool.shared.store.db .tickets := List.mem_of_find?_eq_some hx
  obtain ⟨htenant, rfl⟩ : x.tenantId = context.tenant.id ∧ x.id = ticketId := by
    simpa using List.find?_some hx
  have htenants : ∀ e ∈ eventsOf pool.shared.store.db x.id, e.tenantId = context.tenant.id := by
    intro e hmem'
    obtain ⟨he', hid⟩ := List.mem_filter.mp hmem'
    obtain ⟨-, -, -, y, -, -, -, hy, hyid, hytenant, -⟩ :=
      Authority.event_source hq he hends hT he'
    have hy' : y ∈ (pool.shared.store.db .tickets).filter (·.id = x.id) :=
      List.mem_filter.mpr ⟨hy, decide_eq_true (hyid.trans (of_decide_eq_true hid))⟩
    rw [Audit.Ledger.unique hmem (hinv x.id), List.mem_singleton] at hy'
    rw [← hytenant, hy', htenant]
  rw [ticketEventsOf_eq (sorted he hends hT x.id) htenants]
  obtain ⟨⟨e, rest, hes, htype, -⟩, hchain, hlast, -⟩ := Audit.Ledger.agrees hmem (hinv x.id)
  exact ⟨x, hmem, rfl, htenant, ⟨e, rest, hes, htype⟩, hchain, hlast⟩

/-! ## Two runs -/

namespace EventOrder

/-- The requests of a deployment with the secret key `k`. -/
abbrev deployment : Calls := ticketRequests .plain .clear { authSecretKey := "k" } ⟨false, 300, 30⟩

/-- Runs in which time passes and commits are as `ordered` says. -/
def requestsPlayer {admits : Admission} (ordered : Nat → World → Bool)
    (ha : ∀ i W o c, (o = .commit → ordered i W = true) → admits i W o c) :
    (deployment.system (fun _ _ => True) admits Elsewhere).Player Choice Nat :=
  let base : (deployment.system (fun _ _ => True) admits Elsewhere).Player Choice Empty :=
    deployment.playerOf Elsewhere (fun _ _ => true) (fun _ _ _ => trivial)
      (fun i W o _ => match o with
        | .commit => ordered i W
        | _ => true)
      fun i W o c h => ha i W o c fun ho => by
        subst ho
        exact h
  { may := base.may
    exec := base.exec
    moveEnv := fun n W => some { W with clock := W.clock + n }
    may_start := base.may_start
    exec_step := base.exec_step
    env_step := fun h => by
      cases h
      exact ⟨rfl, rfl, rfl, fun _ _ => id, rfl, rfl, rfl⟩ }

/-- The owner asks for this, with a token of the time 0. -/
def ask (endpoint : TicketEndpoint) : TicketRequest :=
  ⟨Security.clear.encode "k" ⟨(1 : UUID).str, (2 : UUID).str, "access", 0, 900⟩, 1, 1, endpoint⟩

/-- The queries that look up the caller. -/
def lookup (i : Nat) : System.Move TicketRequest Choice Nat := .ops i (List.replicate 4 {})

def creation : List (System.Move TicketRequest Choice Nat) :=
  [.start 0 (ask (.createTicket ⟨none, "Printer", "It is on fire", .high⟩ "key")), lookup 0,
    .ops 0 (List.replicate 9 { uuid := 1 }), .finish 0, .env 1]

def claiming : List (System.Move TicketRequest Choice Nat) :=
  [.start 2 (ask (.claimTicket 1 none)), lookup 2, .ops 2 (List.replicate 7 { uuid := 2 }),
    .finish 2]

/-- What the owner is told of ticket 1, in a session that has not been used. -/
def told (W : World) : Option (List TicketEvent) :=
  match (TicketService.listEvents ⟨false, 300, 30⟩ .owner 1).run (alone 3 0) (W, []) with
  | some (.ok events, (_, [])) =>
    if (W.store.sessions 3).broken = false ∧ (W.store.sessions 3).writes.isEmpty then some events
    else none
  | _ => none

theorem serves_of_told {W : World} {events : List TicketEvent} (h : told W = some events) :
    Moment.Serves ⟨W, 3, 0⟩ (TicketService.listEvents ⟨false, 300, 30⟩ .owner 1) events := by
  unfold told at h
  split at h
  · rename_i W' hrun
    split at h
    · rename_i hs
      cases h
      exact ⟨⟨hs.1, List.isEmpty_iff.mp hs.2⟩, W', hrun⟩
    · cases h
  · cases h

end EventOrder

/-- A ticket is created and claimed. -/
theorem events_listed_in_order_claimed :
    ∃ (pool : (deployment.system (fun _ _ => True) inOrder Elsewhere).Pool)
      (events : List TicketEvent), System.Reachable (World.fresh Db.provisioned) pool ∧
      events.map (·.eventType) = [.created, .claimed] ∧
      ∃ x ∈ pool.shared.store.db .tickets, x.id = 1 ∧ x.tenantId = 1 ∧ ListsHistory x events := by
  obtain ⟨pool, hreach, hobs⟩ := (requestsPlayer (fun i W => decide (InOrder i W))
    fun i W o c h ho => of_decide_eq_true (h ho)).replay_map (creation ++ claiming)
    (.init (World.fresh Db.provisioned))
    (fun pool => (told pool.shared).map fun events => events.map (·.eventType))
    (b := some [.created, .claimed]) (by decide +kernel)
  obtain ⟨events, htold, htypes⟩ := Option.map_eq_some_iff.mp hobs
  exact ⟨pool, events, hreach, htypes, events_listed_in_order _ _ _ _ (World.quiet_fresh _) rfl rfl
    hreach rfl (serves_of_told htold)⟩

/-- **A request that waits is listed too early.** The request to resolve the ticket has begun before
the one to claim it, and gets the lock after it. -/
theorem events_listed_out_of_order :
    ∃ (pool : (deployment.system (fun _ _ => True) (fun _ _ _ _ => True) Elsewhere).Pool)
      (events : List TicketEvent), System.Reachable (World.fresh Db.provisioned) pool ∧
      Moment.Serves ⟨pool.shared, 3, 0⟩ (TicketService.listEvents ⟨false, 300, 30⟩ .owner 1)
        events ∧
      ∀ x, ¬ListsHistory x events := by
  obtain ⟨pool, hreach, hobs⟩ := (requestsPlayer (fun _ _ => true)
    fun _ _ _ _ _ => trivial).replay_map
    (creation ++ [.start 1 (ask (.resolveTicket 1 none)), lookup 1, .env 1] ++ claiming ++
      [.ops 1 (List.replicate 7 { uuid := 3 }), .finish 1])
    (.init (World.fresh Db.provisioned))
    (fun pool => (told pool.shared).map fun events =>
      events.map fun e => (e.eventType, e.fromStatus, e.toStatus))
    (b := some [(.created, none, .open), (.resolved, some .inProgress, .resolved),
      (.claimed, some .open, .inProgress)]) (by decide +kernel)
  obtain ⟨events, htold, hevents⟩ := Option.map_eq_some_iff.mp hobs
  refine ⟨pool, events, hreach, serves_of_told htold, fun x hx => ?_⟩
  obtain ⟨e₀, rest, rfl, h₀, hrest⟩ := List.map_eq_cons_iff.mp hevents
  obtain ⟨e₁, rest, rfl, h₁, -⟩ := List.map_eq_cons_iff.mp hrest
  have hchain := (List.isChain_cons_cons.mp hx.chain).1.1
  simp only [Prod.mk.injEq] at h₀ h₁
  rw [h₁.2.1, h₀.2.2] at hchain
  cases hchain

end Ticketing
