import Ticketing.Lib.Keyset
import Ticketing.Services.Ticket
import Ticketing.Services.TicketCollaboration
import Ticketing.Services.TicketCursor
import Mathlib.Data.Prod.Lex

/-!
# `TicketService.list`

A page of the tickets a caller may see, the newest first.

* `Db.listForTenant` is `TicketRepository.list_for_tenant`: `Selected` are its filters,
  `afterCursor` its condition on the cursor.
* `TicketService.list` decodes the cursor, reads one row more than the page holds and encodes the
  cursor of the next page (`cursorOf`, `toPage`).
* `pageOf` is what a page holds, given whether the caller may read all tickets and the rows its
  query sees; `listed` is the listing it is a page of.

`pageOf_eq`: pages are keyset pages (`Lib.Keyset`) under `createdKey`, the time and the id.

Times are compared as instants; the request schema and the cursor's decoder let only aware ones
through. `icontains` is SQLAlchemy's, with `autoescape`: the keyword is looked for as it stands,
in the database's lower case.
-/

namespace Ticketing

open Lib.Text (contains)
open Lib.Datetime (Stamp)
open TicketCursor (encodeTicketCursor decodeTicketCursor)

structure TicketFilters where
  creatorMembershipId : Option UUID
  status : Option TicketStatus
  assigneeMembershipId : Option UUID
  priority : Option TicketPriority
  createdFrom : Option Stamp
  createdTo : Option Stamp
  keyword : Option String
  cursorCreatedAt : Option Stamp
  cursorTicketId : Option UUID

structure TicketListOptions where
  status : Option TicketStatus
  assigneeMembershipId : Option UUID
  priority : Option TicketPriority
  createdFrom : Option Stamp
  createdTo : Option Stamp
  keyword : Option String
  cursor : Option String
  limit : Nat
  /-- `Field(ge=1)`. -/
  limit_pos : 1 ≤ limit

structure TicketPage where
  items : List Ticket
  nextCursor : Option String

/-- The instant a comparison takes a time for. -/
def instantOf (d : Stamp) : Int := d.micros - d.utcoffset.getD 0

/-- `column.icontains(keyword, autoescape=True)`. -/
def icontains (P : Platform) (text keyword : String) : Bool :=
  contains (P.sqlLower text) (P.sqlLower keyword)

namespace Db

/-- The conditions of `list_for_tenant` but for the cursor's. -/
def Selected (P : Platform) (tenantId : UUID) (filters : TicketFilters) (t : Ticket) : Prop :=
  t.tenantId = tenantId ∧ filters.creatorMembershipId.all (t.createdByMembershipId = ·) ∧
    filters.status.all (t.status = ·) ∧
    filters.assigneeMembershipId.all (t.assigneeMembershipId = some ·) ∧
    filters.priority.all (t.priority = ·) ∧ filters.createdFrom.all (instantOf · ≤ t.createdAt) ∧
    filters.createdTo.all (t.createdAt ≤ instantOf ·) ∧
    filters.keyword.all fun keyword => icontains P t.subject keyword ||
      icontains P t.description keyword

instance (P : Platform) (tenantId : UUID) (filters : TicketFilters) (t : Ticket) :
    Decidable (Selected P tenantId filters t) := inferInstanceAs (Decidable (_ ∧ _))

/-- The cursor's condition. -/
def afterCursor (filters : TicketFilters) (t : Ticket) : Bool :=
  match filters.cursorCreatedAt, filters.cursorTicketId with
  | some createdAt, some ticketId =>
    t.createdAt < instantOf createdAt || t.createdAt = instantOf createdAt && t.id < ticketId
  | _, _ => true

/-- `TicketRepository.list_for_tenant`. -/
def listForTenant (P : Platform) (db : Db) (tenantId : UUID) (filters : TicketFilters)
    (limit : Nat) : List Ticket :=
  (((db .tickets).filter fun t => Selected P tenantId filters t ∧
    afterCursor filters t).insertionSort
    fun a b => createdOrder (b.createdAt, b.id) (a.createdAt, a.id)).take limit

end Db

namespace TicketService

variable (P : Platform) (S : RBACService)

/-- The filters of a request, by whether its caller may read all tickets. -/
def filtersOf (context : CurrentTenant) (options : TicketListOptions) (canReadAll : Bool)
    (cursor : Option TicketCursor) : TicketFilters where
  creatorMembershipId := if canReadAll then none else some context.membership.id
  status := options.status
  assigneeMembershipId := options.assigneeMembershipId
  priority := options.priority
  createdFrom := options.createdFrom
  createdTo := options.createdTo
  keyword := options.keyword
  cursorCreatedAt := cursor.map (·.createdAt)
  cursorTicketId := cursor.map (·.ticketId)

/-- `None if options.cursor is None else decode_ticket_cursor(options.cursor)`. -/
def cursorOf (options : TicketListOptions) : Except Exn (Option TicketCursor) :=
  match options.cursor with
  | none => .ok none
  | some encoded => (decodeTicketCursor encoded).map some

/-- The page of the records of a query for one more than `limit`. -/
def toPage (limit : Nat) (records : List Ticket) : TicketPage where
  items := records.take limit
  nextCursor :=
    if limit < records.length then
      (records.take limit).getLast?.map fun last =>
        encodeTicketCursor ⟨⟨last.createdAt, some 0⟩, last.id⟩
    else none

def list (context : CurrentTenant) (options : TicketListOptions) : Service TicketPage := do
  let canReadAll ← S.hasPermission context.membership .ticketsReadAll
  let cursor ← Service.ofExcept (cursorOf options)
  let records ← Service.select fun db => db.listForTenant P context.tenant.id
    (filtersOf context options canReadAll cursor) (options.limit + 1)
  pure (toPage options.limit records)

/-- What a request gets, given whether its caller may read all tickets and the rows its query
sees. -/
def pageOf (context : CurrentTenant) (options : TicketListOptions) (canReadAll : Bool) (db : Db) :
    Except Exn TicketPage :=
  (cursorOf options).map fun cursor => toPage options.limit
    (db.listForTenant P context.tenant.id (filtersOf context options canReadAll cursor)
      (options.limit + 1))

/-! ## Pages are keyset pages -/

/-- What tickets are listed by. -/
def createdKey (t : Ticket) : Time ×ₗ UUID := toLex (t.createdAt, t.id)

/-- The cursor after a key. -/
def cursorAt (k : Time ×ₗ UUID) : TicketCursor := ⟨⟨(ofLex k).1, some 0⟩, (ofLex k).2⟩

/-- The tickets of a listing. -/
def listed (context : CurrentTenant) (options : TicketListOptions) (canReadAll : Bool) (db : Db) :
    List Ticket :=
  (db .tickets).filter (Db.Selected P context.tenant.id (filtersOf context options canReadAll none))

theorem createdOrder_iff (a b : Ticket) :
    Db.createdOrder (a.createdAt, a.id) (b.createdAt, b.id) ↔ createdKey a ≤ createdKey b := by
  simp [Db.createdOrder, createdKey, Prod.Lex.toLex_le_toLex]

theorem insertionSort_congr {α : Type} {r r' : α → α → Prop} [DecidableRel r] [DecidableRel r']
    (h : ∀ a b, r a b ↔ r' a b) (l : List α) : l.insertionSort r = l.insertionSort r' := by
  obtain rfl : r = r' := funext₂ fun a b => propext (h a b)
  congr

theorem afterCursor_iff {context : CurrentTenant} {options : TicketListOptions} {canReadAll : Bool}
    (cursor : Option (Time ×ₗ UUID)) (t : Ticket) :
    Db.afterCursor (filtersOf context options canReadAll (cursor.map cursorAt)) t =
      cursor.all (createdKey t < ·) := by
  cases cursor with
  | none => rfl
  | some k =>
    rw [Bool.eq_iff_iff]
    simp [Db.afterCursor, filtersOf, cursorAt, instantOf, createdKey, Prod.Lex.lt_iff]

theorem listForTenant_eq (context : CurrentTenant) (options : TicketListOptions) (canReadAll : Bool)
    (cursor : Option (Time ×ₗ UUID)) (db : Db) (n : Nat) :
    db.listForTenant P context.tenant.id
        (filtersOf context options canReadAll (cursor.map cursorAt)) n =
      (Lib.Keyset.after createdKey cursor (listed P context options canReadAll db)).take n := by
  rw [Db.listForTenant, Lib.Keyset.after, listed, List.filter_filter,
    insertionSort_congr fun a b => createdOrder_iff b a]
  congr 2
  refine List.filter_congr fun t _ => ?_
  have hselected : Db.Selected P context.tenant.id
      (filtersOf context options canReadAll (cursor.map cursorAt)) t ↔
      Db.Selected P context.tenant.id (filtersOf context options canReadAll none) t := Iff.rfl
  rw [Bool.eq_iff_iff, decide_eq_true_eq, Bool.and_eq_true, decide_eq_true_eq, hselected,
    afterCursor_iff, and_comm]

/-- A time that is a `datetime`. -/
def IsDatetime (t : Time) : Prop := t < Lib.Datetime.maxDays * 86400000000

/-- The cursor after a key, as a request carries it. -/
def encodeKey (k : Time ×ₗ UUID) : String := encodeTicketCursor (cursorAt k)

theorem cursorOf_encodeKey {options : TicketListOptions} {cursor : Option (Time ×ₗ UUID)}
    (hc : ∀ k ∈ cursor, IsDatetime (ofLex k).1) :
    cursorOf { options with cursor := cursor.map encodeKey } = .ok (cursor.map cursorAt) := by
  cases cursor with
  | none => rfl
  | some k =>
    have hvalid : (cursorAt k).createdAt.Valid :=
      ⟨hc k rfl, fun offset ho => by cases ho; decide⟩
    simp only [cursorOf, Option.map_some, encodeKey, TicketCursor.decode_encode hvalid rfl]
    rfl

theorem toPage_nextCursor (limit : Nat) (records : List Ticket) :
    (toPage limit records).nextCursor =
      (Lib.Keyset.next createdKey limit records).map encodeKey := by
  unfold toPage Lib.Keyset.next
  split
  · rw [Option.map_map]
    rfl
  · rfl

theorem toPage_items (limit : Nat) (records : List Ticket) :
    (toPage limit (records.take (limit + 1))).items = records.take limit := by
  rw [toPage, List.take_take, Nat.min_eq_left (Nat.le_succ limit)]

/-- **A page of a request is a keyset page.** -/
theorem pageOf_eq (context : CurrentTenant) (options : TicketListOptions) (canReadAll : Bool)
    (db : Db) {cursor : Option (Time ×ₗ UUID)} (hc : ∀ k ∈ cursor, IsDatetime (ofLex k).1) :
    pageOf P context { options with cursor := cursor.map encodeKey } canReadAll db =
      .ok (toPage options.limit ((Lib.Keyset.after createdKey cursor
        (listed P context options canReadAll db)).take (options.limit + 1))) := by
  rw [pageOf, cursorOf_encodeKey hc, ← listForTenant_eq]
  rfl

end TicketService

end Ticketing
