import Ticketing.Model.Rows
import Ticketing.Lib.Store
import Mathlib.Data.List.Nodup

/-!
# The database

`Db` gives every table its rows, in the order their inserts were committed.

* `Write` is what a flush sends: an insert, an update of the columns that changed between the
  object as it was loaded and as it is now (`patch`), a delete of the rows a statement found,
  where they still match, or `revoke_all_active`, the one update of many rows. `Write.apply` is
  what it does.
* `Key` names what a write locks: a row, or a value of a unique constraint (`Table.uniques`).
  `Write.fresh` are the keys that must be absent for it to be accepted, `Write.keys` those it
  locks.
* `Write.stamp` fills in the columns of the server's clock, with the time the transaction began:
  `now()` is the same throughout a transaction.
* `schema` is the instance of `Lib.Store` these make.

A write changes only its own table (`apply_other`), no row whose key it does not have
(`mem_apply`), and makes no key present but its own (`apply_absent`).

Only columns some service assigns after the insert are ever updated, so `patch` has only those.
Foreign keys are left out: nothing they refer to is ever deleted, and the services read a row
before they insert one that refers to it.
-/

namespace Ticketing

inductive Table
  | tenants
  | users
  | refreshTokens
  | memberships
  | permissions
  | roles
  | rolePermissions
  | membershipRoles
  | customers
  | tickets
  | ticketEvents
  | ticketCreationKeys
  | ticketComments
  | ticketAttachments
  | backgroundJobs
  | outboxMessages
  | notificationDeliveries
  deriving DecidableEq, Repr

namespace Table

abbrev Row : Table → Type
  | tenants => Tenant
  | users => User
  | refreshTokens => RefreshToken
  | memberships => Membership
  | permissions => Permission
  | roles => Role
  | rolePermissions => RolePermission
  | membershipRoles => MembershipRole
  | customers => Customer
  | tickets => Ticket
  | ticketEvents => TicketEvent
  | ticketCreationKeys => TicketCreationKey
  | ticketComments => TicketComment
  | ticketAttachments => TicketAttachment
  | backgroundJobs => BackgroundJob
  | outboxMessages => OutboxMessage
  | notificationDeliveries => NotificationDelivery

instance : (t : Table) → DecidableEq t.Row
  | tenants => inferInstanceAs (DecidableEq Tenant)
  | users => inferInstanceAs (DecidableEq User)
  | refreshTokens => inferInstanceAs (DecidableEq RefreshToken)
  | memberships => inferInstanceAs (DecidableEq Membership)
  | permissions => inferInstanceAs (DecidableEq Permission)
  | roles => inferInstanceAs (DecidableEq Role)
  | rolePermissions => inferInstanceAs (DecidableEq RolePermission)
  | membershipRoles => inferInstanceAs (DecidableEq MembershipRole)
  | customers => inferInstanceAs (DecidableEq Customer)
  | tickets => inferInstanceAs (DecidableEq Ticket)
  | ticketEvents => inferInstanceAs (DecidableEq TicketEvent)
  | ticketCreationKeys => inferInstanceAs (DecidableEq TicketCreationKey)
  | ticketComments => inferInstanceAs (DecidableEq TicketComment)
  | ticketAttachments => inferInstanceAs (DecidableEq TicketAttachment)
  | backgroundJobs => inferInstanceAs (DecidableEq BackgroundJob)
  | outboxMessages => inferInstanceAs (DecidableEq OutboxMessage)
  | notificationDeliveries => inferInstanceAs (DecidableEq NotificationDelivery)

def id : (t : Table) → t.Row → UUID
  | tenants => Tenant.id
  | users => User.id
  | refreshTokens => RefreshToken.id
  | memberships => Membership.id
  | permissions => Permission.id
  | roles => Role.id
  | rolePermissions => RolePermission.id
  | membershipRoles => MembershipRole.id
  | customers => Customer.id
  | tickets => Ticket.id
  | ticketEvents => TicketEvent.id
  | ticketCreationKeys => TicketCreationKey.id
  | ticketComments => TicketComment.id
  | ticketAttachments => TicketAttachment.id
  | backgroundJobs => BackgroundJob.id
  | outboxMessages => OutboxMessage.id
  | notificationDeliveries => NotificationDelivery.id

/-- The row with the columns the server fills in on insert. -/
def stampInsert (now : Time) : (t : Table) → t.Row → t.Row
  | tenants, r => { r with createdAt := now, updatedAt := now }
  | users, r => { r with createdAt := now, updatedAt := now }
  | refreshTokens, r => { r with createdAt := now, updatedAt := now }
  | memberships, r => { r with createdAt := now, updatedAt := now }
  | permissions, r => r
  | roles, r => { r with createdAt := now, updatedAt := now }
  | rolePermissions, r => r
  | membershipRoles, r => r
  | customers, r => { r with createdAt := now, updatedAt := now }
  | tickets, r => { r with createdAt := now, updatedAt := now }
  | ticketEvents, r => { r with createdAt := now }
  | ticketCreationKeys, r => { r with createdAt := now }
  | ticketComments, r => { r with createdAt := now }
  | ticketAttachments, r => { r with createdAt := now }
  | backgroundJobs, r => { r with createdAt := now, updatedAt := now }
  | outboxMessages, r => { r with createdAt := now, updatedAt := now, availableAt := now }
  | notificationDeliveries, r => { r with createdAt := now, updatedAt := now }

/-- The object with the columns `onupdate` fills in. -/
def stampUpdate (now : Time) : (t : Table) → t.Row → t.Row
  | users, r => { r with updatedAt := now }
  | refreshTokens, r => { r with updatedAt := now }
  | memberships, r => { r with updatedAt := now }
  | customers, r => { r with updatedAt := now }
  | tickets, r => { r with updatedAt := now }
  | backgroundJobs, r => { r with updatedAt := now }
  | outboxMessages, r => { r with updatedAt := now }
  | notificationDeliveries, r => { r with updatedAt := now }
  | _, r => r

/-- A column of an `UPDATE`: set only where the object changed. -/
def changed {α : Type} [DecidableEq α] (loaded current row : α) : α :=
  if loaded = current then row else current

/-- The row after an `UPDATE` of the columns that differ between `loaded` and `current`. -/
def patch : (t : Table) → (loaded current row : t.Row) → t.Row
  | users, l, c, r => { r with
      passwordHash := changed l.passwordHash c.passwordHash r.passwordHash
      updatedAt := c.updatedAt }
  | refreshTokens, l, c, r => { r with
      revokedAt := changed l.revokedAt c.revokedAt r.revokedAt
      replacedById := changed l.replacedById c.replacedById r.replacedById
      updatedAt := c.updatedAt }
  | memberships, l, c, r => { r with
      status := changed l.status c.status r.status
      joinedAt := changed l.joinedAt c.joinedAt r.joinedAt
      updatedAt := c.updatedAt }
  | customers, l, c, r => { r with
      name := changed l.name c.name r.name
      email := changed l.email c.email r.email
      phone := changed l.phone c.phone r.phone
      isActive := changed l.isActive c.isActive r.isActive
      updatedAt := c.updatedAt }
  | tickets, l, c, r => { r with
      assigneeMembershipId :=
        changed l.assigneeMembershipId c.assigneeMembershipId r.assigneeMembershipId
      subject := changed l.subject c.subject r.subject
      description := changed l.description c.description r.description
      status := changed l.status c.status r.status
      priority := changed l.priority c.priority r.priority
      updatedAt := c.updatedAt }
  | backgroundJobs, l, c, r => { r with
      status := changed l.status c.status r.status
      result := changed l.result c.result r.result
      attemptCount := changed l.attemptCount c.attemptCount r.attemptCount
      lastErrorCode := changed l.lastErrorCode c.lastErrorCode r.lastErrorCode
      lastErrorMessage := changed l.lastErrorMessage c.lastErrorMessage r.lastErrorMessage
      startedAt := changed l.startedAt c.startedAt r.startedAt
      leaseExpiresAt := changed l.leaseExpiresAt c.leaseExpiresAt r.leaseExpiresAt
      completedAt := changed l.completedAt c.completedAt r.completedAt
      updatedAt := c.updatedAt }
  | outboxMessages, l, c, r => { r with
      status := changed l.status c.status r.status
      publishAttemptCount :=
        changed l.publishAttemptCount c.publishAttemptCount r.publishAttemptCount
      availableAt := changed l.availableAt c.availableAt r.availableAt
      publishedAt := changed l.publishedAt c.publishedAt r.publishedAt
      lastError := changed l.lastError c.lastError r.lastError
      updatedAt := c.updatedAt }
  | notificationDeliveries, l, c, r => { r with
      status := changed l.status c.status r.status
      attemptCount := changed l.attemptCount c.attemptCount r.attemptCount
      lastError := changed l.lastError c.lastError r.lastError
      deliveredAt := changed l.deliveredAt c.deliveredAt r.deliveredAt
      updatedAt := c.updatedAt }
  | _, _, _, r => r

/-- `WHERE id = …`: the row an update is for. A customer's row keeps the tenant it was loaded
with. -/
def isSameRow : (t : Table) → (loaded row : t.Row) → Bool
  | customers, l, r => r.id = l.id && r.tenantId = l.tenantId
  | t, l, r => t.id r = t.id l

end Table

/-- In a list without repetitions of `f`, a value of `f` picks one item. -/
theorem filter_of_nodup {α β : Type} [DecidableEq β] {f : α → β} {l : List α}
    (h : (l.map f).Nodup) {a : α} (ha : a ∈ l) : l.filter (fun x => f x = f a) = [a] := by
  induction l with
  | nil => cases ha
  | cons b l ih =>
    rw [List.map_cons, List.nodup_cons] at h
    rcases List.mem_cons.mp ha with rfl | ha
    · have hnone : l.filter (fun x => f x = f a) = [] :=
        List.filter_eq_nil_iff.mpr fun x hx he => h.1 (by
          rw [← of_decide_eq_true he]
          exact List.mem_map_of_mem hx)
      rw [List.filter_cons_of_pos (by simp), hnone]
    · have hne : f b ≠ f a := fun he => h.1 (by
        rw [he]
        exact List.mem_map_of_mem ha)
      rw [List.filter_cons_of_neg (by simpa using hne), ih h.2 ha]

/-- What a write locks. -/
inductive Key
  | row (t : Table) (id : UUID)
  | tenantSlug (slug : String)
  | userEmail (email : String)
  | refreshTokenHash (tokenHash : String)
  | membershipUser (tenantId userId : UUID)
  | permissionCode (code : String)
  | roleName (tenantId : UUID) (name : String)
  | rolePermissionPair (roleId permissionId : UUID)
  | membershipRolePair (membershipId roleId : UUID)
  | customerEmail (tenantId : UUID) (email : String)
  | ticketCreationKey (tenantId membershipId : UUID) (key : String)
  | attachmentObjectKey (objectKey : String)
  | backgroundJobKey (tenantId membershipId : UUID) (key : String)
  | outboxJob (jobId : UUID)
  | deliveryJob (jobId : UUID)
  | deliveryMessage (messageId : String)
  deriving DecidableEq, Repr

/-- The table a key is a key of. -/
def Key.table : Key → Table
  | row t _ => t
  | tenantSlug _ => .tenants
  | userEmail _ => .users
  | refreshTokenHash _ => .refreshTokens
  | membershipUser .. => .memberships
  | permissionCode _ => .permissions
  | roleName .. => .roles
  | rolePermissionPair .. => .rolePermissions
  | membershipRolePair .. => .membershipRoles
  | customerEmail .. => .customers
  | ticketCreationKey .. => .ticketCreationKeys
  | attachmentObjectKey _ => .ticketAttachments
  | backgroundJobKey .. => .backgroundJobs
  | outboxJob _ => .outboxMessages
  | deliveryJob _ => .notificationDeliveries
  | deliveryMessage _ => .notificationDeliveries

/-- The values a row puts under a unique constraint, its primary key apart. -/
def Table.uniques : (t : Table) → t.Row → List Key
  | tenants, r => [.tenantSlug r.slug]
  | users, r => [.userEmail r.email]
  | refreshTokens, r => [.refreshTokenHash r.tokenHash]
  | memberships, r => [.membershipUser r.tenantId r.userId]
  | permissions, r => [.permissionCode r.code]
  | roles, r => [.roleName r.tenantId r.name]
  | rolePermissions, r => [.rolePermissionPair r.roleId r.permissionId]
  | membershipRoles, r => [.membershipRolePair r.membershipId r.roleId]
  | customers, r => [.customerEmail r.tenantId r.email]
  | tickets, _ => []
  | ticketEvents, _ => []
  | ticketCreationKeys, r => [.ticketCreationKey r.tenantId r.membershipId r.key]
  | ticketComments, _ => []
  | ticketAttachments, r => [.attachmentObjectKey r.objectKey]
  | backgroundJobs, r => [.backgroundJobKey r.tenantId r.requestedByMembershipId r.idempotencyKey]
  | outboxMessages, r => [.outboxJob r.jobId]
  | notificationDeliveries, r => [.deliveryJob r.jobId, .deliveryMessage r.messageId]

/-- Every key of a row. -/
def Table.keys (t : Table) (r : t.Row) : List Key := .row t (t.id r) :: t.uniques r

/-- The rows of every table. -/
abbrev Db := (t : Table) → List t.Row

namespace Db

/-- `Session.get(t, id)`. -/
def get (db : Db) (t : Table) (id : UUID) : Option t.Row := (db t).find? fun r => t.id r = id

/-- `ORDER BY created_at, id`. -/
def createdOrder (a b : Time × UUID) : Bool := a.1 < b.1 || a.1 = b.1 && a.2 ≤ b.2

def present (k : Key) (db : Db) : Bool := (db k.table).any fun r => decide (k ∈ k.table.keys r)

end Db

/-- What a flush sends. -/
inductive Write
  | insert (t : Table) (row : t.Row)
  | update (t : Table) (loaded current : t.Row)
  /-- The rows of `ids`, as far as they still satisfy `p`. -/
  | delete (t : Table) (p : t.Row → Bool) (ids : List UUID)
  /-- The one bulk `UPDATE`: the user's tokens of `ids`, as far as they are still active. -/
  | revokeAllActive (userId : UUID) (revokedAt updatedAt : Time) (ids : List UUID)

namespace Write

/-- The table a write is to. -/
def table : Write → Table
  | insert t _ => t
  | update t _ _ => t
  | delete t _ _ => t
  | revokeAllActive .. => .refreshTokens

def apply : Write → Db → Db
  | insert t row, db => Function.update db t (db t ++ [row])
  | update t l c, db =>
    Function.update db t ((db t).map fun r => if t.isSameRow l r then t.patch l c r else r)
  | delete t p ids, db => Function.update db t ((db t).filter fun r => !(p r && t.id r ∈ ids))
  | revokeAllActive userId revokedAt updatedAt ids, db =>
    Function.update db .refreshTokens ((db .refreshTokens).map fun r =>
      if r.isActive userId && r.id ∈ ids then { r with revokedAt := some revokedAt, updatedAt }
      else r)

/-- The unique values a write adds. -/
def fresh : Write → List Key
  | insert t row => t.keys row
  | update t l c => (t.uniques (t.patch l c l)).filter (· ∉ t.uniques l)
  | delete _ _ _ => []
  | revokeAllActive .. => []

def keys : Write → List Key
  | insert t row => t.keys row
  | update t l c => .row t (t.id l) :: (t.uniques (t.patch l c l)).filter (· ∉ t.uniques l)
  | delete t _ ids => ids.map (.row t)
  | revokeAllActive _ _ _ ids => ids.map (.row .refreshTokens)

def stamp (now : Time) : Write → Write
  | insert t row => insert t (t.stampInsert now row)
  | update t l c => update t l (t.stampUpdate now c)
  | delete t p ids => delete t p ids
  | revokeAllActive userId revokedAt _ ids => revokeAllActive userId revokedAt now ids

end Write

/-! ## The schema -/

namespace Table

@[simp] theorem id_stampInsert (now : Time) (t : Table) (r : t.Row) :
    t.id (t.stampInsert now r) = t.id r := by cases t <;> rfl

@[simp] theorem uniques_stampInsert (now : Time) (t : Table) (r : t.Row) :
    t.uniques (t.stampInsert now r) = t.uniques r := by cases t <;> rfl

@[simp] theorem keys_stampInsert (now : Time) (t : Table) (r : t.Row) :
    t.keys (t.stampInsert now r) = t.keys r := by simp [keys]

@[simp] theorem id_stampUpdate (now : Time) (t : Table) (r : t.Row) :
    t.id (t.stampUpdate now r) = t.id r := by cases t <;> rfl

@[simp] theorem uniques_patch_stampUpdate (now : Time) (t : Table) (l c r : t.Row) :
    t.uniques (t.patch l (t.stampUpdate now c) r) = t.uniques (t.patch l c r) := by
  cases t <;> rfl

@[simp] theorem id_patch (t : Table) (l c r : t.Row) : t.id (t.patch l c r) = t.id r := by
  cases t <;> rfl

theorem changed_self {α : Type} [DecidableEq α] (l c : α) : changed l c l = c := by
  unfold changed
  split
  · assumption
  · rfl

theorem isSameRow_id {t : Table} {l r : t.Row} (h : t.isSameRow l r = true) : t.id r = t.id l := by
  cases t
  case customers => exact of_decide_eq_true (Bool.and_eq_true_iff.mp h).1
  all_goals exact of_decide_eq_true h

/-- An update gives a row no unique value but those the object gained. -/
theorem uniques_patch {t : Table} {l c r : t.Row} (h : t.isSameRow l r = true) {k : Key}
    (hk : k ∈ t.uniques (t.patch l c r)) :
    k ∈ t.uniques r ∨ k ∈ t.uniques (t.patch l c l) ∧ k ∉ t.uniques l := by
  cases t
  case customers =>
    -- the one unique column a service assigns is a customer's address
    have ht : r.tenantId = l.tenantId := of_decide_eq_true (Bool.and_eq_true_iff.mp h).2
    simp only [uniques, patch, changed_self, List.mem_singleton] at hk ⊢
    by_cases he : l.email = c.email
    · exact .inl (by rw [hk, changed, if_pos he])
    · rw [changed, if_neg he, ht] at hk
      exact .inr ⟨hk, fun hl => he (by rw [hk] at hl; exact (Key.customerEmail.inj hl).2.symm)⟩
  all_goals exact .inl hk

@[simp] theorem row_mem_keys {t : Table} {r : t.Row} {id : UUID} :
    Key.row t id ∈ t.keys r ↔ t.id r = id := by
  cases t <;> simp [keys, uniques, eq_comm]

theorem table_of_mem_keys {t : Table} {r : t.Row} {k : Key} (h : k ∈ t.keys r) : k.table = t := by
  rcases List.mem_cons.mp h with rfl | h
  · rfl
  · cases t <;> simp only [uniques, List.mem_cons, List.not_mem_nil, or_false] at h
    case notificationDeliveries => rcases h with rfl | rfl <;> rfl
    all_goals rw [h]; rfl

theorem keys_patch {t : Table} {l c r : t.Row} (h : t.isSameRow l r = true) {k : Key}
    (hk : k ∈ t.keys (t.patch l c r)) : k ∈ t.keys r ∨ k ∈ (Write.update t l c).keys := by
  rcases List.mem_cons.mp hk with rfl | hk
  · exact .inl (by simp [keys])
  · rcases uniques_patch h hk with hk | ⟨hk, hl⟩
    · exact .inl (List.mem_cons_of_mem _ hk)
    · exact .inr (List.mem_cons_of_mem _ (List.mem_filter.mpr ⟨hk, by simpa using hl⟩))

end Table

namespace Db

theorem present_eq_false {k : Key} {db : Db} :
    present k db = false ↔ ∀ r ∈ db k.table, k ∉ k.table.keys r := by
  simp [present, List.any_eq_false]

theorem present_eq_true {k : Key} {db : Db} :
    present k db = true ↔ ∃ r ∈ db k.table, k ∈ k.table.keys r := by
  simp [present, List.any_eq_true]

/-- A query that would find a row with the key finds none. -/
theorem absent_of_find? {k : Key} {p : k.table.Row → Bool} {db : Db}
    (h : (db k.table).find? p = none) (hp : ∀ r, k ∈ k.table.keys r → p r = true) :
    present k db = false :=
  present_eq_false.mpr fun r hr hk => List.find?_eq_none.mp h r hr (hp r hk)

theorem id_of_get {db : Db} {t : Table} {id : UUID} {row : t.Row} (h : db.get t id = some row) :
    t.id row = id := by
  unfold get at h
  have hp := List.find?_some h
  exact of_decide_eq_true hp

theorem present_row {t : Table} {id : UUID} {db : Db} :
    present (.row t id) db = false ↔ ∀ r ∈ db t, t.id r ≠ id := by
  simp [present, Key.table, List.any_eq_false]

end Db

namespace Write

theorem apply_other (w : Write) (db : Db) {t : Table} (h : t ≠ w.table) : w.apply db t = db t := by
  cases w <;> exact Function.update_of_ne h ..

@[simp] theorem apply_insert (t : Table) (row : t.Row) (db : Db) :
    (insert t row).apply db t = db t ++ [row] := Function.update_self ..

@[simp] theorem apply_update (t : Table) (l c : t.Row) (db : Db) :
    (update t l c).apply db t =
      (db t).map fun r => if t.isSameRow l r then t.patch l c r else r := Function.update_self ..

@[simp] theorem apply_delete (t : Table) (p : t.Row → Bool) (ids : List UUID) (db : Db) :
    (delete t p ids).apply db t = (db t).filter fun r => !(p r && t.id r ∈ ids) :=
  Function.update_self ..

@[simp] theorem apply_revokeAllActive (userId : UUID) (revokedAt updatedAt : Time)
    (ids : List UUID) (db : Db) :
    (revokeAllActive userId revokedAt updatedAt ids).apply db .refreshTokens =
      (db .refreshTokens).map fun r => if r.isActive userId && r.id ∈ ids then
        { r with revokedAt := some revokedAt, updatedAt } else r :=
  Function.update_self (β := fun t : Table => List t.Row) Table.refreshTokens _ db

@[simp] theorem table_stamp (now : Time) (w : Write) : (w.stamp now).table = w.table := by
  cases w <;> rfl

/-- Writes to other tables leave a table alone. -/
theorem foldl_other {ws : List Write} {t : Table} (h : ∀ w ∈ ws, t ≠ w.table) (db : Db) :
    ws.foldl (fun db w => w.apply db) db t = db t := by
  induction ws generalizing db with
  | nil => rfl
  | cons w ws ih =>
    rw [List.foldl_cons, ih fun w' hw' => h w' (List.mem_cons_of_mem w hw'),
      apply_other w db (h w List.mem_cons_self)]

theorem foldl_inserts {t : Table} (rows : List t.Row) (db : Db) :
    (rows.map (insert t)).foldl (fun db w => w.apply db) db t = db t ++ rows := by
  induction rows generalizing db with
  | nil => exact (List.append_nil _).symm
  | cons row rows ih =>
    rw [List.map_cons, List.foldl_cons, ih, apply_insert, List.append_assoc]
    rfl

@[simp] theorem keys_stamp (now : Time) (w : Write) : (w.stamp now).keys = w.keys := by
  cases w <;> simp [stamp, keys]

theorem apply_absent (w : Write) (k : Key) (db : Db) (hp : Db.present k db = false)
    (hk : k ∉ w.keys) : Db.present k (w.apply db) = false := by
  by_cases ht : k.table = w.table
  · rw [Db.present_eq_false] at hp ⊢
    intro r hr
    cases w with
    | insert t row =>
      obtain rfl : k.table = t := ht
      rw [apply_insert] at hr
      rcases List.mem_append.mp hr with hr | hr
      · exact hp r hr
      · rw [List.mem_singleton.mp hr]
        exact hk
    | update t l c =>
      obtain rfl : k.table = t := ht
      rw [apply_update] at hr
      obtain ⟨r₀, hr₀, rfl⟩ := List.mem_map.mp hr
      split
      · rename_i hs
        intro hmem
        exact (Table.keys_patch hs hmem).elim (hp r₀ hr₀) hk
      · exact hp r₀ hr₀
    | delete t p ids =>
      obtain rfl : k.table = t := ht
      rw [apply_delete] at hr
      exact hp r (List.mem_filter.mp hr).1
    | revokeAllActive userId revokedAt updatedAt ids =>
      have absent : ∀ t : Table, t = .refreshTokens → ∀ (_ : ∀ r ∈ db t, k ∉ t.keys r),
          ∀ r ∈ (revokeAllActive userId revokedAt updatedAt ids).apply db t, k ∉ t.keys r := by
        rintro _ rfl hp r hr
        rw [apply_revokeAllActive] at hr
        obtain ⟨r₀, hr₀, rfl⟩ := List.mem_map.mp hr
        -- the update touches no unique column
        split
        · exact hp r₀ hr₀
        · exact hp r₀ hr₀
      exact absent _ ht hp r hr
  · unfold Db.present at hp ⊢
    rwa [apply_other w db ht]

/-- A write leaves the rows alone whose keys it does not have. -/
theorem mem_apply {w : Write} {t : Table} {row : t.Row} (h : Key.row t (t.id row) ∉ w.keys)
    (db : Db) : row ∈ w.apply db t ↔ row ∈ db t := by
  by_cases ht : t = w.table
  · cases w with
    | insert t' x =>
      obtain rfl : t = t' := ht
      have hx : row ≠ x := fun hx => h (by rw [hx]; exact List.mem_cons_self)
      rw [apply_insert, List.mem_append, List.mem_singleton, or_iff_left hx]
    | update t' l c =>
      obtain rfl : t = t' := ht
      have hne : t.id row ≠ t.id l := fun he => h (by rw [he]; exact List.mem_cons_self)
      rw [apply_update, List.mem_map]
      constructor
      · rintro ⟨r, hr, rfl⟩
        split at hne
        · rename_i hs
          exact absurd ((Table.id_patch t l c r).trans (Table.isSameRow_id hs)) hne
        · rename_i hs
          rwa [if_neg hs]
      · exact fun hr => ⟨row, hr, if_neg fun hs => hne (Table.isSameRow_id hs)⟩
    | delete t' p ids =>
      obtain rfl : t = t' := ht
      have hid : t.id row ∉ ids := fun hid => h (List.mem_map_of_mem hid)
      simp [apply_delete, hid]
    | revokeAllActive userId revokedAt updatedAt ids =>
      obtain rfl : t = .refreshTokens := ht
      have hid : row.id ∉ ids := fun hid => h (List.mem_map_of_mem hid)
      rw [apply_revokeAllActive, List.mem_map]
      constructor
      · rintro ⟨r, hr, rfl⟩
        split at hid
        · rename_i hs
          exact absurd (of_decide_eq_true (Bool.and_eq_true_iff.mp hs).2) hid
        · rename_i hs
          rwa [if_neg hs]
      · exact fun hr => ⟨row, hr, if_neg fun hs =>
          hid (of_decide_eq_true (Bool.and_eq_true_iff.mp hs).2)⟩
  · rw [apply_other w db ht]

theorem mem_foldl {ws : List Write} {t : Table} {row : t.Row}
    (h : ∀ w ∈ ws, Key.row t (t.id row) ∉ w.keys) (db : Db) :
    row ∈ ws.foldl (fun db w => w.apply db) db t ↔ row ∈ db t := by
  induction ws generalizing db with
  | nil => rfl
  | cons w ws ih =>
    rw [List.foldl_cons, ih fun w' hw' => h w' (List.mem_cons_of_mem w hw'),
      mem_apply (h w List.mem_cons_self)]

/-- The rows an update leaves: the one it is for, patched, and the others. -/
theorem mem_apply_update {t : Table} {l c row r : t.Row} {db : Db}
    (hids : ((db t).map t.id).Nodup) (hrow : row ∈ db t) (hl : t.isSameRow l row = true) :
    r ∈ (update t l c).apply db t ↔ r = t.patch l c row ∨ r ∈ db t ∧ t.id r ≠ t.id row := by
  have hunique : ∀ x ∈ db t, t.id x = t.id row → x = row := fun x hx hid =>
    List.inj_on_of_nodup_map hids hx hrow hid
  rw [apply_update, List.mem_map]
  constructor
  · rintro ⟨x, hx, rfl⟩
    by_cases hid : t.id x = t.id row
    · obtain rfl := hunique x hx hid
      exact .inl (if_pos hl)
    · have hs : ¬t.isSameRow l x = true := fun hs =>
        hid ((Table.isSameRow_id hs).trans (Table.isSameRow_id hl).symm)
      rw [if_neg hs]
      exact .inr ⟨hx, hid⟩
  · rintro (rfl | ⟨hr, hid⟩)
    · exact ⟨row, hrow, if_pos hl⟩
    · exact ⟨r, hr, if_neg fun hs =>
        hid ((Table.isSameRow_id hs).trans (Table.isSameRow_id hl).symm)⟩

/-- An update keeps what a patch keeps. -/
theorem map_apply_update {α : Type} {t : Table} {l c : t.Row} (db : Db) (f : t.Row → α)
    (hf : ∀ r, f (t.patch l c r) = f r) : ((update t l c).apply db t).map f = (db t).map f := by
  rw [apply_update, List.map_map]
  refine List.map_congr_left fun r _ => ?_
  simp only [Function.comp_apply]
  split
  · exact hf r
  · rfl

end Write

/-- The row an update is for, patched. -/
theorem Db.get_apply_update {t : Table} {id : UUID} {l c row : t.Row} {db : Db}
    (h : db.get t id = some row) (hl : t.isSameRow l row = true) :
    ((Write.update t l c).apply db).get t id = some (t.patch l c row) := by
  have hid : (fun r => decide (t.id r = id)) ∘
      (fun r => if t.isSameRow l r then t.patch l c r else r) =
      fun r => decide (t.id r = id) := funext fun r => by
    rw [Function.comp_apply]
    split
    · rw [Table.id_patch]
    · rfl
  rw [Db.get] at h
  rw [Db.get, Write.apply_update, List.find?_map, hid, h, Option.map_some, if_pos hl]

/-- The ticketing database as a store. -/
def schema : Lib.Schema Db Write Key where
  apply := Write.apply
  keys := Write.keys
  fresh := Write.fresh
  present := Db.present
  stamp := Write.stamp
  keys_stamp := Write.keys_stamp
  apply_absent := Write.apply_absent

end Ticketing
