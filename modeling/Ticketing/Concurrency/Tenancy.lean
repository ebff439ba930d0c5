import Ticketing.Concurrency.Delivery
import Ticketing.Concurrency.History
import Ticketing.Lib.Lockstep
import Ticketing.Services.Rbac
import Ticketing.Services.TicketCollaboration
import Mathlib.Data.Fintype.Basic

/-!
# What belongs to a tenant

* A `Tenancy` is a tenant and the ids that no row of another tenant has. `Divides` says that the
  columns of the rows agree with it: a row of the tenant names the tenant, and a row that names
  another row goes with that row (`Fits`). Users and permissions are everybody's.
* Two worlds are `Coupled` when the tenant cannot tell them apart: they agree on its rows, on the
  rows that are everybody's, on its cache entries and on its files.
* `Confined`: the operations that the tenant's calls perform. A query may look anywhere; what the
  tenant does with what it finds is for the calls to say.

Results:
* `apply_alike`, `divides_apply`: a write of the tenant's own keeps both.
* `opStep_coupled`: a confined operation answers alike in coupled worlds, and leaves them coupled.
* `opStep_untouched`: it changes nothing of anybody else.

Left out: the mail server and the broker's queue, which are the same in both worlds; the tenants
share them.
-/

namespace Ticketing

open Lib (Prog Store System Session Failure Fault)

instance : Fintype Table where
  elems := {.tenants, .users, .refreshTokens, .memberships, .permissions, .roles, .rolePermissions,
    .membershipRoles, .customers, .tickets, .ticketEvents, .ticketCreationKeys, .ticketComments,
    .ticketAttachments, .backgroundJobs, .outboxMessages, .notificationDeliveries}
  complete t := by cases t <;> decide

structure Tenancy where
  tenant : UUID
  /-- No row of another tenant has the id. -/
  own : Table → UUID → Bool

namespace Tenancy

variable (D : Tenancy)

def mine (t : Table) (r : t.Row) : Bool := D.own t (t.id r)

/-- The key is one of the tenant's attachments. -/
def ownsObject (key : String) : Bool := (D.tenant.hex ++ "/").toList.isPrefixOf key.toList

/-- The key is one of the tenant's exports. -/
def ownsExport (key : String) : Bool := (D.tenant.str ++ "/").toList.isPrefixOf key.toList

/-- The key is one of the tenant's cache entries. -/
def OwnsEntry (key : String) : Prop := ∃ m, key = permissionSnapshotKey D.tenant m

/-- What the columns of a row say about whose it is. Users and permissions are everybody's, a
refresh token is its user's alone. -/
def Fits : (t : Table) → t.Row → Prop
  | .tenants, r => D.mine .tenants r ↔ r.id = D.tenant
  | .users, r => D.mine .users r
  | .permissions, r => D.mine .permissions r
  | .refreshTokens, r => ¬ D.mine .refreshTokens r
  | .memberships, r => D.mine .memberships r ↔ r.tenantId = D.tenant
  | .roles, r => D.mine .roles r ↔ r.tenantId = D.tenant
  | .rolePermissions, r => D.mine .rolePermissions r ↔ D.own .roles r.roleId
  | .membershipRoles, r => D.mine .membershipRoles r ↔ D.own .memberships r.membershipId
  | .customers, r => D.mine .customers r ↔ r.tenantId = D.tenant
  | .tickets, r => D.mine .tickets r ↔ r.tenantId = D.tenant
  | .ticketEvents, r => D.mine .ticketEvents r ↔ r.tenantId = D.tenant
  | .ticketCreationKeys, r => D.mine .ticketCreationKeys r ↔ r.tenantId = D.tenant
  | .ticketComments, r => D.mine .ticketComments r ↔ r.tenantId = D.tenant
  | .ticketAttachments, r => (D.mine .ticketAttachments r ↔ r.tenantId = D.tenant) ∧
      (D.mine .ticketAttachments r ↔ D.ownsObject r.objectKey)
  | .backgroundJobs, r => (D.mine .backgroundJobs r ↔ r.tenantId = D.tenant) ∧
      ∀ result ∈ r.result, ∀ key, JsonObject.get result "object_key" = .str key →
        key = BackgroundJobExecutor.objectKey r
  | .outboxMessages, r => (D.mine .outboxMessages r ↔ r.tenantId = D.tenant) ∧
      (D.mine .outboxMessages r ↔ D.own .backgroundJobs r.jobId)
  | .notificationDeliveries, r =>
      (D.mine .notificationDeliveries r ↔ D.own .backgroundJobs r.jobId) ∧
        r.messageId = BackgroundJobExecutor.messageId r.jobId

def Divides (db : Db) : Prop := ∀ t, ∀ r ∈ db t, D.Fits t r

/-- The databases agree on the tenant's rows, and on those that are nobody's. -/
structure Alike (db db' : Db) : Prop where
  rows : ∀ t, (db t).filter (D.mine t) = (db' t).filter (D.mine t)
  left : D.Divides db
  right : D.Divides db'

variable {D}

/-! ## Queries -/

section Queries

variable {db db' : Db} {t : Table} {p : t.Row → Bool}

theorem filter_within {α : Type} {p q : α → Bool} {l : List α}
    (h : ∀ x ∈ l, p x = true → q x = true) : l.filter p = (l.filter q).filter p := by
  rw [List.filter_filter]
  refine List.filter_congr fun x hx => ?_
  cases hp : p x with
  | false => rfl
  | true => rw [h x hx hp]; rfl

namespace Alike

theorem symm (h : D.Alike db db') : D.Alike db' db :=
  ⟨fun t => (h.rows t).symm, h.right, h.left⟩

theorem trans {db'' : Db} (h : D.Alike db db') (h' : D.Alike db' db'') : D.Alike db db'' :=
  ⟨fun t => (h.rows t).trans (h'.rows t), h.left, h'.right⟩

/-- A query for rows of the tenant. -/
theorem filter (h : D.Alike db db') (hp : ∀ r, D.Fits t r → p r = true → D.mine t r = true) :
    (db t).filter p = (db' t).filter p := by
  rw [filter_within fun r hr => hp r (h.left t r hr), h.rows,
    ← filter_within fun r hr => hp r (h.right t r hr)]

theorem find? (h : D.Alike db db') (hp : ∀ r, D.Fits t r → p r = true → D.mine t r = true) :
    (db t).find? p = (db' t).find? p := by
  rw [← List.head?_filter, h.filter hp, List.head?_filter]

theorem any (h : D.Alike db db') (hp : ∀ r, D.Fits t r → p r = true → D.mine t r = true) :
    (db t).any p = (db' t).any p := by
  have hany (l : List t.Row) : l.any p = (l.filter p).any fun _ => true := by
    rw [List.any_filter]
    simp
  rw [hany, h.filter hp, ← hany]

end Alike

/-- What a query finds fits. -/
theorem Divides.find? (h : D.Divides db) {r : t.Row} (hr : (db t).find? p = some r) :
    D.Fits t r ∧ p r = true :=
  ⟨h t r (List.mem_of_find?_eq_some hr), List.find?_some hr⟩

end Queries

/-! ## Writes -/

/-- A write to rows of the tenant, or of a new row of it. -/
def Owns (D : Tenancy) : Write → Prop
  | .insert t row => t ≠ .tenants ∧ D.mine t row ∧ D.Fits t row
  | .update t loaded current => t ≠ .tenants ∧ D.mine t loaded ∧ D.Fits t loaded ∧
      t.id current = t.id loaded ∧ D.Fits t current
  | .delete t _ ids => ∀ id ∈ ids, D.own t id
  | .revokeAllActive .. => False

section Writes

variable {db db' : Db} {w : Write}

theorem mine_patch (t : Table) (l c r : t.Row) : D.mine t (t.patch l c r) = D.mine t r := by
  rw [mine, Table.id_patch, mine]

/-- A unique value of a row of the tenant is no value of another's. -/
theorem mine_of_key {t : Table} {r r' : t.Row} {k : Key} (ht : t ≠ .tenants) (hr : D.Fits t r)
    (hmine : D.mine t r) (hk : k ∈ t.keys r) (hr' : D.Fits t r') (hk' : k ∈ t.keys r') :
    D.mine t r' := by
  rcases List.mem_cons.mp hk with rfl | hk
  · rw [mine, Table.row_mem_keys.mp hk']
    exact hmine
  rcases List.mem_cons.mp hk' with rfl | hk'
  · cases t <;> simp [Table.uniques] at hk
  cases t <;> simp only [Table.uniques, List.mem_cons, List.not_mem_nil, or_false] at hk hk'
  case tenants => exact absurd rfl ht
  case users => exact hr'
  case permissions => exact hr'
  case refreshTokens => exact absurd hmine hr
  case memberships =>
    obtain ⟨htenant, -⟩ := Key.membershipUser.inj (hk.symm.trans hk')
    exact hr'.mpr (htenant ▸ hr.mp hmine)
  case roles =>
    obtain ⟨htenant, -⟩ := Key.roleName.inj (hk.symm.trans hk')
    exact hr'.mpr (htenant ▸ hr.mp hmine)
  case rolePermissions =>
    obtain ⟨hrole, -⟩ := Key.rolePermissionPair.inj (hk.symm.trans hk')
    exact hr'.mpr (hrole ▸ hr.mp hmine)
  case membershipRoles =>
    obtain ⟨hmember, -⟩ := Key.membershipRolePair.inj (hk.symm.trans hk')
    exact hr'.mpr (hmember ▸ hr.mp hmine)
  case customers =>
    obtain ⟨htenant, -⟩ := Key.customerEmail.inj (hk.symm.trans hk')
    exact hr'.mpr (htenant ▸ hr.mp hmine)
  case ticketCreationKeys =>
    obtain ⟨htenant, -⟩ := Key.ticketCreationKey.inj (hk.symm.trans hk')
    exact hr'.mpr (htenant ▸ hr.mp hmine)
  case ticketAttachments =>
    have hkey := Key.attachmentObjectKey.inj (hk.symm.trans hk')
    exact hr'.2.mpr (hkey ▸ hr.2.mp hmine)
  case backgroundJobs =>
    obtain ⟨htenant, -⟩ := Key.backgroundJobKey.inj (hk.symm.trans hk')
    exact hr'.1.mpr (htenant ▸ hr.1.mp hmine)
  case outboxMessages =>
    have hjob := Key.outboxJob.inj (hk.symm.trans hk')
    exact hr'.2.mpr (hjob ▸ hr.2.mp hmine)
  case notificationDeliveries =>
    have hjob : r.jobId = r'.jobId := by
      rcases hk with rfl | rfl <;> rcases hk' with hk' | hk'
      · exact Key.deliveryJob.inj hk'
      · cases hk'
      · cases hk'
      · have hmessage := Key.deliveryMessage.inj hk'
        rw [hr.2, hr'.2] at hmessage
        exact Send.messageId_injective hmessage
    exact hr'.1.mpr (hjob ▸ hr.1.mp hmine)

/-- A row of the tenant keeps fitting when a write of the tenant updates it. -/
theorem fits_patch {t : Table} {l c r : t.Row} (hw : D.Owns (.update t l c)) (hr : D.Fits t r)
    (hsame : t.isSameRow l r = true) : D.Fits t (t.patch l c r) := by
  obtain ⟨-, hmine, -, hid, hc⟩ := hw
  have hrl := Table.isSameRow_id hsame
  have hmr : D.mine t r := by rw [mine, hrl]; exact hmine
  have hmc : D.mine t c := by rw [mine, hid]; exact hmine
  cases t
  case backgroundJobs =>
    refine ⟨hr.1, fun result hresult key hkey => ?_⟩
    have hobject : BackgroundJobExecutor.objectKey c = BackgroundJobExecutor.objectKey r := by
      rw [BackgroundJobExecutor.objectKey, BackgroundJobExecutor.objectKey, hr.1.mp hmr,
        hc.1.mp hmc, show c.id = r.id from hid.trans hrl.symm]
    simp only [Table.patch, Table.changed] at hresult
    split at hresult
    · exact hr.2 result hresult key hkey
    · exact (hc.2 result hresult key hkey).trans hobject
  all_goals exact hr

theorem present_alike (h : D.Alike db db') (hw : D.Owns w) {k : Key} (hk : k ∈ w.fresh) :
    Db.present k db = Db.present k db' := by
  have whose {t : Table} {r : t.Row} (ht : t ≠ .tenants) (hr : D.Fits t r) (hmine : D.mine t r)
      (hk : k ∈ t.keys r) : Db.present k db = Db.present k db' := by
    obtain rfl := Table.table_of_mem_keys hk
    exact h.any fun r' hr' hk' => mine_of_key ht hr hmine hk hr' (of_decide_eq_true hk')
  cases w with
  | insert t row => exact whose hw.1 hw.2.2 hw.2.1 hk
  | update t l c =>
    have hself : t.isSameRow l l = true := by cases t <;> simp [Table.isSameRow]
    refine whose hw.1 (fits_patch hw hw.2.2.1 hself) ?_ (.tail _ (List.mem_of_mem_filter hk))
    rw [mine_patch]
    exact hw.2.1
  | delete t p ids => cases hk
  | revokeAllActive => exact hw.elim

theorem divides_apply (h : D.Divides db) (hw : D.Owns w) : D.Divides (w.apply db) := by
  intro t' r hr
  by_cases ht' : t' = w.table
  · cases w with
    | insert t row =>
      obtain rfl : t' = t := ht'
      rw [Write.apply_insert] at hr
      rcases List.mem_append.mp hr with hr | hr
      · exact h t' r hr
      · rw [List.mem_singleton.mp hr]
        exact hw.2.2
    | update t l c =>
      obtain rfl : t' = t := ht'
      rw [Write.apply_update] at hr
      obtain ⟨r₀, hr₀, rfl⟩ := List.mem_map.mp hr
      split
      · rename_i hsame
        exact fits_patch hw (h t' r₀ hr₀) hsame
      · exact h t' r₀ hr₀
    | delete t p ids =>
      obtain rfl : t' = t := ht'
      rw [Write.apply_delete] at hr
      exact h t' r (List.mem_of_mem_filter hr)
    | revokeAllActive => exact hw.elim
  · rw [Write.apply_other w db ht'] at hr
    exact h t' r hr

/-- What an update does to the rows it is for keeps their ids. -/
theorem mine_updated (t : Table) (l c r : t.Row) :
    D.mine t (if t.isSameRow l r then t.patch l c r else r) = D.mine t r := by
  split
  · rw [mine_patch]
  · rfl

theorem apply_alike (h : D.Alike db db') (hw : D.Owns w) :
    D.Alike (w.apply db) (w.apply db') := by
  refine ⟨fun t' => ?_, divides_apply h.left hw, divides_apply h.right hw⟩
  by_cases ht' : t' = w.table
  · cases w with
    | insert t row =>
      obtain rfl : t' = t := ht'
      rw [Write.apply_insert, Write.apply_insert, List.filter_append, List.filter_append, h.rows]
    | update t l c =>
      obtain rfl : t' = t := ht'
      rw [Write.apply_update, Write.apply_update, List.filter_map, List.filter_map]
      have hmine : (D.mine t' ∘ fun r => if t'.isSameRow l r then t'.patch l c r else r) =
          D.mine t' := funext fun r => mine_updated t' l c r
      rw [hmine, h.rows]
    | delete t p ids =>
      obtain rfl : t' = t := ht'
      rw [Write.apply_delete, Write.apply_delete, List.filter_comm, h.rows, List.filter_comm]
    | revokeAllActive => exact hw.elim
  · rw [Write.apply_other w db ht', Write.apply_other w db' ht', h.rows]

/-- A write of the tenant changes no row of anybody else. -/
theorem apply_theirs (db : Db) (hw : D.Owns w) (t' : Table) :
    (w.apply db t').filter (!D.mine t' ·) = (db t').filter (!D.mine t' ·) := by
  by_cases ht' : t' = w.table
  · cases w with
    | insert t row =>
      obtain rfl : t' = t := ht'
      rw [Write.apply_insert, List.filter_append, List.filter_singleton, hw.2.1]
      exact List.append_nil _
    | update t l c =>
      obtain rfl : t' = t := ht'
      rw [Write.apply_update, List.filter_map]
      have hmine : ((!D.mine t' ·) ∘ fun r => if t'.isSameRow l r then t'.patch l c r else r) =
          (!D.mine t' ·) := funext fun r => congrArg not (mine_updated t' l c r)
      rw [hmine]
      refine (List.map_congr_left fun r hr => ?_).trans (List.map_id _)
      rw [if_neg]
      · rfl
      · intro hsame
        have hnot := (List.mem_filter.mp hr).2
        rw [mine, Table.isSameRow_id hsame, show D.own t' (t'.id l) = true from hw.2.1] at hnot
        cases hnot
    | delete t p ids =>
      obtain rfl : t' = t := ht'
      rw [Write.apply_delete, List.filter_comm, List.filter_eq_self]
      intro r hr
      have hnot := (List.mem_filter.mp hr).2
      by_cases hid : t'.id r ∈ ids
      · rw [mine, hw _ hid] at hnot
        cases hnot
      · simp [hid]
    | revokeAllActive => exact hw.elim
  · rw [Write.apply_other w db ht']

theorem foldl_alike {ws : List Write} (h : D.Alike db db') (hws : ∀ w ∈ ws, D.Owns w) :
    D.Alike (ws.foldl (fun db w => w.apply db) db) (ws.foldl (fun db w => w.apply db) db') := by
  induction ws generalizing db db' with
  | nil => exact h
  | cons w ws ih =>
    rw [List.forall_mem_cons] at hws
    exact ih (apply_alike h hws.1) hws.2

theorem foldl_theirs {ws : List Write} (db : Db) (hws : ∀ w ∈ ws, D.Owns w) (t : Table) :
    (ws.foldl (fun db w => w.apply db) db t).filter (!D.mine t ·) =
      (db t).filter (!D.mine t ·) := by
  induction ws generalizing db with
  | nil => rfl
  | cons w ws ih =>
    rw [List.forall_mem_cons] at hws
    exact (ih _ hws.2).trans (apply_theirs db hws.1 t)

theorem owns_stamp (hw : D.Owns w) (τ : Time) : D.Owns (w.stamp τ) := by
  cases w with
  | insert t row => cases t <;> exact hw
  | update t l c => cases t <;> exact hw
  | delete t p ids => exact hw
  | revokeAllActive => exact hw.elim

end Writes

/-! ## Statements -/

/-- The stores differ in the rows of other tenants, and what the sessions have written but not
committed is the tenant's. -/
structure Stored (D : Tenancy) (s s' : Store Db Write Key) : Prop where
  rows : D.Alike s.db s'.db
  sessions : s'.sessions = s.sessions
  owner : s'.owner = s.owner
  wal : s'.wal = s.wal
  pending : ∀ i, ∀ w ∈ (s.sessions i).writes, D.Owns w

/-- What two statements answer and leave. -/
def Answered (D : Tenancy) {β : Type} (A : Except Failure β → Except Failure β → Prop) :
    Option (Except Failure β × Store Db Write Key) →
      Option (Except Failure β × Store Db Write Key) → Prop :=
  Option.Rel fun x y => A x.1 y.1 ∧ D.Stored x.2 y.2

namespace Stored

variable {s s' : Store Db Write Key} {i : Nat} {now : Time} {fault : Option Fault}

theorem symm (h : D.Stored s s') : D.Stored s' s :=
  ⟨h.rows.symm, h.sessions.symm, h.owner.symm, h.wal.symm, by
    rw [h.sessions]
    exact h.pending⟩

theorem trans {s'' : Store Db Write Key} (h : D.Stored s s') (h' : D.Stored s' s'') :
    D.Stored s s'' :=
  ⟨h.rows.trans h'.rows, h'.sessions.trans h.sessions, h'.owner.trans h.owner,
    h'.wal.trans h.wal, h.pending⟩

theorem setSession (h : D.Stored s s') (i : Nat) (x : Session Write)
    (hx : ∀ w ∈ x.writes, D.Owns w) : D.Stored (s.setSession i x) (s'.setSession i x) := by
  refine ⟨h.rows, ?_, h.owner, h.wal, fun j w hw => ?_⟩
  · simp only [Store.setSession, h.sessions]
  · by_cases hj : j = i
    · subst hj
      rw [Store.setSession_self] at hw
      exact hx w hw
    · rw [Store.setSession_other s x hj] at hw
      exact h.pending j w hw

theorem release (h : D.Stored s s') (i : Nat) : D.Stored (s.release i) (s'.release i) :=
  ⟨h.rows, h.sessions, by simp only [Store.release, h.owner], h.wal, h.pending⟩

theorem acquire (h : D.Stored s s') (i : Nat) (ks : List Key) :
    D.Stored (s.acquire i ks) (s'.acquire i ks) :=
  ⟨h.rows, h.sessions, by simp only [Store.acquire, h.owner], h.wal, h.pending⟩

theorem begin (h : D.Stored s s') (i : Nat) (now : Time) :
    D.Stored (s.begin i now) (s'.begin i now) := by
  simp only [Store.begin, h.sessions, h.wal]
  exact h.setSession i _ (h.pending i)

theorem poison (h : D.Stored s s') (i : Nat) : D.Stored (s.poison i) (s'.poison i) := by
  simp only [Store.poison, h.sessions]
  exact h.setSession i _ (h.pending i)

theorem abort (h : D.Stored s s') (i : Nat) : D.Stored (s.abort i) (s'.abort i) :=
  (h.setSession i _ (List.forall_mem_nil _)).release i

theorem rollback (h : D.Stored s s') (i : Nat) : D.Stored (s.rollback i) (s'.rollback i) :=
  (h.setSession i _ (List.forall_mem_nil _)).release i

theorem free (h : D.Stored s s') : s'.free = s.free := by
  funext i k
  rw [Store.free, Store.free, h.owner]

theorem view (h : D.Stored s s') (i : Nat) :
    D.Alike (s.view schema i) (s'.view schema i) := by
  rw [Store.view, Store.view, h.sessions]
  exact foldl_alike h.rows (h.pending i)

theorem commitWrites (h : D.Stored s s') (i : Nat) :
    D.Stored (s.commitWrites schema i) (s'.commitWrites schema i) := by
  have hview : D.Stored
      { s with db := s.view schema i, wal := s.wal ++ [(i, (s.sessions i).writes)] }
      { s' with db := s'.view schema i, wal := s'.wal ++ [(i, (s'.sessions i).writes)] } :=
    ⟨h.view i, h.sessions, h.owner, by rw [h.wal, h.sessions], h.pending⟩
  exact (hview.setSession i {} (List.forall_mem_nil _)).release i

theorem statement {β : Type} {A : Except Failure β → Except Failure β → Prop}
    {onFault : Store Db Write Key → Store Db Write Key}
    {run run' : Store Db Write Key → Option (Except Failure β × Store Db Write Key)}
    (h : D.Stored s s') (hA : ∀ e, A (.error e) (.error e))
    (honFault : D.Stored (onFault s) (onFault s'))
    (hrun : D.Answered A (run (s.begin i now)) (run' (s'.begin i now))) :
    D.Answered A (s.statement i now fault onFault run)
      (s'.statement i now fault onFault run') := by
  unfold Store.statement
  rw [h.sessions]
  split
  · exact .some ⟨hA _, h⟩
  rcases fault with _ | f
  · exact hrun
  cases f with
  | database => exact .some ⟨hA _, honFault⟩
  | connection => exact .some ⟨hA _, h⟩
  | disconnect => exact .some ⟨hA _, h.abort i⟩
  | lostReply => exact .some ⟨hA _, h.abort i⟩
  | cancelled => exact .some ⟨hA _, honFault⟩
  | cancelledAfter =>
    dsimp only
    generalize run (s.begin i now) = x at hrun ⊢
    generalize run' (s'.begin i now) = y at hrun ⊢
    cases hrun with
    | none => exact .none
    | some hr => exact .some ⟨hA _, hr.2⟩

/-- What a query answers in the two stores. -/
def Found (D : Tenancy) {β : Type} (q : Db → β) (r r' : Except Failure β) : Prop :=
  (∃ e, r = .error e ∧ r' = .error e) ∨ ∃ db db', D.Alike db db' ∧ r = .ok (q db) ∧ r' = .ok (q db')

theorem select {β : Type} (h : D.Stored s s') (q : Db → β) :
    D.Answered (Found D q) (s.select schema i now fault q) (s'.select schema i now fault q) :=
  h.statement (fun e => .inl ⟨e, rfl, rfl⟩) (h.poison i)
    (.some ⟨.inr ⟨_, _, (h.begin i now).view i, rfl, rfl⟩, h.begin i now⟩)

theorem lockRow {t : Table} (h : D.Stored s s') {q : Db → Option t.Row}
    (hq : ∀ db db', D.Alike db db' → q db = q db') (key : t.Row → Key) :
    D.Answered (fun r r' => r = r' ∧ ∀ a, r = .ok a → ∃ db, D.Divides db ∧ a = q db)
      (s.lockRow schema i now fault q key) (s'.lockRow schema i now fault q key) := by
  have herror (e : Failure) : (Except.error e : Except Failure (Option t.Row)) = .error e ∧
      ∀ a, (Except.error e : Except Failure (Option t.Row)) = .ok a →
        ∃ db, D.Divides db ∧ a = q db := ⟨rfl, fun a ha => by cases ha⟩
  have hbegun := h.begin i now
  refine h.statement herror (h.poison i) ?_
  have hfound := hq _ _ (hbegun.view i)
  rw [← hfound]
  have hok (a : Option t.Row) (ha : q ((s.begin i now).view schema i) = a) :
      ∀ b, (Except.ok a : Except Failure (Option t.Row)) = .ok b →
        ∃ db, D.Divides db ∧ b = q db := fun b hb => by
    cases hb
    exact ⟨_, (hbegun.view i).left, ha.symm⟩
  rcases hrow : q ((s.begin i now).view schema i) with _ | row
  · exact .some ⟨⟨rfl, hok _ hrow⟩, hbegun⟩
  · dsimp only
    rw [hbegun.free]
    split
    · exact .some ⟨⟨rfl, hok _ hrow⟩, hbegun.acquire i _⟩
    · exact .none

theorem write (h : D.Stored s s') {w : Write} (hw : D.Owns w) :
    D.Answered (· = ·) (s.write schema i now fault w) (s'.write schema i now fault w) := by
  have hbegun := h.begin i now
  refine h.statement (fun _ => rfl) (h.abort i) ?_
  have hfresh : (schema.fresh w).any (fun k => schema.present k ((s'.begin i now).view schema i)) =
      (schema.fresh w).any fun k => schema.present k ((s.begin i now).view schema i) := by
    refine Bool.eq_iff_iff.mpr ?_
    rw [List.any_eq_true, List.any_eq_true]
    refine exists_congr fun k => and_congr_right fun hk => ?_
    rw [show schema.present k _ = schema.present k _ from
      present_alike (hbegun.view i) hw hk]
  rw [hbegun.free, hfresh]
  split
  · split
    · exact .some ⟨rfl, hbegun.abort i⟩
    · refine .some ⟨rfl, ?_⟩
      rw [hbegun.sessions]
      refine (hbegun.acquire i _).setSession i _ fun w' hw' => ?_
      rcases List.mem_append.mp hw' with hw' | hw'
      · exact hbegun.pending i w' hw'
      · rw [List.mem_singleton.mp hw']
        exact owns_stamp hw _
  · exact .none

theorem commit (h : D.Stored s s') :
    D.Answered (· = ·) (s.commit schema i now fault) (s'.commit schema i now fault) := by
  unfold Store.commit
  rw [h.sessions]
  split
  · exact .some ⟨rfl, (h.commitWrites i).poison i⟩
  · exact h.statement (fun _ => rfl) (h.abort i) (.some ⟨rfl, (h.begin i now).commitWrites i⟩)

end Stored

/-! ## Operations -/

/-- The tenant cannot tell the worlds apart. -/
structure Coupled (D : Tenancy) (W W' : World) : Prop where
  store : D.Stored W.store W'.store
  clock : W'.clock = W.clock
  cache : ∀ key, D.OwnsEntry key → W'.cache key = W.cache key
  objects : W'.objects.filter (D.ownsObject ·.key) = W.objects.filter (D.ownsObject ·.key)
  exports : ∀ key, D.ownsExport key = true → W'.exports key = W.exports key
  sends : W'.sends = W.sends
  queue : W'.queue = W.queue
  bodies : W'.bodies = W.bodies

/-- Nothing of anybody else has changed. -/
structure Untouched (D : Tenancy) (W W' : World) : Prop where
  rows : ∀ t, (W'.store.db t).filter (!D.mine t ·) = (W.store.db t).filter (!D.mine t ·)
  cache : ∀ key, ¬ D.OwnsEntry key → W'.cache key = W.cache key
  objects : W'.objects.filter (!D.ownsObject ·.key) = W.objects.filter (!D.ownsObject ·.key)
  exports : ∀ key, D.ownsExport key = false → W'.exports key = W.exports key

/-- The operations the tenant's calls perform. -/
def Confined (D : Tenancy) : Op → Prop
  | .select _ => True
  | .selectForUpdate _ q => ∀ db db', D.Alike db db' → q db = q db'
  | .selectSkipLocked .. | .publish _ => False
  | .write w => D.Owns w
  | .cacheGet key | .cacheSet key .. | .cacheDelete key => D.OwnsEntry key
  | .createObject key | .appendObject key _ | .unlinkObject key | .isObject key
  | .readObject key => D.ownsObject key
  | .replaceExport key _ | .isExport key => D.ownsExport key
  | _ => True

/-- What they are answered in coupled worlds. -/
def Answers (D : Tenancy) : (o : Op) → Except Exn o.Res → Except Exn o.Res → Prop
  | .select q, r, r' => (∃ e, r = .error e ∧ r' = .error e) ∨
      ∃ db db', D.Alike db db' ∧ r = .ok (q db) ∧ r' = .ok (q db')
  | .selectForUpdate _ q, r, r' => r = r' ∧ ∀ a, r = .ok a → ∃ db, D.Divides db ∧ a = q db
  | .uuid4, r, r' => r = r' ∧ ∀ id, r = .ok id → ∀ t, D.own t id = true
  | _, r, r' => r = r'

/-- An id that is drawn is no id of a row of another tenant. -/
def Draws (D : Tenancy) : Op → Choice → Prop
  | .uuid4, c => ∀ t, D.own t c.uuid = true
  | _, _ => True

instance : (o : Op) → (c : Choice) → Decidable (D.Draws o c)
  | .uuid4, c => inferInstanceAs (Decidable (∀ t, D.own t c.uuid = true))
  | .select _, _ | .selectForUpdate .., _ | .selectSkipLocked .., _ | .write _, _ | .commit, _
  | .rollback, _ | .now, _ | .randint _, _ | .cacheGet _, _ | .cacheSet .., _ | .cacheDelete _, _
  | .createObject _, _ | .appendObject .., _ | .closeObject .., _ | .unlinkObject _, _
  | .isObject _, _ | .readObject _, _ | .replaceExport .., _ | .isExport _, _ | .startSend _, _
  | .awaitSend, _ | .publish _, _ => inferInstanceAs (Decidable True)

namespace Coupled

variable {W W' V V' : World} {fault : Option Fault}

theorem symm (h : D.Coupled W W') : D.Coupled W' W :=
  ⟨h.store.symm, h.clock.symm, fun k hk => (h.cache k hk).symm, h.objects.symm,
    fun k hk => (h.exports k hk).symm, h.sends.symm, h.queue.symm, h.bodies.symm⟩

theorem trans (h : D.Coupled W W') (h' : D.Coupled W' V) : D.Coupled W V :=
  ⟨h.store.trans h'.store, h'.clock.trans h.clock,
    fun k hk => (h'.cache k hk).trans (h.cache k hk), h'.objects.trans h.objects,
    fun k hk => (h'.exports k hk).trans (h.exports k hk), h'.sends.trans h.sends,
    h'.queue.trans h.queue, h'.bodies.trans h.bodies⟩

theorem setStore (h : D.Coupled W W') {s s' : Store Db Write Key} (hs : D.Stored s s') :
    D.Coupled (W.setStore s) (W'.setStore s') :=
  ⟨hs, h.clock, h.cache, h.objects, h.exports, h.sends, h.queue, h.bodies⟩

/-- Two outcomes of an operation. -/
def Answered (D : Tenancy) {β : Type} (A : Except Exn β → Except Exn β → Prop) :
    Option (Except Exn β × World) → Option (Except Exn β × World) → Prop :=
  Option.Rel fun x y => A x.1 y.1 ∧ D.Coupled x.2 y.2

theorem ofStore {β : Type} {A : Except Failure β → Except Failure β → Prop}
    {B : Except Exn β → Except Exn β → Prop}
    {x y : Option (Except Failure β × Store Db Write Key)} (h : D.Coupled W W')
    (hx : D.Answered A x y)
    (hA : ∀ r r', A r r' → B (r.mapError Exn.ofFailure) (r'.mapError Exn.ofFailure)) :
    Answered D B (W.ofStore x) (W'.ofStore y) := by
  cases hx with
  | none => exact .none
  | some hr => exact .some ⟨hA _ _ hr.1, h.setStore hr.2⟩

theorem awaiting {β : Type} {a : Except Exn β} (h : D.Coupled W W') (hV : D.Coupled V V') :
    Answered D (· = ·) (W.awaiting fault a V) (W'.awaiting fault a V') := by
  unfold World.awaiting
  split
  · exact .some ⟨rfl, h⟩
  · exact .some ⟨rfl, hV⟩
  · exact .some ⟨rfl, hV⟩

theorem redis {β : Type} {d a : β} (h : D.Coupled W W') (hV : D.Coupled V V') :
    Answered D (· = ·) (W.redis fault d a V) (W'.redis fault d a V') := by
  unfold World.redis
  split
  · exact h.awaiting hV
  · exact h.awaiting hV
  · exact h.awaiting hV
  · exact .some ⟨rfl, h⟩

theorem file {β : Type} {a : Except Exn β} (h : D.Coupled W W') (hV : D.Coupled V V') :
    Answered D (· = ·) (W.file fault a V) (W'.file fault a V') := by
  unfold World.file
  split
  · exact h.awaiting hV
  · exact h.awaiting hV
  · exact h.awaiting hV
  · exact .some ⟨rfl, h⟩

/-- A cache entry of the tenant. -/
theorem setCache (h : D.Coupled W W') (key : String) (e : Option CacheEntry) :
    D.Coupled { W with cache := Function.update W.cache key e }
      { W' with cache := Function.update W'.cache key e } := by
  refine ⟨h.store, h.clock, fun k hk => ?_, h.objects, h.exports, h.sends, h.queue, h.bodies⟩
  show Function.update W'.cache key e k = Function.update W.cache key e k
  by_cases he : k = key
  · rw [he, Function.update_self, Function.update_self]
  · rw [Function.update_of_ne he, Function.update_of_ne he, h.cache k hk]

theorem object (h : D.Coupled W W') {key : String} (hkey : D.ownsObject key = true) :
    W'.object key = W.object key := by
  have whose (x : StoredObject) (hx : decide (x.key = key) = true) :
      D.ownsObject x.key = true := by
    rw [of_decide_eq_true hx, hkey]
  rw [World.object, World.object, ← List.head?_filter, filter_within fun x _ => whose x, h.objects,
    ← filter_within fun x _ => whose x, List.head?_filter]

theorem setObjects (h : D.Coupled W W') {x x' : List StoredObject}
    (hx : x'.filter (D.ownsObject ·.key) = x.filter (D.ownsObject ·.key)) :
    D.Coupled { W with objects := x } { W' with objects := x' } :=
  ⟨h.store, h.clock, h.cache, hx, h.exports, h.sends, h.queue, h.bodies⟩

theorem setSends (h : D.Coupled W W') {x x' : List Send} (hx : x' = x) :
    D.Coupled { W with sends := x } { W' with sends := x' } :=
  ⟨h.store, h.clock, h.cache, h.objects, h.exports, hx, h.queue, h.bodies⟩

theorem setExport (h : D.Coupled W W') (key : String) (content : Option ExportFile) :
    D.Coupled { W with exports := Function.update W.exports key content }
      { W' with exports := Function.update W'.exports key content } := by
  refine ⟨h.store, h.clock, h.cache, h.objects, fun k hk => ?_, h.sends, h.queue, h.bodies⟩
  show Function.update W'.exports key _ k = Function.update W.exports key _ k
  by_cases he : k = key
  · rw [he, Function.update_self, Function.update_self]
  · rw [Function.update_of_ne he, Function.update_of_ne he, h.exports k hk]

end Coupled

section Operations

variable {W W' : World} {i : Nat} {c : Choice} {o : Op}

/-- **A confined operation answers alike, and leaves alike.** -/
theorem opStep_coupled (h : D.Coupled W W') (ho : D.Confined o) (hc : D.Draws o c) :
    Option.Rel (fun x y => D.Answers o x.1 y.1 ∧ D.Coupled x.2 y.2) (opStep i c o W)
      (opStep i c o W') := by
  cases o with
  | select q =>
    simp only [opStep, h.clock]
    refine h.ofStore (h.store.select q) ?_
    rintro _ _ (⟨e, rfl, rfl⟩ | ⟨db, db', hdb, rfl, rfl⟩)
    · exact .inl ⟨_, rfl, rfl⟩
    · exact .inr ⟨db, db', hdb, rfl, rfl⟩
  | selectForUpdate t q =>
    simp only [opStep, h.clock]
    refine h.ofStore (h.store.lockRow ho _) ?_
    rintro r _ ⟨rfl, hr⟩
    refine ⟨rfl, fun a ha => ?_⟩
    rcases r with e | b
    · cases ha
    · cases ha
      exact hr _ rfl
  | selectSkipLocked t q => exact ho.elim
  | write w =>
    simp only [opStep, h.clock]
    exact h.ofStore (h.store.write ho) fun r r' he => congrArg _ he
  | commit =>
    simp only [opStep, h.clock]
    exact h.ofStore h.store.commit fun r r' he => congrArg _ he
  | rollback => exact h.awaiting (h.setStore (h.store.rollback i))
  | uuid4 => exact .some ⟨⟨rfl, fun id hid => by cases hid; exact hc⟩, h⟩
  | now => exact .some ⟨congrArg Except.ok h.clock.symm, h⟩
  | randint hi => exact .some ⟨rfl, h⟩
  | cacheGet key =>
    simp only [opStep, World.cached, h.cache key ho, h.clock]
    exact h.redis h
  | cacheSet key value ttl =>
    have hentry : (some ⟨value, W'.clock + seconds ttl⟩ : Option CacheEntry) =
        some ⟨value, W.clock + seconds ttl⟩ := by rw [h.clock]
    refine h.redis ?_
    rw [hentry]
    exact h.setCache key _
  | cacheDelete key => exact h.redis (h.setCache key _)
  | createObject key =>
    simp only [opStep, h.object ho]
    cases W.object key with
    | none =>
      refine h.file (h.setObjects ?_)
      rw [List.filter_append, List.filter_append, h.objects]
    | some x => exact h.file h
  | appendObject key chunk =>
    refine h.file (h.setObjects ?_)
    have hkeys : ((D.ownsObject ·.key) ∘ fun x : StoredObject =>
        if x.key = key then { x with content := x.content ++ chunk } else x) =
        (D.ownsObject ·.key) := by
      funext x
      simp only [Function.comp]
      split <;> rfl
    rw [List.filter_map, List.filter_map, hkeys, h.objects]
  | closeObject key handling => exact h.file h
  | unlinkObject key =>
    refine h.file (h.setObjects ?_)
    rw [List.filter_comm, h.objects, List.filter_comm]
  | isObject key =>
    simp only [opStep, h.object ho]
    exact h.file h
  | readObject key =>
    simp only [opStep, h.object ho]
    exact h.file h
  | replaceExport key content => exact h.file (h.setExport key _)
  | isExport key =>
    simp only [opStep, h.exports key ho]
    exact .some ⟨rfl, h⟩
  | startSend message => exact .some ⟨rfl, h.setSends (congrArg (· ++ _) h.sends)⟩
  | awaitSend =>
    have hended (status : SendStatus) : D.Coupled (W.endSend i status) (W'.endSend i status) :=
      h.setSends (congrArg (List.map _) h.sends)
    have hsend : W'.sendOf i = W.sendOf i := by rw [World.sendOf, World.sendOf, h.sends]
    simp only [opStep, hsend]
    split
    · exact .some ⟨rfl, h⟩
    · cases W.sendOf i with
      | none => exact .none
      | some x =>
        dsimp only
        split
        · exact .some ⟨rfl, h⟩
        · exact .some ⟨rfl, h⟩
        · exact .some ⟨rfl, hended _⟩
        · exact .some ⟨rfl, hended _⟩
  | publish message => exact ho.elim

/-- **A confined operation changes nothing of anybody else.** -/
theorem opStep_untouched {r : Except Exn o.Res}
    (hp : ∀ w ∈ (W.store.sessions i).writes, D.Owns w) (ho : D.Confined o)
    (h : opStep i c o W = some (r, W')) : D.Untouched W W' where
  rows t := by
    rcases opStep_commits h with ⟨hdb, -⟩ | ⟨rfl, hc⟩
    · rw [hdb]
    · rw [hc.db]
      exact foldl_theirs _ hp t
  cache key hkey := by
    have other (key' : String) (e : Option CacheEntry) (hkey' : D.OwnsEntry key')
        (hW : W' = W ∨ W' = { W with cache := Function.update W.cache key' e }) :
        W'.cache key = W.cache key := by
      rcases hW with rfl | rfl
      · rfl
      · refine Function.update_of_ne ?_ _ _
        rintro rfl
        exact hkey hkey'
    cases o with
    | cacheSet key' value ttl => exact other key' _ ho (redis_or h)
    | cacheDelete key' => exact other key' _ ho (redis_or h)
    | _ => exact congrFun ((opStep_part h).parts .cache (by simp [Op.part])) key
  objects := by
    have other (x : List StoredObject)
        (hx : x.filter (!D.ownsObject ·.key) = W.objects.filter (!D.ownsObject ·.key))
        (hW : W' = W ∨ W' = { W with objects := x }) :
        W'.objects.filter (!D.ownsObject ·.key) = W.objects.filter (!D.ownsObject ·.key) := by
      rcases hW with rfl | rfl
      · rfl
      · exact hx
    cases o with
    | createObject key =>
      simp only [opStep] at h
      split at h
      · refine other _ ?_ (file_or h)
        rw [List.filter_append, List.filter_singleton, show D.ownsObject key = true from ho]
        exact List.append_nil _
      · exact other _ rfl ((file_or h).imp_right fun hW => hW)
    | appendObject key chunk =>
      refine other _ ?_ (file_or h)
      have hkeys : ((!D.ownsObject ·.key) ∘ fun x : StoredObject =>
          if x.key = key then { x with content := x.content ++ chunk } else x) =
          (!D.ownsObject ·.key) := by
        funext x
        simp only [Function.comp]
        split <;> rfl
      rw [List.filter_map, hkeys]
      refine (List.map_congr_left fun x hx => if_neg ?_).trans (List.map_id _)
      rintro rfl
      have hnot := (List.mem_filter.mp hx).2
      rw [show D.ownsObject x.key = true from ho] at hnot
      cases hnot
    | unlinkObject key =>
      refine other _ ?_ (file_or h)
      rw [List.filter_comm, List.filter_eq_self]
      intro x hx
      refine decide_eq_true fun he => ?_
      have hnot := (List.mem_filter.mp hx).2
      rw [he, show D.ownsObject key = true from ho] at hnot
      cases hnot
    | _ => exact congrArg (List.filter _) ((opStep_part h).parts .objects (by simp [Op.part]))
  exports key hkey := by
    cases o with
    | replaceExport key' content =>
      rcases file_or h with rfl | rfl
      · rfl
      · refine Function.update_of_ne (fun he => ?_) _ _
        rw [he, show D.ownsExport key' = true from ho] at hkey
        cases hkey
    | _ => exact congrFun ((opStep_part h).parts .exports (by simp [Op.part])) key

end Operations

namespace Untouched

variable {W W' V : World}

theorem refl (W : World) : D.Untouched W W := ⟨fun _ => rfl, fun _ _ => rfl, rfl, fun _ _ => rfl⟩

theorem trans (h : D.Untouched W W') (h' : D.Untouched W' V) : D.Untouched W V :=
  ⟨fun t => (h'.rows t).trans (h.rows t), fun k hk => (h'.cache k hk).trans (h.cache k hk),
    h'.objects.trans h.objects, fun k hk => (h'.exports k hk).trans (h.exports k hk)⟩

end Untouched

end Tenancy

end Ticketing
