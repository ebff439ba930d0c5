import Ticketing.Concurrency.Tenancy
import Ticketing.Services.Attachments
import Ticketing.Services.BackgroundJob
import Ticketing.Services.TicketList

/-!
# The calls of a tenant

Everything the program does for one tenant (`TenantCall`): the requests of its members, once they
are authenticated (`TenantRequest`), its background jobs, and users coming and going. `Serves`
says that a call is this tenant's.

Each call is `Steady`: given answers that the tenant cannot tell apart it goes on in the same way.
The lemmas are about the queries and writes first, by the kind of filter they have (`steady_find`,
`steady_filter`, `steady_get`), then about each function of the services, in the order of the
source.

* A row that is found by a filter for the tenant is the tenant's (`Finds`, `Row`).
* The lookups that are not filtered by tenant are `assign_roles`' of a membership, which is in
  step with itself only as far as that both ways end in `RoleNotFoundError` (`steady_getOther`),
  and the worker's of its job.

The calls about background jobs are in `TenantJobs.lean`; `steady_prog` of `Isolation.lean` puts
them together. Left out: `login` and the other calls of a user without a tenant, and the creation
of a tenant.
-/

namespace Ticketing

open Lib (Prog)

/-- The requests of a member. -/
inductive TenantRequest
  | createCustomer (name email : String) (phone : Option String)
  | getCustomer (customerId : UUID)
  | listCustomers (offset limit : Nat)
  | updateCustomer (customerId : UUID) (changes : CustomerChanges)
  | createTicket (r : CreationRequest) (idempotencyKey : String)
  | getTicket (ticketId : UUID)
  | listTickets (options : TicketListOptions)
  | updateTicket (ticketId : UUID) (changes : TicketChanges)
  | claim (ticketId : UUID) (note : Option String)
  | transfer (ticketId assigneeMembershipId : UUID) (note : Option String)
  | resolve (ticketId : UUID) (note : Option String)
  | reopen (ticketId : UUID) (note : Option String)
  | close (ticketId : UUID) (note : Option String)
  | listEvents (ticketId : UUID)
  | createComment (ticketId : UUID) (body : String) (visibility : CommentVisibility)
  | listComments (ticketId : UUID)
  | uploadAttachment (ticketId : UUID) (upload : TicketCollaborationService.Upload)
  | listAttachments (ticketId : UUID)
  | download (ticketId attachmentId : UUID)
  | submitEmailNotification (ticketId : UUID) (idempotencyKey : String)
  | submitTicketExport (status : Option TicketStatus) (priority : Option TicketPriority)
      (idempotencyKey : String)
  | getJob (jobId : UUID)
  | exportResultPath (jobId : UUID)
  | invite (email : String)
  | listMembers
  | listRoles
  | hasPermission (permission : PermissionCode)
  | assignRoles (membershipId : UUID) (roleIds : List UUID)

abbrev TenantRequest.Ret : TenantRequest → Type
  | createCustomer .. | getCustomer _ | updateCustomer .. => Customer
  | listCustomers .. => List Customer
  | createTicket .. => TicketCreationResult
  | getTicket _ | updateTicket .. | claim .. | transfer .. | resolve .. | reopen .. | close .. =>
    Ticket
  | listTickets _ => TicketPage
  | listEvents _ => List TicketEvent
  | createComment .. => TicketComment
  | listComments _ => List TicketComment
  | uploadAttachment .. => TicketAttachment
  | listAttachments _ => List TicketAttachment
  | download .. => TicketAttachment × Bytes
  | submitEmailNotification .. | submitTicketExport .. => BackgroundJobSubmission
  | getJob _ => BackgroundJob
  | exportResultPath _ => Lib.Path
  | invite _ => Membership
  | listMembers => List MemberSummary
  | listRoles => List Role
  | hasPermission _ => Bool
  | assignRoles .. => Unit

/-- What is done for a tenant; a request comes with the correlation id of its context. -/
inductive TenantCall
  | request (context : CurrentTenant) (correlationId : Option String) (r : TenantRequest)
  | resolveCurrent (user : User)
  | acceptInvitation (user : User)
  | leave (user : User)
  | execute (jobId : UUID)

abbrev TenantCall.Ret : TenantCall → Type
  | request _ _ r => r.Ret
  | resolveCurrent _ | acceptInvitation _ => CurrentTenant
  | leave _ | execute _ => Unit

section Programs

variable (P : Platform) (C : Settings) (S : RBACService) (exportRoot : Lib.Path)

def TenantRequest.prog (context : CurrentTenant) (correlationId : Option String) :
    (r : TenantRequest) → Service r.Ret
  | createCustomer name email phone => CustomerService.create P context name email phone
  | getCustomer customerId => CustomerService.get context customerId
  | listCustomers offset limit => CustomerService.list context offset limit
  | updateCustomer customerId changes => CustomerService.update P context customerId changes
  | createTicket r key => TicketService.create P S context r key
  | getTicket ticketId => TicketService.get S context ticketId
  | listTickets options => TicketService.list P S context options
  | updateTicket ticketId changes => TicketService.update S context ticketId changes
  | claim ticketId note => TicketService.claim S context ticketId note
  | transfer ticketId assignee note => TicketService.transfer S context ticketId assignee note
  | resolve ticketId note => TicketService.resolve S context ticketId note
  | reopen ticketId note => TicketService.reopen S context ticketId note
  | close ticketId note => TicketService.close S context ticketId note
  | listEvents ticketId => TicketService.listEvents S context ticketId
  | createComment ticketId body visibility =>
    TicketCollaborationService.createComment ⟨S, C.attachmentMaxSizeBytes⟩ context ticketId body
      visibility
  | listComments ticketId =>
    TicketCollaborationService.listComments ⟨S, C.attachmentMaxSizeBytes⟩ context ticketId
  | uploadAttachment ticketId upload =>
    TicketCollaborationService.uploadAttachment P ⟨S, C.attachmentMaxSizeBytes⟩ context ticketId
      upload
  | listAttachments ticketId =>
    TicketCollaborationService.listAttachments ⟨S, C.attachmentMaxSizeBytes⟩ context ticketId
  | download ticketId attachmentId =>
    TicketCollaborationService.download ⟨S, C.attachmentMaxSizeBytes⟩ context ticketId attachmentId
  | submitEmailNotification ticketId key =>
    BackgroundJobService.submitEmailNotification P ⟨C, S, correlationId⟩ context ticketId key
  | submitTicketExport status priority key =>
    BackgroundJobService.submitTicketExport P ⟨C, S, correlationId⟩ context status priority key
  | getJob jobId => BackgroundJobService.get context jobId
  | exportResultPath jobId => BackgroundJobService.exportResultPath exportRoot context jobId
  | invite email => TenantService.invite P S context email
  | listMembers => TenantService.listMembers context
  | listRoles => RBACService.listRoles context.tenant.id
  | hasPermission permission => S.hasPermission context.membership permission
  | assignRoles membershipId roleIds => S.assignRoles context.tenant.id membershipId roleIds

/-- The calls for a tenant. -/
def TenantCall.prog (tenantId : UUID) : (c : TenantCall) → Service c.Ret
  | request context correlationId r => r.prog P C S exportRoot context correlationId
  | resolveCurrent user => TenantService.resolveCurrent user tenantId
  | acceptInvitation user => TenantService.acceptInvitation S user tenantId
  | leave user => TenantService.leave S user tenantId
  | execute jobId => BackgroundJobExecutor.execute P C jobId

end Programs

namespace Tenancy

/-- A call of the tenant: its member is one of the tenant, its job no other tenant's. -/
def Serves (D : Tenancy) : TenantCall → Prop
  | .request context _ _ => context.tenant.id = D.tenant ∧
      context.membership.tenantId = D.tenant ∧ D.own .memberships context.membership.id = true
  | .execute jobId => D.own .backgroundJobs jobId = true
  | _ => True

instance (D : Tenancy) : (c : TenantCall) → Decidable (D.Serves c)
  | .request .. => inferInstanceAs (Decidable (_ ∧ _))
  | .execute _ => inferInstanceAs (Decidable (_ = true))
  | .resolveCurrent _ | .acceptInvitation _ | .leave _ => inferInstanceAs (Decidable True)

/-- What the tenant's programs do does not depend on what it cannot see. -/
abbrev Steady (D : Tenancy) {α : Type} (K : α → Prop) (p : Service α) : Prop :=
  Prog.Steady D.Confined D.Answers K p

/-- A row of the tenant. -/
structure Row (D : Tenancy) (t : Table) (r : t.Row) : Prop where
  fits : D.Fits t r
  mine : D.mine t r = true

variable {D : Tenancy}

/-! ## Operations -/

section Operations

/-- An operation that answers nothing of the database. -/
theorem steady_perform {o : Op} (ho : D.Confined o) (hA : ∀ r r', D.Answers o r r' → r = r') :
    D.Steady (fun _ => True) (Service.perform o) :=
  .perform ho fun r r' h => ⟨hA r r' h, fun _ _ => trivial⟩

theorem steady_select {β : Type} {q : Db → β} (hq : ∀ db db', D.Alike db db' → q db = q db') :
    D.Steady (fun a => ∃ db, D.Divides db ∧ a = q db) (Service.select q) := by
  refine Prog.Steady.perform (o := Op.select q) trivial fun r r' h => ?_
  rcases h with ⟨e, rfl, rfl⟩ | ⟨db, db', hdb, rfl, rfl⟩
  · exact ⟨rfl, fun a ha => by cases ha⟩
  · exact ⟨congrArg _ (hq db db' hdb), fun a ha => by cases ha; exact ⟨db, hdb.left, rfl⟩⟩

theorem steady_selectForUpdate {t : Table} {q : Db → Option t.Row}
    (hq : ∀ db db', D.Alike db db' → q db = q db') :
    D.Steady (fun a => ∃ db, D.Divides db ∧ a = q db) (Service.selectForUpdate t q) :=
  Prog.Steady.perform (o := Op.selectForUpdate t q) hq fun _ _ h => h

/-- A row that a query finds. -/
def Finds (D : Tenancy) {t : Table} (p : t.Row → Bool) (found : Option t.Row) : Prop :=
  ∀ r ∈ found, D.Row t r ∧ p r = true

theorem finds {t : Table} {p : t.Row → Bool}
    (hp : ∀ r, D.Fits t r → p r = true → D.mine t r = true) {found : Option t.Row}
    (h : ∃ db, D.Divides db ∧ found = (db t).find? p) : D.Finds p found := by
  obtain ⟨db, hdb, rfl⟩ := h
  intro r hr
  obtain ⟨hfits, hpr⟩ := hdb.find? hr
  exact ⟨⟨hfits, hp r hfits hpr⟩, hpr⟩

theorem steady_find {t : Table} {p : t.Row → Bool}
    (hp : ∀ r, D.Fits t r → p r = true → D.mine t r = true) :
    D.Steady (D.Finds p) (Service.select fun db => (db t).find? p) :=
  (steady_select fun _ _ h => h.find? hp).mono fun _ => finds hp

theorem steady_findForUpdate {t : Table} {p : t.Row → Bool}
    (hp : ∀ r, D.Fits t r → p r = true → D.mine t r = true) :
    D.Steady (D.Finds p) (Service.selectForUpdate t fun db => (db t).find? p) :=
  (steady_selectForUpdate fun _ _ h => h.find? hp).mono fun _ => finds hp

theorem steady_filter {t : Table} {p : t.Row → Bool}
    (hp : ∀ r, D.Fits t r → p r = true → D.mine t r = true) :
    D.Steady (fun _ => True) (Service.select fun db => (db t).filter p) :=
  (steady_select fun _ _ h => h.filter hp).mono fun _ _ => trivial

theorem mine_of_id {t : Table} {id : UUID} (hid : D.own t id = true) (r : t.Row)
    (hr : decide (t.id r = id) = true) : D.mine t r = true := by
  rw [mine, of_decide_eq_true hr, hid]

theorem steady_get {t : Table} {id : UUID} (hid : D.own t id = true) :
    D.Steady (D.Finds fun r : t.Row => t.id r = id) (Service.get t id) :=
  steady_find fun r _ => mine_of_id hid r

/-- A lookup that may find a row of another tenant, when then both ways end in one error. -/
theorem steady_getOther {α : Type} {K : α → Prop} {t : Table} {id : UUID}
    {f : Option t.Row → Service α} {e : Exn} (hid : D.own t id = false)
    (hf : ∀ found, (∀ r ∈ found, D.Fits t r ∧ D.mine t r = false) → f found = .raise e) :
    D.Steady K ((Service.get t id).bind f) := by
  have whose {db : Db} (hdb : D.Divides db) (r : t.Row) (hr : r ∈ db.get t id) :
      D.Fits t r ∧ D.mine t r = false := by
    obtain ⟨hfits, hp⟩ := hdb.find? hr
    exact ⟨hfits, by rw [mine, of_decide_eq_true hp, hid]⟩
  refine Prog.InStep.op (o := Op.select _) trivial fun r r' h => ?_
  rcases h with ⟨e, rfl, rfl⟩ | ⟨db, db', hdb, rfl, rfl⟩
  · exact .raise e
  · show Prog.InStep _ _ _ (f (db.get t id)) (f (db'.get t id))
    rw [hf _ (whose hdb.left), hf _ (whose hdb.right)]
    exact .raise e

theorem steady_refresh {t : Table} {id : UUID} (hid : D.own t id = true) :
    D.Steady (D.Row t) (Service.refresh t id) := by
  refine .bind (steady_get hid) fun found hfound => ?_
  rcases found with _ | row
  · exact .raise _
  · exact .ret (hfound row rfl).1

theorem steady_uuid4 : D.Steady (fun id => ∀ t, D.own t id = true) Service.uuid4 :=
  Prog.Steady.perform (o := Op.uuid4) trivial fun _ _ h => h

theorem steady_now : D.Steady (fun _ => True) Service.now :=
  steady_perform (o := Op.now) trivial fun _ _ h => h

theorem steady_write {w : Write} (hw : D.Owns w) :
    D.Steady (fun _ => True) (Service.perform (.write w)) :=
  steady_perform hw fun _ _ h => h

theorem steady_insert {t : Table} {row : t.Row} (ht : t ≠ .tenants) (hrow : D.Row t row) :
    D.Steady (fun _ => True) (Service.insert t row) := steady_write ⟨ht, hrow.mine, hrow.fits⟩

theorem steady_update {t : Table} {loaded current : t.Row} (ht : t ≠ .tenants)
    (hrow : D.Row t loaded) (hid : t.id current = t.id loaded) (hc : D.Fits t current) :
    D.Steady (fun _ => True) (Service.update t loaded current) := by
  unfold Service.update
  split
  · exact .ret trivial
  · exact steady_write ⟨ht, hrow.mine, hrow.fits, hid, hc⟩

theorem steady_delete {t : Table} {p : t.Row → Bool}
    (hp : ∀ r, D.Fits t r → p r = true → D.mine t r = true) :
    D.Steady (fun _ => True) (Service.delete t p) := by
  refine .bind (steady_select fun db db' h => congrArg _ (h.filter hp)) ?_
  rintro _ ⟨db, hdb, rfl⟩
  refine steady_write fun id hid => ?_
  obtain ⟨r, hr, rfl⟩ := List.mem_map.mp hid
  obtain ⟨hr, hpr⟩ := List.mem_filter.mp hr
  exact hp r (hdb t r hr) hpr

theorem steady_commit : D.Steady (fun _ => True) Service.commit :=
  steady_perform (o := Op.commit) trivial fun _ _ h => h

theorem steady_rollback : D.Steady (fun _ => True) Service.rollback :=
  steady_perform (o := Op.rollback) trivial fun _ _ h => h

theorem steady_exceptIntegrityError {α : Type} {K : α → Prop} {body handler : Service α}
    (hbody : D.Steady K body) (hhandler : D.Steady K handler) :
    D.Steady K (Service.exceptIntegrityError body handler) := by
  refine .handle hbody fun e => ?_
  split
  · exact hhandler
  · exact .raise e

theorem steady_ofExcept {α : Type} (x : Except Exn α) :
    D.Steady (fun _ => True) (Service.ofExcept x) := by
  cases x with
  | ok a => exact .ret trivial
  | error e => exact .raise e

end Operations

/-- A member of the tenant. -/
structure Member (D : Tenancy) (m : Membership) : Prop where
  tenant : m.tenantId = D.tenant
  own : D.own .memberships m.id = true

theorem Row.member {m : Membership} (h : D.Row .memberships m) : D.Member m :=
  ⟨h.fits.mp h.mine, h.mine⟩

/-! ## Roles and permissions -/

section Rbac

variable (S : RBACService)

/-- What a member may do is decided by rows of the tenant. -/
theorem permissionCodes_alike {db db' : Db} (h : D.Alike db db') {m : UUID}
    (hm : D.own .memberships m = true) :
    db.permissionCodes D.tenant m = db'.permissionCodes D.tenant m := by
  have hassigned : (db .membershipRoles).filter (·.membershipId = m) =
      (db' .membershipRoles).filter (·.membershipId = m) :=
    h.filter fun r hr he => hr.mpr (by rw [of_decide_eq_true he, hm])
  rw [Db.permissionCodes, Db.permissionCodes, hassigned]
  refine List.flatMap_congr fun assigned _ => ?_
  have hroles : (db .roles).filter (fun r => r.id = assigned.roleId ∧ r.tenantId = D.tenant) =
      (db' .roles).filter fun r => r.id = assigned.roleId ∧ r.tenantId = D.tenant :=
    h.filter fun r hr he => hr.mpr (of_decide_eq_true he).2
  rw [hroles]
  refine List.flatMap_congr fun role hrole => ?_
  obtain ⟨hmem, he⟩ := List.mem_filter.mp hrole
  obtain ⟨hid, htenant⟩ := of_decide_eq_true he
  have hown : D.own .roles assigned.roleId = true := hid ▸ (h.right .roles role hmem).mpr htenant
  have hgrants : (db .rolePermissions).filter (·.roleId = assigned.roleId) =
      (db' .rolePermissions).filter (·.roleId = assigned.roleId) :=
    h.filter fun r hr he => hr.mpr (by rw [of_decide_eq_true he, hown])
  rw [hgrants]
  refine List.flatMap_congr fun granted _ => congrArg _ ?_
  exact h.filter fun r hr _ => hr

theorem steady_loadPermissions {m : Membership} (hm : D.Member m) :
    D.Steady (fun _ => True) (S.loadPermissions m) := by
  have hcodes : ∀ db db', D.Alike db db' →
      db.permissionCodes m.tenantId m.id = db'.permissionCodes m.tenantId m.id := fun db db' h => by
    rw [hm.tenant]
    exact permissionCodes_alike h hm.own
  refine .bind (steady_select hcodes) fun values _ => ?_
  split
  · exact .raise _
  · dsimp only
    split
    · refine .bind (steady_perform (o := Op.randint _) trivial fun _ _ h => h) fun jitter _ => ?_
      refine .bind (steady_perform (o := Op.cacheSet _ _ _) ⟨m.id, by rw [hm.tenant]⟩
        fun _ _ h => h) fun _ _ => .ret trivial
    · exact .ret trivial

theorem steady_hasPermission {m : Membership} (hm : D.Member m) (p : PermissionCode) :
    D.Steady (fun _ => True) (S.hasPermission m p) := by
  have hload := steady_loadPermissions S hm
  have hkey : D.OwnsEntry (permissionSnapshotKey m.tenantId m.id) := ⟨m.id, by rw [hm.tenant]⟩
  refine .bind (K := fun _ => True) ?_ fun _ _ => .ret trivial
  unfold RBACService.membershipPermissions
  split
  · refine .bind (steady_perform (o := Op.cacheGet _) hkey fun _ _ h => h) fun cached _ => ?_
    split
    · split
      · exact .ret trivial
      · exact .bind (steady_perform (o := Op.cacheDelete _) hkey fun _ _ h => h) fun _ _ => hload
    · exact hload
  · exact hload

theorem steady_invalidatePermissions {m : UUID} {t : UUID} (ht : t = D.tenant) :
    D.Steady (fun _ => True) (S.invalidatePermissions t m) := by
  unfold RBACService.invalidatePermissions
  split
  · exact steady_perform (o := Op.cacheDelete _) ⟨m, by rw [ht]⟩ fun _ _ h => h
  · exact .ret trivial

theorem steady_listRoles {t : UUID} (ht : t = D.tenant) :
    D.Steady (fun _ => True) (RBACService.listRoles t) :=
  (steady_select fun _ _ h => congrArg _
    (h.filter (t := .roles) fun _ hr he => hr.mpr ((of_decide_eq_true he).trans ht))).mono
      fun _ _ => trivial

/-- New role assignments of a member. -/
theorem steady_addMembershipRoles {m : UUID} (hm : D.own .memberships m = true)
    (roleIds : List UUID) : D.Steady (fun rows => ∀ row ∈ rows, D.Row .membershipRoles row)
      (RBACService.addMembershipRoles m roleIds) := by
  induction roleIds with
  | nil => exact .ret (List.forall_mem_nil _)
  | cons roleId rest ih =>
    refine .bind steady_uuid4 fun id hid => .bind ih fun rows hrows => .ret ?_
    exact List.forall_mem_cons.mpr ⟨⟨iff_of_true (hid _) hm, hid _⟩, hrows⟩

theorem steady_insertAll {t : Table} (ht : t ≠ .tenants) (rows : List t.Row)
    (hrows : ∀ row ∈ rows, D.Row t row) :
    D.Steady (fun _ => True) (RBACService.insertAll t rows) := by
  induction rows with
  | nil => exact .ret trivial
  | cons row rows ih =>
    rw [List.forall_mem_cons] at hrows
    exact .bind (steady_insert ht hrows.1) fun _ _ => ih hrows.2

/-- The assignments of a member. -/
theorem steady_deleteRoles {m : UUID} (hm : D.own .memberships m = true) :
    D.Steady (fun _ => True) (Service.delete .membershipRoles (·.membershipId = m)) :=
  steady_delete fun r hr he => hr.mpr (by rw [of_decide_eq_true he, hm])

theorem steady_assignRoles {t : UUID} (ht : t = D.tenant) (htenant : D.own .tenants t = true)
    (m : UUID) (roleIds : List UUID) :
    D.Steady (fun _ => True) (S.assignRoles t m roleIds) := by
  refine .bind (steady_get htenant) fun tenant _ => ?_
  rcases hm : D.own .memberships m with _ | _
  · refine steady_getOther hm (e := .roleNotFound) fun found hfound => ?_
    rcases tenant with _ | tenant
    · rfl
    rcases found with _ | membership
    · rfl
    · obtain ⟨hfits, hmine⟩ := hfound membership rfl
      have hne : membership.tenantId ≠ t := fun he => by
        rw [hfits.mpr (he.trans ht)] at hmine
        cases hmine
      dsimp only
      rw [if_pos hne]
      rfl
  · refine .bind (steady_get hm) fun membership hfound => ?_
    rcases tenant with _ | tenant
    · exact .raise _
    rcases membership with _ | membership
    · exact .raise _
    dsimp only
    split
    · exact .raise _
    refine .bind (steady_filter (t := .roles) fun _ hr he =>
      hr.mpr ((of_decide_eq_true he).1.trans ht)) fun roles _ => ?_
    split
    · exact .raise _
    split
    · exact .raise _
    refine .bind (steady_deleteRoles hm) fun _ _ => ?_
    refine .bind (steady_addMembershipRoles hm _) fun rows hrows => ?_
    refine .bind (steady_insertAll (t := .membershipRoles) (by decide) rows hrows) fun _ _ => ?_
    exact .bind steady_commit fun _ _ => steady_invalidatePermissions S ht

theorem steady_resetToRequester {t : UUID} (ht : t = D.tenant) {m : Membership} (hm : D.Member m) :
    D.Steady (D.Row .membershipRoles) (RBACService.resetToRequester t m) := by
  refine .bind (steady_find (t := .roles) fun r hr he =>
    hr.mpr ((of_decide_eq_true he).1.trans ht)) fun role _ => ?_
  split
  · exact .raise _
  · refine .bind (steady_deleteRoles hm.own) fun _ _ => ?_
    exact .bind steady_uuid4 fun id hid => .ret ⟨iff_of_true (hid _) hm.own, hid _⟩

end Rbac

/-! ## Tenants and customers -/

section Tenants

variable (P : Platform) (S : RBACService) {context : CurrentTenant}

theorem steady_findMembership {t : UUID} (ht : t = D.tenant) (userId : UUID) :
    D.Steady (fun found => ∀ m ∈ found, D.Row .memberships m)
      (Service.select (TenantService.findMembership userId t)) :=
  (steady_find (t := .memberships) fun _ hr he =>
    hr.mpr ((of_decide_eq_true he).2.trans ht)).mono fun _ h m hm => (h m hm).1

theorem steady_lockMembership {t : UUID} (ht : t = D.tenant) (userId : UUID) :
    D.Steady (fun found => ∀ m ∈ found, D.Row .memberships m)
      (Service.selectForUpdate .memberships (TenantService.findMembership userId t)) :=
  (steady_findForUpdate (t := .memberships) fun _ hr he =>
    hr.mpr ((of_decide_eq_true he).2.trans ht)).mono fun _ h m hm => (h m hm).1

theorem steady_resolveCurrent (user : User) (htenant : D.own .tenants D.tenant = true) :
    D.Steady (fun _ => True) (TenantService.resolveCurrent user D.tenant) := by
  refine .bind (steady_findMembership rfl _) fun found _ => ?_
  split
  · exact .raise _
  · split
    · exact .raise _
    · refine .bind (steady_get htenant) fun tenant _ => ?_
      split
      · exact .raise _
      · split
        · exact .ret trivial
        · exact .raise _

theorem steady_acceptInvitation (user : User) (htenant : D.own .tenants D.tenant = true) :
    D.Steady (fun _ => True) (TenantService.acceptInvitation S user D.tenant) := by
  refine .bind (steady_lockMembership rfl _) fun found hfound => ?_
  rcases found with _ | loaded
  · exact .raise _
  have hrow := hfound loaded rfl
  dsimp only
  split
  · exact .raise _
  refine .bind (steady_get htenant) fun tenant _ => ?_
  rcases tenant with _ | tenant
  · exact .raise _
  dsimp only
  split
  · exact .raise _
  refine .bind steady_now fun now _ => ?_
  refine .bind (steady_update (by decide) hrow rfl hrow.fits) fun _ _ => ?_
  refine .bind steady_commit fun _ _ => ?_
  refine .bind (steady_invalidatePermissions S rfl) fun _ _ => ?_
  exact .bind (steady_refresh hrow.mine) fun _ _ => .ret trivial

theorem steady_leave (user : User) (htenant : D.own .tenants D.tenant = true) :
    D.Steady (fun _ => True) (TenantService.leave S user D.tenant) := by
  refine .bind (steady_lockMembership rfl _) fun found hfound => ?_
  rcases found with _ | loaded
  · exact .raise _
  have hrow := hfound loaded rfl
  dsimp only
  split
  · exact .raise _
  refine .bind (steady_get htenant) fun tenant _ => ?_
  rcases tenant with _ | tenant
  · exact .raise _
  dsimp only
  split
  · exact .raise _
  split
  · exact .raise _
  refine .bind (steady_update (by decide) hrow rfl hrow.fits) fun _ _ => ?_
  exact .bind steady_commit fun _ _ => steady_invalidatePermissions S rfl

theorem steady_invited (ht : context.tenant.id = D.tenant) {m : Membership}
    (hm : D.Row .memberships m) : D.Steady (fun _ => True) (do
      let assigned ← RBACService.resetToRequester context.tenant.id m
      Service.insert .membershipRoles assigned
      Service.commit
      S.invalidatePermissions context.tenant.id m.id
      Service.refresh .memberships m.id) := by
  refine .bind (steady_resetToRequester ht hm.member) fun assigned hassigned => ?_
  refine .bind (steady_insert (t := .membershipRoles) (by decide) hassigned) fun _ _ => ?_
  refine .bind steady_commit fun _ _ => ?_
  refine .bind (steady_invalidatePermissions S ht) fun _ _ => ?_
  exact (steady_refresh hm.mine).mono fun _ _ => trivial

theorem steady_invite (ht : context.tenant.id = D.tenant) (email : String) :
    D.Steady (fun _ => True) (TenantService.invite P S context email) := by
  refine .bind (steady_find (t := .users) fun r hr _ => hr) fun user _ => ?_
  rcases user with _ | user
  · exact .raise _
  refine .bind (steady_lockMembership ht _) fun found hfound => ?_
  rcases found with _ | loaded
  · refine .bind steady_uuid4 fun id hid => ?_
    have hrow : D.Row .memberships (TenantService.newMembership context.tenant.id user.id id) :=
      ⟨iff_of_true (hid _) ht, hid _⟩
    exact .bind (steady_insert (t := .memberships) (by decide) hrow) fun _ _ =>
      steady_invited S ht hrow
  · have hrow := hfound loaded rfl
    dsimp only
    split
    · exact .bind (steady_update (by decide) hrow rfl hrow.fits) fun _ _ =>
        steady_invited S ht ⟨hrow.fits, hrow.mine⟩
    · exact .raise _

theorem steady_listMembers (ht : context.tenant.id = D.tenant) :
    D.Steady (fun _ => True) (TenantService.listMembers context) := by
  refine .bind (steady_select fun _ _ h => congrArg _ (h.filter (t := .memberships) fun _ hr he =>
    hr.mpr ((of_decide_eq_true he).trans ht))) fun memberships _ => ?_
  dsimp only
  split
  · exact .ret trivial
  · exact .bind (steady_filter (t := .users) fun _ hr _ => hr) fun _ _ => .ret trivial

theorem steady_customer (ht : context.tenant.id = D.tenant) (customerId : UUID) :
    D.Steady (fun found => ∀ x ∈ found, D.Row .customers x)
      (Service.select fun db => db.customer context.tenant.id customerId) :=
  (steady_find (t := .customers) fun _ hr he =>
    hr.mpr ((of_decide_eq_true he).1.trans ht)).mono fun _ h x hx => (h x hx).1

theorem steady_customerByEmail (ht : context.tenant.id = D.tenant) (email : String) :
    D.Steady (fun _ => True)
      (Service.select fun db => db.customerByEmail context.tenant.id email) :=
  (steady_find (t := .customers) fun _ hr he =>
    hr.mpr ((of_decide_eq_true he).1.trans ht)).mono fun _ _ => trivial

theorem steady_commitOrEmailConflict {flush : Service Unit} (h : D.Steady (fun _ => True) flush) :
    D.Steady (fun _ => True) (CustomerService.commitOrEmailConflict flush) :=
  steady_exceptIntegrityError (.bind h fun _ _ => steady_commit)
    (.bind steady_rollback fun _ _ => .raise _)

theorem steady_createCustomer (ht : context.tenant.id = D.tenant) (name email : String)
    (phone : Option String) :
    D.Steady (fun _ => True) (CustomerService.create P context name email phone) := by
  refine .bind (steady_customerByEmail ht _) fun existing _ => ?_
  dsimp only
  split
  · exact .raise _
  refine .bind steady_uuid4 fun id hid => ?_
  refine .bind (steady_commitOrEmailConflict
    (steady_insert (t := .customers) (by decide) ⟨iff_of_true (hid _) ht, hid _⟩)) fun _ _ => ?_
  exact (steady_refresh (t := .customers) (hid _)).mono fun _ _ => trivial

theorem steady_getCustomer (ht : context.tenant.id = D.tenant) (customerId : UUID) :
    D.Steady (D.Row .customers) (CustomerService.get context customerId) := by
  refine .bind (steady_customer ht customerId) fun found hfound => ?_
  rcases found with _ | x
  · exact .raise _
  · exact .ret (hfound x rfl)

theorem steady_listCustomers (ht : context.tenant.id = D.tenant) (offset limit : Nat) :
    D.Steady (fun _ => True) (CustomerService.list context offset limit) := by
  refine (steady_select fun db db' h => ?_).mono fun _ _ => trivial
  rw [h.filter (t := .customers) fun _ hr he => hr.mpr ((of_decide_eq_true he).trans ht)]

/-- A customer as it was loaded, but for what an update changes. -/
def Keeps (loaded x : Customer) : Prop := x.id = loaded.id ∧ x.tenantId = loaded.tenantId

/-- The change of one field. -/
theorem steady_changeField {α β : Type} {K : β → Prop} {fields : List String} {field : String}
    {value : Option α} {x : β} {change : α → Service β} (hx : K x)
    (h : ∀ a, D.Steady K (change a)) :
    D.Steady K (Service.changeField fields field value x change) := by
  rcases Service.changeField_cases fields field value x change with he | he | ⟨a, -, he⟩ <;> rw [he]
  · exact .ret hx
  · exact .raise _
  · exact h a

theorem steady_changeEmail (ht : context.tenant.id = D.tenant) (loaded : Customer)
    (changes : CustomerChanges) :
    D.Steady (Keeps loaded) (CustomerService.changeEmail P context loaded changes) := by
  refine steady_changeField ⟨rfl, rfl⟩ fun email => ?_
  refine .bind (steady_customerByEmail ht _) fun existing _ => ?_
  dsimp only
  split
  · exact .raise _
  · exact .ret ⟨rfl, rfl⟩

theorem keeps_changePhone {loaded x : Customer} (h : Keeps loaded x) (changes : CustomerChanges) :
    Keeps loaded (CustomerService.changePhone x changes) := by
  unfold CustomerService.changePhone
  split
  · exact h
  · exact h

theorem steady_updateCustomer (ht : context.tenant.id = D.tenant) (customerId : UUID)
    (changes : CustomerChanges) :
    D.Steady (fun _ => True) (CustomerService.update P context customerId changes) := by
  refine .bind (steady_getCustomer ht customerId) fun loaded hrow => ?_
  refine .bind (steady_changeEmail P ht loaded changes) fun x hx => ?_
  refine .bind (steady_changeField hx fun _ => .ret hx) fun x hx => ?_
  have hphone := keeps_changePhone hx changes
  refine .bind (steady_changeField hphone fun _ => .ret hphone) fun x hx => ?_
  have hfits : D.Fits .customers x := by
    show D.own .customers x.id = true ↔ x.tenantId = D.tenant
    rw [hx.1, hx.2]
    exact hrow.fits
  refine .bind (steady_commitOrEmailConflict
    (steady_update (t := .customers) (by decide) hrow hx.1 hfits)) fun _ _ => ?_
  exact (steady_refresh hrow.mine).mono fun _ _ => trivial

end Tenants

/-! ## Tickets -/

section Tickets

variable (P : Platform) (S : RBACService) {context : CurrentTenant}

theorem steady_ticket {t : UUID} (ht : t = D.tenant) (ticketId : UUID) :
    D.Steady (fun found => ∀ x ∈ found, D.Row .tickets x)
      (Service.select fun db => db.ticket t ticketId) :=
  (steady_find (t := .tickets) fun _ hr he =>
    hr.mpr ((of_decide_eq_true he).1.trans ht)).mono fun _ h x hx => (h x hx).1

theorem steady_lockTicket {t : UUID} (ht : t = D.tenant) (ticketId : UUID) :
    D.Steady (fun found => ∀ x ∈ found, D.Row .tickets x)
      (Service.selectForUpdate .tickets fun db => db.ticket t ticketId) :=
  (steady_findForUpdate (t := .tickets) fun _ hr he =>
    hr.mpr ((of_decide_eq_true he).1.trans ht)).mono fun _ h x hx => (h x hx).1

theorem steady_creationKey (ht : context.tenant.id = D.tenant) (membershipId : UUID)
    (key : String) : D.Steady (fun found => ∀ k ∈ found, D.Row .ticketCreationKeys k)
      (Service.select fun db => db.creationKey context.tenant.id membershipId key) :=
  (steady_find (t := .ticketCreationKeys) fun _ hr he =>
    hr.mpr ((of_decide_eq_true he).1.trans ht)).mono fun _ h k hk => (h k hk).1

theorem steady_replayCreation {record : TicketCreationKey}
    (hrow : D.Row .ticketCreationKeys record) (requestHash : String) :
    D.Steady (fun _ => True) (TicketService.replayCreation record requestHash) := by
  unfold TicketService.replayCreation
  split
  · exact .raise _
  · refine .bind (steady_ticket (hrow.fits.mp hrow.mine) _) fun found _ => ?_
    split
    · exact .raise _
    · exact .ret trivial

theorem steady_checkCustomer (ht : context.tenant.id = D.tenant) (hm : D.Member context.membership)
    (customerId : Option UUID) :
    D.Steady (fun _ => True) (TicketService.checkCustomer S context customerId) := by
  cases customerId with
  | none => exact .ret trivial
  | some id =>
    refine .bind (steady_customer ht id) fun customer _ => ?_
    refine .bind (steady_hasPermission S hm _) fun canRead _ => ?_
    split
    · exact .raise _
    · exact .ret trivial

theorem steady_createTicket (ht : context.tenant.id = D.tenant) (hm : D.Member context.membership)
    (r : CreationRequest) (key : String) :
    D.Steady (fun _ => True) (TicketService.create P S context r key) := by
  refine .bind (steady_creationKey ht _ _) fun existing hexisting => ?_
  rcases existing with _ | record
  · refine .bind (steady_checkCustomer S ht hm _) fun _ _ => ?_
    refine .bind steady_uuid4 fun ticketId hticket => ?_
    refine .bind steady_uuid4 fun eventId hevent => ?_
    refine .bind steady_uuid4 fun keyId hkey => ?_
    refine .bind (K := fun _ => True) (steady_exceptIntegrityError ?_ ?_) fun replayed _ => ?_
    · refine .bind (K := fun _ => True) ?_ fun _ _ =>
        .bind steady_commit fun _ _ => .ret trivial
      refine .bind (steady_insert (t := .tickets) (by decide)
        ⟨iff_of_true (hticket _) ht, hticket _⟩) fun _ _ => ?_
      refine .bind (steady_insert (t := .ticketEvents) (by decide)
        ⟨iff_of_true (hevent _) ht, hevent _⟩) fun _ _ => ?_
      exact steady_insert (t := .ticketCreationKeys) (by decide)
        ⟨iff_of_true (hkey _) ht, hkey _⟩
    · refine .bind (K := fun _ => True) ?_ fun _ _ => .ret trivial
      refine .bind steady_rollback fun _ _ => ?_
      refine .bind (steady_creationKey ht _ _) fun raced hraced => ?_
      rcases raced with _ | raced
      · exact .raise _
      · exact steady_replayCreation (hraced raced rfl) _
    · rcases replayed with _ | replayed
      · exact .bind (steady_refresh (t := .tickets) (hticket _)) fun _ _ => .ret trivial
      · exact .ret trivial
  · exact steady_replayCreation (hexisting record rfl) _

theorem steady_canAccess (hm : D.Member context.membership) (x : Ticket) (p : PermissionCode) :
    D.Steady (fun _ => True) (TicketService.canAccess S context x p) := by
  unfold TicketService.canAccess
  split
  · exact .ret trivial
  · exact steady_hasPermission S hm _

theorem steady_requireAccess (hm : D.Member context.membership) {found : Option Ticket}
    (hfound : ∀ x ∈ found, D.Row .tickets x) (p : PermissionCode) :
    D.Steady (D.Row .tickets) (TicketService.requireAccess S context found p) := by
  rcases found with _ | x
  · exact .raise _
  · refine .bind (steady_canAccess S hm x p) fun allowed _ => ?_
    split
    · exact .ret (hfound x rfl)
    · exact .raise _

theorem steady_getTicket (ht : context.tenant.id = D.tenant) (hm : D.Member context.membership)
    (ticketId : UUID) : D.Steady (D.Row .tickets) (TicketService.get S context ticketId) :=
  .bind (steady_ticket ht ticketId) fun _ hfound => steady_requireAccess S hm hfound _

theorem steady_getLockedVisible (ht : context.tenant.id = D.tenant)
    (hm : D.Member context.membership) (ticketId : UUID) :
    D.Steady (D.Row .tickets) (TicketService.getLockedVisible S context ticketId) :=
  .bind (steady_lockTicket ht ticketId) fun _ hfound => steady_requireAccess S hm hfound _

theorem steady_listEvents (ht : context.tenant.id = D.tenant) (hm : D.Member context.membership)
    (ticketId : UUID) : D.Steady (fun _ => True) (TicketService.listEvents S context ticketId) := by
  refine .bind (steady_getTicket S ht hm ticketId) fun _ _ => ?_
  exact (steady_select fun _ _ h => congrArg _ (h.filter (t := .ticketEvents) fun _ hr he =>
    hr.mpr ((of_decide_eq_true he).1.trans ht))).mono fun _ _ => trivial

theorem steady_listTickets (ht : context.tenant.id = D.tenant) (hm : D.Member context.membership)
    (options : TicketListOptions) :
    D.Steady (fun _ => True) (TicketService.list P S context options) := by
  refine .bind (steady_hasPermission S hm _) fun canReadAll _ => ?_
  refine .bind (steady_ofExcept _) fun cursor _ => ?_
  refine .bind (steady_select fun db db' h => ?_) fun records _ => .ret trivial
  rw [Db.listForTenant, Db.listForTenant, h.filter (t := .tickets) fun _ hr he =>
    hr.mpr ((of_decide_eq_true he).1.1.trans ht)]

theorem steady_requireWorkflowPermission (hm : D.Member context.membership) :
    D.Steady (fun _ => True) (TicketService.requireWorkflowPermission S context) := by
  refine .bind (steady_hasPermission S hm _) fun allowed _ => ?_
  split
  · exact .raise _
  · exact .ret trivial

theorem steady_requireAssigneeOrAdmin (hm : D.Member context.membership) (x : Ticket) :
    D.Steady (fun _ => True) (TicketService.requireAssigneeOrAdmin S context x) := by
  unfold TicketService.requireAssigneeOrAdmin
  split
  · exact .ret trivial
  · refine .bind (steady_hasPermission S hm _) fun allowed _ => ?_
    split
    · exact .raise _
    · exact .ret trivial

theorem steady_nextStatus (status : TicketStatus) (action : TicketAction) :
    D.Steady (fun _ => True) (TicketService.nextStatus status action) := by
  unfold TicketService.nextStatus
  split
  · exact .ret trivial
  · exact .raise _

theorem steady_saveAction (ht : context.tenant.id = D.tenant) {x : Ticket}
    (hrow : D.Row .tickets x) (action : TicketAction) (next : TicketStatus)
    (assignee : Option UUID) (note : Option String) :
    D.Steady (fun _ => True) (TicketService.saveAction context x action next assignee note) := by
  refine .bind steady_uuid4 fun eventId hevent => ?_
  refine .bind (steady_update (t := .tickets) (by decide) hrow rfl hrow.fits) fun _ _ => ?_
  refine .bind (steady_insert (t := .ticketEvents) (by decide)
    ⟨iff_of_true (hevent _) ht, hevent _⟩) fun _ _ => ?_
  refine .bind steady_commit fun _ _ => ?_
  exact (steady_refresh hrow.mine).mono fun _ _ => trivial

theorem steady_claim (ht : context.tenant.id = D.tenant) (hm : D.Member context.membership)
    (ticketId : UUID) (note : Option String) :
    D.Steady (fun _ => True) (TicketService.claim S context ticketId note) := by
  refine .bind (steady_getLockedVisible S ht hm ticketId) fun x hx => ?_
  refine .bind (steady_requireWorkflowPermission S hm) fun _ _ => ?_
  refine .bind (steady_nextStatus _ _) fun next _ => ?_
  dsimp only
  split
  · exact .raise _
  · exact steady_saveAction ht hx _ _ _ _

theorem steady_transfer (ht : context.tenant.id = D.tenant) (hm : D.Member context.membership)
    (ticketId assignee : UUID) (note : Option String) :
    D.Steady (fun _ => True) (TicketService.transfer S context ticketId assignee note) := by
  refine .bind (steady_getLockedVisible S ht hm ticketId) fun x hx => ?_
  refine .bind (steady_requireWorkflowPermission S hm) fun _ _ => ?_
  refine .bind (steady_requireAssigneeOrAdmin S hm x) fun _ _ => ?_
  refine .bind (steady_nextStatus _ _) fun next _ => ?_
  refine .bind (steady_find (t := .memberships) fun _ hr he =>
    hr.mpr ((of_decide_eq_true he).1.trans ht)) fun target htarget => ?_
  rcases target with _ | target
  · exact .raise _
  refine .bind (steady_hasPermission S (htarget target rfl).1.member _) fun manages _ => ?_
  dsimp only
  split
  · exact .raise _
  split
  · exact .raise _
  · exact steady_saveAction ht hx _ _ _ _

theorem steady_conclude (ht : context.tenant.id = D.tenant) (hm : D.Member context.membership)
    (action : TicketAction) (ticketId : UUID) (note : Option String) :
    D.Steady (fun _ => True) (TicketService.conclude S action context ticketId note) := by
  refine .bind (steady_getLockedVisible S ht hm ticketId) fun x hx => ?_
  refine .bind (steady_requireWorkflowPermission S hm) fun _ _ => ?_
  refine .bind (steady_requireAssigneeOrAdmin S hm x) fun _ _ => ?_
  exact .bind (steady_nextStatus _ _) fun next _ => steady_saveAction ht hx _ _ _ _

theorem steady_reopen (ht : context.tenant.id = D.tenant) (hm : D.Member context.membership)
    (ticketId : UUID) (note : Option String) :
    D.Steady (fun _ => True) (TicketService.reopen S context ticketId note) := by
  refine .bind (steady_getLockedVisible S ht hm ticketId) fun x hx => ?_
  refine .bind (steady_hasPermission S hm _) fun allowed _ => ?_
  dsimp only
  split
  · exact .raise _
  · exact .bind (steady_nextStatus _ _) fun next _ => steady_saveAction ht hx _ _ _ _

/-- A ticket as it was loaded, but for what an update changes. -/
def KeepsTicket (loaded x : Ticket) : Prop := x.id = loaded.id ∧ x.tenantId = loaded.tenantId

theorem steady_updateTicket (ht : context.tenant.id = D.tenant) (hm : D.Member context.membership)
    (ticketId : UUID) (changes : TicketChanges) :
    D.Steady (fun _ => True) (TicketService.update S context ticketId changes) := by
  refine .bind (steady_ticket ht ticketId) fun found hfound => ?_
  refine .bind (steady_requireAccess S hm hfound _) fun loaded hrow => ?_
  refine .bind (steady_changeField (K := KeepsTicket loaded) ⟨rfl, rfl⟩ fun _ => .ret ⟨rfl, rfl⟩)
    fun x hx => ?_
  refine .bind (steady_changeField hx fun _ => .ret hx) fun x hx => ?_
  refine .bind (steady_changeField hx fun _ => .ret hx) fun x hx => ?_
  have hfits : D.Fits .tickets x := by
    show D.own .tickets x.id = true ↔ x.tenantId = D.tenant
    rw [hx.1, hx.2]
    exact hrow.fits
  refine .bind (steady_update (t := .tickets) (by decide) hrow hx.1 hfits) fun _ _ => ?_
  refine .bind steady_commit fun _ _ => ?_
  exact (steady_refresh hrow.mine).mono fun _ _ => trivial

end Tickets

/-! ## Comments and attachments -/

section Collaboration

variable (P : Platform) (T : TicketCollaborationService) {context : CurrentTenant}

open TicketCollaborationService (Upload objectKey newAttachment)

theorem steady_createComment (ht : context.tenant.id = D.tenant) (hm : D.Member context.membership)
    (ticketId : UUID) (body : String) (visibility : CommentVisibility) :
    D.Steady (fun _ => True) (T.createComment context ticketId body visibility) := by
  have hadd : D.Steady (fun _ => True) (do
      let id ← Service.uuid4
      Service.insert .ticketComments {
        id, tenantId := context.tenant.id, ticketId, authorMembershipId := context.membership.id
        visibility, body := Lib.Text.strip body, createdAt := 0 }
      Service.commit
      Service.refresh .ticketComments id) := by
    refine .bind steady_uuid4 fun id hid => ?_
    refine .bind (steady_insert (t := .ticketComments) (by decide)
      ⟨iff_of_true (hid _) ht, hid _⟩) fun _ _ => ?_
    refine .bind steady_commit fun _ _ => ?_
    exact (steady_refresh (t := .ticketComments) (hid _)).mono fun _ _ => trivial
  refine .bind (steady_getTicket T.rbac ht hm ticketId) fun _ _ => ?_
  dsimp only
  split
  · refine .bind (steady_hasPermission T.rbac hm _) fun allowed _ => ?_
    split
    · exact .raise _
    · exact hadd
  · exact hadd

theorem steady_listComments (ht : context.tenant.id = D.tenant) (hm : D.Member context.membership)
    (ticketId : UUID) : D.Steady (fun _ => True) (T.listComments context ticketId) := by
  refine .bind (steady_getTicket T.rbac ht hm ticketId) fun _ _ => ?_
  refine .bind (steady_hasPermission T.rbac hm _) fun includeInternal _ => ?_
  exact (steady_select fun _ _ h => congrArg _ (h.filter (t := .ticketComments) fun _ hr he =>
    hr.mpr ((of_decide_eq_true he).1.trans ht))).mono fun _ _ => trivial

theorem steady_listAttachments (ht : context.tenant.id = D.tenant)
    (hm : D.Member context.membership) (ticketId : UUID) :
    D.Steady (fun _ => True) (T.listAttachments context ticketId) := by
  refine .bind (steady_getTicket T.rbac ht hm ticketId) fun _ _ => ?_
  exact (steady_select fun _ _ h => congrArg _ (h.filter (t := .ticketAttachments) fun _ hr he =>
    hr.1.mpr ((of_decide_eq_true he).1.trans ht))).mono fun _ _ => trivial

theorem ownsObject_objectKey (ticketId id : UUID) :
    D.ownsObject (objectKey D.tenant ticketId id) = true := by
  rw [ownsObject, List.isPrefixOf_iff_prefix, objectKey]
  simp only [String.toList_append]
  exact (List.prefix_append _ _).trans ((List.prefix_append _ _).trans (List.prefix_append _ _))

theorem steady_appendObject {key : String} (hkey : D.ownsObject key = true) (failure : Option Exn)
    (chunks : List Bytes) :
    D.Steady (fun _ => True) (AttachmentStorage.append key failure chunks) := by
  induction chunks with
  | nil =>
    cases failure with
    | none => exact .ret trivial
    | some e => exact .raise e
  | cons chunk chunks ih =>
    exact .bind (steady_perform (o := Op.appendObject key chunk) hkey fun _ _ h => h) fun _ _ => ih

theorem steady_closeObject (key : String) (handling : Bool) :
    D.Steady (fun _ => True) (Service.perform (Op.closeObject key handling)) :=
  steady_perform (o := Op.closeObject key handling) trivial fun _ _ h => h

theorem steady_unlinkObject {key : String} (hkey : D.ownsObject key = true) :
    D.Steady (fun _ => True) (Service.perform (Op.unlinkObject key)) :=
  steady_perform (o := Op.unlinkObject key) hkey fun _ _ h => h

theorem steady_writeObject {key : String} (hkey : D.ownsObject key = true) (stream : ChunkStream) :
    D.Steady (fun _ => True) (AttachmentStorage.write key stream) := by
  refine .bind (steady_perform (o := Op.createObject key) hkey fun _ _ h => h) fun _ _ => ?_
  refine .handle ?_ fun e => ?_
  · refine .bind (steady_appendObject hkey _ _) fun _ _ => ?_
    refine .bind (steady_closeObject key _) fun _ _ => ?_
    exact .bind (steady_closeObject key _) fun _ _ => .ret trivial
  · refine .bind (steady_closeObject key _) fun _ _ => ?_
    exact .bind (steady_unlinkObject hkey) fun _ _ => .raise e

theorem steady_record {attachment : TicketAttachment}
    (hrow : D.Row .ticketAttachments attachment) :
    D.Steady (fun _ => True) (TicketCollaborationService.record attachment) := by
  refine .handle ?_ fun e => ?_
  · exact .bind (steady_insert (by decide) hrow) fun _ _ => steady_commit
  · refine .bind steady_rollback fun _ _ => ?_
    exact .bind (steady_unlinkObject (hrow.fits.2.mp hrow.mine)) fun _ _ => .raise e

theorem steady_uploadAttachment (ht : context.tenant.id = D.tenant)
    (hm : D.Member context.membership) (ticketId : UUID) (upload : Upload) :
    D.Steady (fun _ => True) (T.uploadAttachment P context ticketId upload) := by
  refine .bind (steady_getTicket T.rbac ht hm ticketId) fun _ _ => ?_
  refine .bind (steady_ofExcept _) fun checked _ => ?_
  refine .bind steady_uuid4 fun objectId _ => ?_
  have hkey : D.ownsObject (objectKey context.tenant.id ticketId objectId) = true := by
    rw [ht]
    exact ownsObject_objectKey ticketId objectId
  refine .bind (steady_writeObject hkey _) fun sizeBytes _ => ?_
  refine .bind steady_uuid4 fun id hid => ?_
  refine .bind (steady_record ⟨⟨iff_of_true (hid _) ht, iff_of_true (hid _) hkey⟩, hid _⟩)
    fun _ _ => ?_
  exact (steady_refresh (t := .ticketAttachments) (hid _)).mono fun _ _ => trivial

theorem steady_checkKey (key : String) :
    D.Steady (fun _ => True) (AttachmentStorage.checkKey key) := by
  unfold AttachmentStorage.checkKey
  split
  · exact .ret trivial
  · exact .raise _

theorem steady_downloadAttachment (ht : context.tenant.id = D.tenant)
    (hm : D.Member context.membership) (ticketId attachmentId : UUID) :
    D.Steady (D.Row .ticketAttachments) (T.downloadAttachment context ticketId attachmentId) := by
  refine .bind (steady_getTicket T.rbac ht hm ticketId) fun _ _ => ?_
  refine .bind (steady_find (t := .ticketAttachments) fun _ hr he =>
    hr.1.mpr ((of_decide_eq_true he).1.trans ht)) fun found hfound => ?_
  rcases found with _ | attachment
  · exact .raise _
  have hrow := (hfound attachment rfl).1
  refine .bind (K := fun _ => True) (.bind (steady_checkKey _) fun _ _ =>
    steady_perform (o := Op.isObject _) (hrow.fits.2.mp hrow.mine) fun _ _ h => h) fun there _ => ?_
  split
  · exact .ret hrow
  · exact .raise _

theorem steady_download (ht : context.tenant.id = D.tenant) (hm : D.Member context.membership)
    (ticketId attachmentId : UUID) :
    D.Steady (fun _ => True) (T.download context ticketId attachmentId) := by
  refine .bind (steady_downloadAttachment T ht hm ticketId attachmentId) fun x hrow => ?_
  refine .bind (K := fun _ => True) (.bind (steady_checkKey _) fun _ _ => ?_) fun content _ =>
    .ret trivial
  refine .bind (steady_perform (o := Op.readObject _) (hrow.fits.2.mp hrow.mine) fun _ _ h => h)
    fun content _ => ?_
  rcases content with _ | content
  · exact .raise _
  · exact .ret trivial

end Collaboration

end Tenancy

end Ticketing
