import Ticketing.Concurrency.History
import Ticketing.Concurrency.RowRules
import Ticketing.Services.Tenant

/-!
# Tenants, members and roles under concurrent calls

The pool of `TenantService.create`, `invite`, `accept_invitation`, `leave` and
`RBACService.assign_roles` calls (`AdminCall`), by any users with any arguments. The rest of the
system may change every table but the six the calls are about (`AdministrationElsewhere`).

* `Commits` is what each of them may commit, as a relation between the committed rows and the
  writes: what the call has checked and locked makes it true at the moment of the commit, whatever
  others have committed since. `NewTenant` is what `create` inserts, `replaceRoles` the role rows
  of a membership deleted and those of a request inserted.
* `Kept` is what no such commit takes away: tenants, roles and their grants, and who is a member
  of what.
* `rowRules inv` are the rules of `RowRules.lean` at these tables, for any invariant of the rows
  and the history.

Results:
* `administers`: the walk of the five programs, once for every invariant that `Commits` keeps
  (`CommitOk`).
* `reached`: such an invariant holds in every reachable pool.

Left out: what a call that raises leaves behind. It has committed nothing, or has lost the answer
to its commit.
-/

namespace Ticketing

open Lib (Prog Store System Outline)
open Lib.Outline (Triple Assertion post)

/-- The calls that change tenants, their members or the members' roles. -/
inductive AdminCall
  | create (owner : User) (name slug : String)
  | invite (context : CurrentTenant) (email : String)
  | acceptInvitation (user : User) (tenantId : UUID)
  | leave (user : User) (tenantId : UUID)
  | assignRoles (tenantId membershipId : UUID) (roleIds : List UUID)
  deriving DecidableEq

namespace AdminCall

abbrev Ret : AdminCall → Type
  | create .. => CurrentTenant
  | invite .. => Membership
  | acceptInvitation .. => CurrentTenant
  | leave .. => Unit
  | assignRoles .. => Unit

def prog (P : Platform) (S : RBACService) : (c : AdminCall) → Service c.Ret
  | create owner name slug => TenantService.create P owner name slug
  | invite context email => TenantService.invite P S context email
  | acceptInvitation user tenantId => TenantService.acceptInvitation S user tenantId
  | leave user tenantId => TenantService.leave S user tenantId
  | assignRoles tenantId membershipId roleIds => S.assignRoles tenantId membershipId roleIds

end AdminCall

def adminCalls (P : Platform) (S : RBACService) : Calls where
  Call := AdminCall
  Ret := AdminCall.Ret
  prog := AdminCall.prog P S

/-- The rest of the system moves: other tables, the cache, the clock. -/
abbrev AdministrationElsewhere : World → World → Prop :=
  Untouched [.tenants, .memberships, .permissions, .roles, .rolePermissions, .membershipRoles]

/-! ## What a call commits -/

namespace Administration

/-- The rows of a new tenant. -/
structure NewTenant where
  tenant : Tenant
  owner : Membership
  admin : Role
  agent : Role
  requester : Role
  assigned : MembershipRole
  grants : List RolePermission

namespace NewTenant

def roles (n : NewTenant) : List Role := [n.admin, n.agent, n.requester]

def writes (n : NewTenant) : List Write :=
  [.insert .tenants n.tenant, .insert .memberships n.owner, .insert .roles n.admin,
    .insert .roles n.agent, .insert .roles n.requester, .insert .membershipRoles n.assigned] ++
    n.grants.map (.insert .rolePermissions)

/-- What a role is granted by default. -/
def defaultGrants (permissions : PermissionCode → Option Permission) (role : Role) :
    List (UUID × Option UUID) :=
  (RBACService.defaultCodes role.name).map fun code => (role.id, (permissions code).map (·.id))

/-- The rows of a new tenant of `user`, for the committed rows `db`. -/
structure Fits (n : NewTenant) (user : User) (db : Db) : Prop where
  tenant : n.tenant.ownerUserId = user.id
  owner : n.owner.tenantId = n.tenant.id ∧ n.owner.userId = user.id ∧ n.owner.status = .active ∧
    n.owner.joinedAt ≠ none
  roles : n.roles.map (fun r => (r.tenantId, r.name, r.isSystem)) =
    [(n.tenant.id, "tenant_admin", true), (n.tenant.id, "agent", true),
      (n.tenant.id, "requester", true)]
  assigned : n.assigned.membershipId = n.owner.id ∧ n.assigned.roleId = n.admin.id
  grants : ∃ permissions, RBACService.byCode (db .permissions) = .ok permissions ∧
    n.grants.map (fun g => (g.roleId, some g.permissionId)) =
      defaultGrants permissions n.admin ++ defaultGrants permissions n.agent
  newTenant : db.present (.row .tenants n.tenant.id) = false
  newOwner : ∀ k ∈ Table.keys .memberships n.owner, db.present k = false
  newRoles : ∀ r ∈ n.roles, db.present (.row .roles r.id) = false
  distinct : (n.roles.map (·.id)).Nodup

end NewTenant

/-- The roles of a membership are replaced by those of `rows`. -/
def replaceRoles (membershipId : UUID) (ids : List UUID) (rows : List MembershipRole) :
    List Write :=
  .delete .membershipRoles (·.membershipId = membershipId) ids ::
    rows.map (.insert .membershipRoles)

/-- `row` gives the membership the tenant's role `requester`. -/
def Requests (db : Db) (tenantId membershipId : UUID) (row : MembershipRole) : Prop :=
  row.membershipId = membershipId ∧ ∃ role ∈ db .roles, role.id = row.roleId ∧
    role.tenantId = tenantId ∧ role.name = "requester"

/-- What a call may commit to the rows `db`. -/
inductive Commits : AdminCall → Db → List Write → Prop
  | create {user : User} {name slug : String} {db : Db} (n : NewTenant) (h : n.Fits user db) :
    Commits (.create user name slug) db n.writes
  | invite {context : CurrentTenant} {email : String} {db : Db} (m : Membership) (ids : List UUID)
    (row : MembershipRole) (hm : m.tenantId = context.tenant.id ∧ m.status = .invited ∧
      m.joinedAt = none) (hnew : ∀ k ∈ Table.keys .memberships m, db.present k = false)
    (hrow : Requests db context.tenant.id m.id row) :
    Commits (.invite context email) db (.insert .memberships m :: replaceRoles m.id ids [row])
  | reinvite {context : CurrentTenant} {email : String} {db : Db} (loaded m : Membership)
    (ids : List UUID) (row : MembershipRole) (hl : loaded ∈ db .memberships)
    (ht : loaded.tenantId = context.tenant.id) (hleft : loaded.status = .left)
    (hm : m.status = .invited ∧ m.joinedAt = none)
    (hrow : Requests db context.tenant.id loaded.id row) :
    Commits (.invite context email) db
      (.update .memberships loaded m :: replaceRoles loaded.id ids [row])
  | acceptInvitation {user : User} {tenantId : UUID} {db : Db} (loaded m : Membership)
    (hl : loaded ∈ db .memberships) (hinvited : loaded.status = .invited)
    (hm : m.status = .active ∧ m.joinedAt ≠ none) :
    Commits (.acceptInvitation user tenantId) db [.update .memberships loaded m]
  | leave {user : User} {tenantId : UUID} {db : Db} (loaded m : Membership) (tenant : Tenant)
    (hl : loaded ∈ db .memberships) (hactive : loaded.status = .active)
    (hloaded : loaded.userId = user.id ∧ loaded.tenantId = tenantId)
    (ht : tenant ∈ db .tenants) (hid : tenant.id = tenantId)
    (howner : tenant.ownerUserId ≠ user.id)
    (hm : m.status = .left ∧ m.joinedAt = loaded.joinedAt) :
    Commits (.leave user tenantId) db [.update .memberships loaded m]
  | assignRoles {tenantId membershipId : UUID} {roleIds : List UUID} {db : Db} (tenant : Tenant)
    (membership : Membership) (roles : List Role) (ids : List UUID) (rows : List MembershipRole)
    (ht : tenant ∈ db .tenants) (hid : tenant.id = tenantId) (hm : db.HasMember membership)
    (hmid : membership.id = membershipId) (hmt : membership.tenantId = tenantId)
    (hsub : roles.Sublist (db .roles))
    (hroles : ∀ r ∈ roles, r.tenantId = tenantId ∧ r.id ∈ roleIds)
    (hall : roles.length = roleIds.dedup.length)
    (howner : membership.userId = tenant.ownerUserId → ∃ r ∈ roles, r.name = "tenant_admin")
    (hrows : rows.map (fun x => (x.membershipId, x.roleId)) =
      roles.map fun r => (membershipId, r.id)) :
    Commits (.assignRoles tenantId membershipId roleIds) db (replaceRoles membershipId ids rows)

/-- What nobody takes from the rows: tenants, roles and permissions stay, and members stay who they
are. -/
structure Kept (db db' : Db) : Prop where
  tenants : db .tenants <+: db' .tenants
  roles : db .roles <+: db' .roles
  permissions : db' .permissions = db .permissions
  members : ∀ m, db.HasMember m → db'.HasMember m

theorem Kept.refl (db : Db) : Kept db db :=
  ⟨List.prefix_rfl, List.prefix_rfl, rfl, fun _ h => h⟩

theorem Kept.trans {db db' db'' : Db} (h : Kept db db') (h' : Kept db' db'') : Kept db db'' :=
  ⟨h.tenants.trans h'.tenants, h.roles.trans h'.roles, h'.permissions.trans h.permissions,
    fun m hm => h'.members m (h.members m hm)⟩

/-- A write that takes nothing away but role assignments. -/
def Keeping : Write → Prop
  | .insert t _ => t ≠ .permissions
  | .update t _ _ => t = .memberships
  | .delete t _ _ => t = .membershipRoles
  | .revokeAllActive .. => False

theorem kept_rows (t : Table) (row : t.Row) (db : Db) (t' : Table) :
    db t' <+: (Write.insert t row).apply db t' := by
  by_cases h : t' = t
  · subst h
    rw [Write.apply_insert]
    exact List.prefix_append ..
  · have hsame : (Write.insert t row).apply db t' = db t' := Write.apply_other _ db h
    exact hsame ▸ List.prefix_rfl

theorem kept_insert {t : Table} (ht : t ≠ .permissions) (row : t.Row) (db : Db) :
    Kept db ((Write.insert t row).apply db) := by
  have grows := kept_rows t row db
  refine ⟨grows .tenants, grows .roles, Write.apply_other _ db (Ne.symm ht), fun m ⟨x, hx, hs⟩ =>
    ?_⟩
  exact ⟨x, (grows .memberships).subset hx, hs⟩

theorem kept_apply {w : Write} (h : Keeping w) (db : Db) : Kept db (w.apply db) := by
  rcases w with ⟨t, row⟩ | ⟨t, l, c⟩ | ⟨t, p, ids⟩ | _
  · exact kept_insert h row db
  · obtain rfl : t = .memberships := h
    have other (t : Table) (ht : t ≠ .memberships) :
        (Write.update .memberships l c).apply db t = db t := Write.apply_other _ db ht
    refine ⟨other .tenants (by decide) ▸ List.prefix_rfl, other .roles (by decide) ▸
      List.prefix_rfl,
      other .permissions (by decide), fun m ⟨x, hx, hs⟩ => ?_⟩
    unfold Db.HasMember
    rw [Write.apply_update]
    refine ⟨_, List.mem_map_of_mem hx, ?_⟩
    split
    · exact hs
    · exact hs
  · obtain rfl : t = .membershipRoles := h
    have other (t : Table) (ht : t ≠ .membershipRoles) :
        (Write.delete .membershipRoles p ids).apply db t = db t := Write.apply_other _ db ht
    exact ⟨other .tenants (by decide) ▸ List.prefix_rfl, other .roles (by decide) ▸ List.prefix_rfl,
      other .permissions (by decide), fun m hm => by
        unfold Db.HasMember
        rwa [other .memberships (by decide)]⟩
  · exact h.elim

theorem kept_foldl {ws : List Write} (h : ∀ w ∈ ws, Keeping w) (db : Db) :
    Kept db (ws.foldl (fun db w => w.apply db) db) := by
  induction ws generalizing db with
  | nil => exact .refl db
  | cons w ws ih =>
    exact (kept_apply (h w List.mem_cons_self) db).trans
      (ih (fun w' hw' => h w' (List.mem_cons_of_mem w hw')) _)

theorem keeping_replaceRoles (membershipId : UUID) (ids : List UUID) (rows : List MembershipRole) :
    ∀ w ∈ replaceRoles membershipId ids rows, Keeping w := by
  intro w hw
  rcases List.mem_cons.mp hw with rfl | hw
  · rfl
  · obtain ⟨row, -, rfl⟩ := List.mem_map.mp hw
    exact nofun

theorem Commits.keeping {c : AdminCall} {db : Db} {ws : List Write} (h : Commits c db ws) :
    ∀ w ∈ ws, Keeping w := by
  cases h with
  | create n =>
    intro w hw
    rcases List.mem_append.mp hw with hw | hw
    · simp only [List.mem_cons, List.not_mem_nil, or_false] at hw
      rcases hw with rfl | rfl | rfl | rfl | rfl | rfl <;> exact nofun
    · obtain ⟨g, -, rfl⟩ := List.mem_map.mp hw
      exact nofun
  | invite m ids row =>
    exact List.forall_mem_cons.mpr ⟨nofun, keeping_replaceRoles _ _ _⟩
  | reinvite loaded m ids row =>
    exact List.forall_mem_cons.mpr ⟨rfl, keeping_replaceRoles _ _ _⟩
  | acceptInvitation loaded m => exact List.forall_mem_singleton.mpr rfl
  | leave loaded m tenant => exact List.forall_mem_singleton.mpr rfl
  | assignRoles tenant membership roles ids rows => exact keeping_replaceRoles _ _ _

/-! ## The walk of a call -/

/-- An invariant of the committed rows and the history, and what the calls keep. -/
abbrev rowRules (inv : Db → List (Nat × List Write) → Prop) : RowRules :=
  ⟨inv, Kept, Kept.refl, Kept.trans⟩

variable {inv : Db → List (Nat × List Write) → Prop} {i : Nat} {admits : Admission}
variable {α β : Type}

variable (inv i) in
abbrev Knows := (rowRules inv).Knows i

open RowRules hiding Walks Knows elsewhere

/-- From a session that knows `X` and has written `φ`, `p` keeps the invariant. -/
abbrev Walks (admits : Admission) (X : Knows inv i) (φ : List Write → Prop) (p : Service α) :
    Prop := RowRules.Walks admits X φ p fun _ => .true

section Rules

open WorldOutline (Before Own)

variable {X : Knows inv i} {φ ψ : List Write → Prop} {ρ : Exn → Prop}

theorem drawing (hX : Own X) : RowRules.Walks admits X φ Service.uuid4 fun _ => Before X φ :=
  passing hX trivial

/-- A membership is read and locked. -/
theorem lockingMember (userId tenantId : UUID) :
    RowRules.Walks admits (.true : Knows inv i) (· = [])
      (Service.selectForUpdate .memberships (TenantService.findMembership userId tenantId))
      fun found => Before ((lockedIf .memberships found).and
        (.pure (∀ m, found = some m → m.userId = userId ∧ m.tenantId = tenantId))) (· = []) := by
  refine (locking (χ := fun m : Membership => m.userId = userId ∧ m.tenantId = tenantId)
    WorldOutline.own_true fun db m h => ⟨List.mem_of_find?_eq_some h, ?_⟩).conseq
    (fun _ _ h => h) (fun _ W _ h => ⟨h.1, ⟨h.2.1.1.2, h.2.1.2⟩, h.2.2⟩) fun _ _ _ h => h
  have := List.find?_some h
  simpa only [Bool.decide_and, Bool.and_eq_true, decide_eq_true_eq] using this

/-- After its commit a call only reads and clears the cache. -/
theorem resting {p : Service α} (hp : Service.Quiet ρ p) :
    Triple (callStep admits i) (.true : Knows inv i) p (fun _ => .true) silent :=
  WorldOutline.quiet hp (fun _ ho => ⟨ho.quiet, trivial⟩)
    ⟨fun _ _ _ => trivial, fun _ _ _ _ => trivial, fun _ _ _ _ _ _ _ => trivial⟩

/-- Whatever call `c` of thread `i` may commit keeps the invariant. -/
def CommitOk (inv : Db → List (Nat × List Write) → Prop) (admits : Admission) (i : Nat)
    (c : AdminCall) : Prop :=
  ∀ (W : World) (ch : Choice) (ws : List Write), (W.store.sessions i).writes = ws →
    inv W.store.db W.store.wal → Commits c W.store.db ws → admits i W .commit ch →
    inv (ws.foldl (fun db w => w.apply db) W.store.db) (W.store.wal ++ [(i, ws)])

/-- The commit, and what follows it. -/
theorem walks_commit {c : AdminCall} (hc : CommitOk inv admits i c)
    (hready : ∀ W, (rowRules inv).outline.outline.inv W → X W → φ (W.store.sessions i).writes →
      Commits c W.store.db (W.store.sessions i).writes) {k : Unit → Service α}
    (hk : Service.Quiet ρ (k ())) : Walks admits X φ (Service.commit >>= k) :=
  Triple.bind (committing (fun W ch hi h hadm =>
      have hcommits := hready W hi h.2.1 h.2.2
      ⟨kept_foldl hcommits.keeping _, hc W ch _ rfl hi.2 hcommits hadm⟩)
    fun _ _ _ _ => trivial) fun _ => resting hk

end Rules

/-- A key that inserts leave absent was absent before, and is none of theirs. -/
theorem absent_of_inserts {ws : List Write} (h : ∀ w ∈ ws, ∃ t r, w = .insert t r) {k : Key}
    {db : Db} (hk : Db.present k (ws.foldl (fun db w => w.apply db) db) = false) :
    Db.present k db = false ∧ ∀ w ∈ ws, k ∉ w.keys := by
  induction ws generalizing db with
  | nil => exact ⟨hk, fun _ hw => absurd hw List.not_mem_nil⟩
  | cons w ws ih =>
    obtain ⟨t, row, rfl⟩ := h w List.mem_cons_self
    obtain ⟨hafter, hws⟩ := ih (fun w' hw' => h w' (List.mem_cons_of_mem _ hw')) hk
    rw [Db.present_eq_false] at hafter
    have hrow : k ∉ t.keys row := fun hmem => by
      obtain rfl : k.table = t := Table.table_of_mem_keys hmem
      refine hafter row ?_ hmem
      show row ∈ (Write.insert k.table row).apply db k.table
      rw [Write.apply_insert]
      exact List.mem_append_right _ (List.mem_singleton_self row)
    refine ⟨Db.present_eq_false.mpr fun r hr => hafter r ?_, List.forall_mem_cons.mpr ⟨hrow, hws⟩⟩
    exact (kept_rows t row db k.table).subset hr

/-! ## The five calls -/

section Calls

open WorldOutline (Before Own own_true local_before)

variable {P : Platform} {S : RBACService} {X : Knows inv i} {φ : List Write → Prop}
variable {ρ : Exn → Prop}

/-- The tenant a query has found. -/
def tenantIf (found : Option Tenant) (tenantId : UUID) : Knows inv i :=
  fact (fun db => ∀ t, found = some t → t ∈ db .tenants ∧ t.id = tenantId)
    fun _ _ hk h t ht => ⟨hk.tenants.subset (h t ht).1, (h t ht).2⟩

theorem own_tenantIf (found : Option Tenant) (tenantId : UUID) :
    Own (tenantIf found tenantId : Knows inv i) := own_fact _ _

theorem findingTenant (hX : Own X) (tenantId : UUID) :
    Triple (callStep admits i) (Before X (· = [])) (Service.get .tenants tenantId)
      (fun found => Before (X.and (tenantIf found tenantId)) (· = [])) silent :=
  finding hX (fun _ => own_tenantIf _ _) fun W _ _ hws t ht => by
    have ht : Db.get (W.store.view schema i) .tenants tenantId = some t := ht
    rw [WorldOutline.view_eq hws] at ht
    exact ⟨List.mem_of_find?_eq_some ht, Db.id_of_get ht⟩

/-- The delete of a membership's roles. -/
theorem deleting (hX : Own X) (membershipId : UUID) : Triple (callStep admits i) (Before X φ)
    (Service.delete .membershipRoles (·.membershipId = membershipId)) (fun _ => Before X fun ws =>
      ∃ ws₀ ids, φ ws₀ ∧ ws = ws₀ ++ [.delete .membershipRoles (·.membershipId = membershipId) ids])
    silent :=
  Triple.bind (reading (ρ := fun _ => True) hX (.perform trivial)) fun ids =>
    writing hX fun ws _ h => ⟨ws, ids, h, rfl⟩

/-- The flush of rows the server fills nothing in. -/
theorem insertingAll (hX : Own X) {t : Table} (ht : ∀ τ r, t.stampInsert τ r = r)
    (rows : List t.Row) : Triple (callStep admits i) (Before X φ) (RBACService.insertAll t rows)
      (fun _ => Before X fun ws => ∃ ws₀, φ ws₀ ∧ ws = ws₀ ++ rows.map (.insert t)) silent := by
  induction rows generalizing φ with
  | nil => exact Triple.ret fun W _ h => ⟨h.1, h.2.1, _, h.2.2, (List.append_nil _).symm⟩
  | cons row rows ih =>
    refine Triple.bind (writing (ψ := fun ws => ∃ ws₀, φ ws₀ ∧ ws = ws₀ ++ [.insert t row]) hX
      fun ws τ h => ⟨ws, h, by rw [Write.stamp, ht]⟩) fun _ => ?_
    refine ih.conseq (fun _ _ h => h) (fun _ W _ h => ⟨h.1, h.2.1, ?_⟩) fun _ _ _ h => h
    obtain ⟨_, ⟨ws₀, hφ, rfl⟩, hws⟩ := h.2.2
    exact ⟨ws₀, hφ, by rw [hws, List.append_assoc]; rfl⟩

theorem addingMembershipRoles (hX : Own X) (membershipId : UUID) (roleIds : List UUID) :
    Triple (callStep admits i) (Before X φ) (RBACService.addMembershipRoles membershipId roleIds)
      (fun rows => (Before X φ).and (.pure (rows.map (fun x => (x.membershipId, x.roleId)) =
        roleIds.map fun roleId => (membershipId, roleId)))) silent := by
  induction roleIds with
  | nil => exact Triple.ret fun W _ h => ⟨h, rfl⟩
  | cons roleId rest ih =>
    refine Triple.bind (drawing hX) fun id => Triple.bind ih fun rows =>
      Triple.assume fun hrows => Triple.ret fun W _ h => ⟨h, ?_⟩
    show List.map _ (_ :: rows) = _
    rw [List.map_cons, hrows, List.map_cons]

theorem acceptInvitation {user : User} {tenantId : UUID}
    (hc : CommitOk inv admits i (.acceptInvitation user tenantId)) :
    Walks admits (.true : Knows inv i) (· = []) (TenantService.acceptInvitation S user
    tenantId) := by
  refine Triple.bind (lockingMember user.id tenantId) fun found => ?_
  rcases found with _ | loaded
  · exact walks_raise
  have hown : Own ((lockedIf .memberships (some loaded) : Knows inv i).and
      (.pure (∀ m, some loaded = some m → m.userId = user.id ∧ m.tenantId = tenantId))) :=
    Own.and (own_lockedIf _ _) own_pure
  refine walks_check fun hinvited => ?_
  refine Triple.bind (reading (ρ := fun _ => True) hown (.perform trivial)) fun tenant => ?_
  rcases tenant with _ | tenant
  · exact walks_raise
  refine walks_check fun _ => ?_
  refine Triple.bind (reading (ρ := fun _ => True) hown (.perform trivial)) fun now => ?_
  have hinvited : loaded.status = .invited := not_not.mp hinvited
  have hne : loaded ≠ { loaded with status := .active, joinedAt := some now } := fun he => by
    have := congrArg Membership.status he
    rw [hinvited] at this
    cases this
  rw [Service.update, if_neg hne]
  refine Triple.bind (writing (ψ := fun ws => ∃ m : Membership,
    ws = [.update .memberships loaded m] ∧ m.status = .active ∧ m.joinedAt ≠ none) hown ?_)
    fun _ => ?_
  · rintro _ τ rfl
    exact ⟨_, rfl, rfl, nofun⟩
  refine walks_commit (ρ := (· = .invalidRequest)) hc (fun W hi hX hφ => ?_) ?_
  · obtain ⟨m, hws, hactive, hjoined⟩ := hφ
    rw [hws]
    exact .acceptInvitation loaded m hX.1.1 hinvited ⟨hactive, hjoined⟩
  · exact .bind (S.quiet_invalidatePermissions _ _) fun _ =>
      .bind (Service.quiet_refresh _ _ rfl) fun _ => trivial

theorem leave {user : User} {tenantId : UUID}
    (hc : CommitOk inv admits i (.leave user tenantId)) :
    Walks admits (.true : Knows inv i) (· = []) (TenantService.leave S user tenantId) := by
  refine Triple.bind (lockingMember user.id tenantId) fun found => ?_
  rcases found with _ | loaded
  · exact walks_raise
  have hown : Own ((lockedIf .memberships (some loaded) : Knows inv i).and
      (.pure (∀ m, some loaded = some m → m.userId = user.id ∧ m.tenantId = tenantId))) :=
    Own.and (own_lockedIf _ _) own_pure
  refine walks_check fun hactive => ?_
  refine Triple.bind (findingTenant hown tenantId) fun tenant => ?_
  rcases tenant with _ | tenant
  · exact walks_raise
  have hownT : Own (((lockedIf .memberships (some loaded) : Knows inv i).and
      (.pure (∀ m, some loaded = some m → m.userId = user.id ∧ m.tenantId = tenantId))).and
        (tenantIf (some tenant) tenantId)) :=
    Own.and hown (own_tenantIf _ _)
  refine walks_check fun _ => walks_check fun howner => ?_
  have hactive : loaded.status = .active := not_not.mp hactive
  have hne : loaded ≠ { loaded with status := .left } := fun he => by
    have := congrArg Membership.status he
    rw [hactive] at this
    cases this
  rw [Service.update, if_neg hne]
  refine Triple.bind (writing (ψ := fun ws => ∃ m : Membership,
    ws = [.update .memberships loaded m] ∧ m.status = .left ∧ m.joinedAt = loaded.joinedAt)
    hownT ?_) fun _ => ?_
  · rintro _ τ rfl
    exact ⟨_, rfl, rfl, rfl⟩
  refine walks_commit (ρ := (· = .invalidRequest)) hc (fun W hi hX hφ => ?_)
    (S.quiet_invalidatePermissions _ _)
  obtain ⟨m, hws, hleft, hjoined⟩ := hφ
  rw [hws]
  exact .leave loaded m tenant hX.1.1.1 hactive (hX.1.2 _ rfl) (hX.2 _ rfl).1 (hX.2 _ rfl).2 howner
    ⟨hleft, hjoined⟩

/-- The member a query has found. -/
def memberIf (found : Option Membership) (membershipId : UUID) : Knows inv i :=
  fact (fun db => ∀ m, found = some m → db.HasMember m ∧ m.id = membershipId)
    fun _ _ hk h m hm => ⟨hk.members m (h m hm).1, (h m hm).2⟩

theorem own_memberIf (found : Option Membership) (membershipId : UUID) :
    Own (memberIf found membershipId : Knows inv i) := own_fact _ _

/-- The roles a query has found. -/
def rolesOf (roles : List Role) (tenantId : UUID) (roleIds : List UUID) : Knows inv i :=
  fact (fun db => roles.Sublist (db .roles) ∧ ∀ r ∈ roles, r.tenantId = tenantId ∧ r.id ∈ roleIds)
    fun _ _ hk h => ⟨h.1.trans hk.roles.sublist, h.2⟩

theorem own_rolesOf (roles : List Role) (tenantId : UUID) (roleIds : List UUID) :
    Own (rolesOf roles tenantId roleIds : Knows inv i) := own_fact _ _

theorem assignRoles {tenantId membershipId : UUID} {roleIds : List UUID}
    (hc : CommitOk inv admits i (.assignRoles tenantId membershipId roleIds)) :
    Walks admits (.true : Knows inv i) (· = []) (S.assignRoles tenantId membershipId roleIds) := by
  refine Triple.bind (findingTenant own_true tenantId) fun tenant => ?_
  refine Triple.bind (finding (Y := fun found => memberIf found membershipId)
    (Own.and own_true (own_tenantIf _ _)) (fun _ => own_memberIf _ _) fun W _ _ hws m hm => ?_)
    fun membership => ?_
  · have hm : Db.get (W.store.view schema i) .memberships membershipId = some m := hm
    rw [WorldOutline.view_eq hws] at hm
    exact ⟨Db.hasMember_of_mem (List.mem_of_find?_eq_some hm), Db.id_of_get hm⟩
  rcases tenant with _ | tenant
  · exact walks_raise
  rcases membership with _ | membership
  · exact walks_raise
  refine walks_check fun hmt => ?_
  refine Triple.bind (finding (Y := fun roles => rolesOf roles tenantId roleIds)
    (Own.and (Own.and own_true (own_tenantIf _ _)) (own_memberIf _ _)) (fun _ => own_rolesOf _ _ _)
    fun W _ _ hws => ?_) fun roles => ?_
  · rw [WorldOutline.view_eq hws]
    refine ⟨List.filter_sublist, fun r hr => ?_⟩
    simpa using (List.mem_filter.mp hr).2
  refine walks_check fun hall => walks_check fun howner => ?_
  have hown : Own ((((.true : Knows inv i).and (tenantIf (some tenant) tenantId)).and
      (memberIf (some membership) membershipId)).and (rolesOf roles tenantId roleIds)) :=
    Own.and (Own.and (Own.and own_true (own_tenantIf _ _)) (own_memberIf _ _)) (own_rolesOf _ _ _)
  refine Triple.bind (deleting hown membershipId) fun _ => ?_
  refine Triple.bind (addingMembershipRoles hown membershipId _) fun rows =>
    Triple.assume fun hrows => ?_
  refine Triple.bind (insertingAll (t := .membershipRoles) hown (fun _ _ => rfl) rows) fun _ => ?_
  refine walks_commit (ρ := (· = .invalidRequest)) hc (fun W hi hX hφ => ?_)
    (S.quiet_invalidatePermissions _ _)
  obtain ⟨_, ⟨_, ids, rfl, rfl⟩, hws⟩ := hφ
  obtain ⟨⟨⟨-, htenant⟩, hmember⟩, hsub, hroles⟩ := hX
  rw [hws]
  refine .assignRoles tenant membership roles ids rows (htenant _ rfl).1 (htenant _ rfl).2
    (hmember _ rfl).1 (hmember _ rfl).2 (not_not.mp hmt) hsub hroles (not_not.mp hall)
    (fun ho => ?_)
    (by rw [hrows, List.map_map]; rfl)
  by_contra hnone
  refine howner ⟨ho, fun hany => hnone ?_⟩
  simpa using hany

def requesting (tenantId membershipId : UUID) (row : MembershipRole) : Knows inv i :=
  fact (fun db => Requests db tenantId membershipId row)
    fun _ _ hk ⟨hm, r, hr, h⟩ => ⟨hm, r, hk.roles.subset hr, h⟩

theorem own_requesting (tenantId membershipId : UUID) (row : MembershipRole) :
    Own (requesting tenantId membershipId row : Knows inv i) := own_fact _ _

/-- The role `requester` is read and the membership's roles are deleted. -/
theorem resetToRequester (hX : Own X) (tenantId : UUID) (m : Membership)
    (hroles : ∀ ws, φ ws → ∀ w ∈ ws, w.table = .memberships) :
    Triple (callStep admits i) (Before X φ) (RBACService.resetToRequester tenantId m)
      (fun row => Before (X.and (requesting tenantId m.id row)) fun ws => ∃ ws₀ ids, φ ws₀ ∧
          ws = ws₀ ++ [.delete .membershipRoles (·.membershipId = m.id) ids]) silent := by
  refine Triple.bind (finding (Y := fun found => fact (K := rowRules inv)
    (fun db => ∀ r, found = some r →
      r ∈ db .roles ∧ r.tenantId = tenantId ∧ r.name = "requester")
    fun _ _ hk h r hr => ⟨hk.roles.subset (h r hr).1, (h r hr).2⟩) hX (fun _ => own_fact _ _)
    fun W _ _ hws r hr => ?_) fun role => ?_
  · have hview : W.store.view schema i .roles = W.store.db .roles :=
      Write.foldl_other (fun w hw => by rw [hroles _ hws w hw]; decide) _
    rw [hview] at hr
    refine ⟨List.mem_of_find?_eq_some hr, ?_⟩
    have := List.find?_some hr
    simpa using this
  rcases role with _ | role
  · exact walks_raise
  refine Triple.bind (deleting (Own.and hX (own_fact _ _)) m.id) fun _ => ?_
  refine Triple.bind (drawing (Own.and hX (own_fact _ _))) fun id => ?_
  exact Triple.ret fun W _ h => ⟨h.1, ⟨h.2.1.1, rfl, role, (h.2.1.2 role rfl).1, rfl,
    (h.2.1.2 role rfl).2⟩, h.2.2⟩

/-- What `invite` does once it has the membership. -/
theorem invite_rest {c : AdminCall} {tenantId : UUID} {m : Membership} (hX : Own X)
    (hc : CommitOk inv admits i c) (htable : ∀ ws, φ ws → ∀ w ∈ ws, w.table = .memberships)
    (hready : ∀ W ws ids row, (rowRules inv).outline.outline.inv W → X W → φ ws →
      Requests W.store.db tenantId m.id row →
      Commits c W.store.db (ws ++ replaceRoles m.id ids [row])) :
    Walks admits X φ (do
      let assigned ← RBACService.resetToRequester tenantId m
      Service.insert .membershipRoles assigned
      Service.commit
      S.invalidatePermissions tenantId m.id
      Service.refresh .memberships m.id) := by
  refine Triple.bind (resetToRequester hX tenantId m htable) fun row => ?_
  have hown : Own (X.and (requesting tenantId m.id row)) := Own.and hX (own_requesting _ _ _)
  refine Triple.bind (writing (ψ := fun ws => ∃ ws₀ ids, φ ws₀ ∧
    ws = ws₀ ++ replaceRoles m.id ids [row]) hown ?_) fun _ => ?_
  · rintro _ τ ⟨ws₀, ids, h, rfl⟩
    exact ⟨ws₀, ids, h, by rw [List.append_assoc]; rfl⟩
  refine walks_commit (ρ := (· = .invalidRequest)) hc (fun W hi hX hφ => ?_)
    (.bind (S.quiet_invalidatePermissions _ _) fun _ => Service.quiet_refresh _ _ rfl)
  obtain ⟨ws₀, ids, h, hws⟩ := hφ
  rw [hws]
  exact hready W ws₀ ids row hi hX.1 h hX.2

/-- The inserts of `rows`, stamped, no two of them under one key. -/
def Laid (rows : List (Σ t : Table, t.Row)) (ws : List Write) : Prop :=
  List.Forall₂ (fun r w => ∃ τ, w = .insert r.1 (r.1.stampInsert τ r.2)) rows ws ∧
    ws.Pairwise fun w w' => ∀ k ∈ w'.keys, k ∉ w.keys

@[simp] theorem laid_nil {ws : List Write} : Laid [] ws ↔ ws = [] :=
  ⟨fun h => List.forall₂_nil_left_iff.mp h.1, fun h => h ▸ ⟨.nil, .nil⟩⟩

theorem laid_cons {r : Σ t : Table, t.Row} {rows : List (Σ t : Table, t.Row)} {ws : List Write} :
    Laid (r :: rows) ws ↔ ∃ τ ws', ws = .insert r.1 (r.1.stampInsert τ r.2) :: ws' ∧
      (∀ w ∈ ws', ∀ k ∈ w.keys, k ∉ r.1.keys r.2) ∧ Laid rows ws' := by
  constructor
  · rintro ⟨h, hk⟩
    obtain ⟨_, ws', ⟨τ, rfl⟩, hrows, rfl⟩ := List.forall₂_cons_left_iff.mp h
    rw [List.pairwise_cons] at hk
    exact ⟨τ, ws', rfl, fun w hw k hkw hkr => hk.1 w hw k hkw (by simpa [Write.keys] using hkr),
      hrows, hk.2⟩
  · rintro ⟨τ, ws', rfl, hk, hrows, hpair⟩
    exact ⟨.cons ⟨τ, rfl⟩ hrows, List.pairwise_cons.mpr
      ⟨fun w hw k hkw hkr => hk w hw k hkw (by simpa [Write.keys] using hkr), hpair⟩⟩

theorem Laid.inserts {rows : List (Σ t : Table, t.Row)} {ws : List Write} (h : Laid rows ws) :
    ∀ w ∈ ws, ∃ t r, w = Write.insert t r := by
  obtain ⟨h, -⟩ := h
  induction h with
  | nil => exact fun _ hw => absurd hw List.not_mem_nil
  | cons hr _ ih =>
    obtain ⟨τ, rfl⟩ := hr
    exact List.forall_mem_cons.mpr ⟨⟨_, _, rfl⟩, ih⟩

theorem Laid.table {rows : List (Σ t : Table, t.Row)} {ws : List Write} (h : Laid rows ws) :
    ∀ w ∈ ws, ∃ r ∈ rows, w.table = r.1 := by
  obtain ⟨h, -⟩ := h
  induction h with
  | nil => exact fun _ hw => absurd hw List.not_mem_nil
  | @cons r w rows ws hr _ ih =>
    obtain ⟨τ, rfl⟩ := hr
    refine List.forall_mem_cons.mpr ⟨⟨r, List.mem_cons_self, rfl⟩, fun w' hw' => ?_⟩
    obtain ⟨r', hr', he⟩ := ih w' hw'
    exact ⟨r', List.mem_cons_of_mem _ hr', he⟩

/-- The insert of a row under keys no committed row has. -/
theorem inserting (hX : Own X) {rows : List (Σ t : Table, t.Row)} {t : Table} (row : t.Row) :
    Triple (callStep admits i) (Before X (Laid rows)) (Service.insert t row)
      (fun _ => Before (X.and (reserved (t.keys row))) (Laid (rows ++ [⟨t, row⟩]))) silent :=
  WorldOutline.write (local_before hX fun _ _ _ => trivial)
    (fun W W' τ _ h hw hs => by
      have habsent (k : Key) (hk : k ∈ t.keys row) :=
        absent_of_inserts (Laid.inserts h.2.2) (hw.fresh k hk)
      refine ⟨WorldOutline.noCommit_local hw.toLocal h.1, ⟨hX hw.toLocal hw.own hs h.2.1,
        fun k hk => ⟨hw.keys k hk, ?_⟩⟩, ?_⟩
      · rw [hw.db]
        exact (habsent k hk).1
      · show Laid _ (W'.store.sessions i).writes
        rw [hw.writes]
        refine ⟨List.rel_append h.2.2.1 (.cons ⟨τ, rfl⟩ .nil), List.pairwise_append.mpr
          ⟨h.2.2.2, List.pairwise_singleton .., fun w hwrite w' hw' k hk => ?_⟩⟩
        rw [List.mem_singleton.mp hw'] at hk
        exact (habsent k (by simpa [schema, Write.keys, Write.stamp] using hk)).2 w hwrite)
    fun _ _ _ => trivial

theorem invite {context : CurrentTenant} {email : String}
    (hc : CommitOk inv admits i (.invite context email)) :
    Walks admits (.true : Knows inv i) (· = []) (TenantService.invite P S context email) := by
  refine Triple.bind (reading (ρ := fun _ => True) own_true (.perform trivial)) fun user => ?_
  rcases user with _ | user
  · exact walks_raise
  refine Triple.bind (lockingMember user.id context.tenant.id) fun found => ?_
  have hown : Own ((lockedIf .memberships found : Knows inv i).and (.pure (∀ m, found = some m →
    m.userId = user.id ∧ m.tenantId = context.tenant.id))) := Own.and (own_lockedIf _ _) own_pure
  rcases found with _ | loaded
  · refine Triple.bind (drawing hown) fun id => ?_
    refine Triple.bind ((inserting hown _).pre fun W _ h => ⟨h.1, h.2.1, laid_nil.mpr h.2.2⟩)
      fun _ => ?_
    refine invite_rest (m := TenantService.newMembership context.tenant.id user.id id)
      (Own.and hown (own_reserved _)) hc ?_ ?_
    · intro ws hws w hw
      obtain ⟨τ, _, rfl, -, hnil⟩ := laid_cons.mp hws
      rw [laid_nil.mp hnil] at hw
      rw [List.mem_singleton.mp hw]
      rfl
    · intro W ws ids row hi hX hws hrow
      obtain ⟨τ, _, rfl, -, hnil⟩ := laid_cons.mp hws
      obtain rfl := laid_nil.mp hnil
      refine .invite _ ids row ⟨rfl, rfl, rfl⟩ (fun k hk => (hX.2 k ?_).2) hrow
      rwa [Table.keys_stampInsert] at hk
  · dsimp only
    by_cases hleft : loaded.status = .left
    · rw [if_pos hleft]
      have hne : loaded ≠ { loaded with status := .invited, joinedAt := none } := fun he => by
        have := congrArg Membership.status he
        rw [hleft] at this
        cases this
      rw [Service.update, if_neg hne]
      refine Triple.bind (writing (ψ := fun ws => ∃ m : Membership,
        ws = [.update .memberships loaded m] ∧ m.status = .invited ∧ m.joinedAt = none) hown ?_)
        fun _ => ?_
      · rintro _ τ rfl
        exact ⟨_, rfl, rfl, rfl⟩
      refine invite_rest (m := { loaded with status := .invited, joinedAt := none }) hown hc ?_ ?_
      · rintro _ ⟨m, rfl, -⟩ w hw
        rw [List.mem_singleton.mp hw]
        rfl
      · rintro W _ ids row hi hX ⟨m, rfl, hm⟩ hrow
        exact .reinvite loaded m ids row hX.1.1 (hX.2 _ rfl).2 hleft hm hrow
    · rw [if_neg hleft]
      exact walks_raise

theorem insertingRows (hX : Own X) {rows : List (Σ t : Table, t.Row)} {t : Table}
    (added : List t.Row) :
    Triple (callStep admits i) (Before X (Laid rows)) (RBACService.insertAll t added)
      (fun _ => Before (X.and (reserved (added.flatMap t.keys)))
        (Laid (rows ++ added.map fun r => ⟨t, r⟩))) silent := by
  induction added generalizing X rows with
  | nil =>
    refine Triple.ret fun W _ h => ⟨h.1, ⟨h.2.1, fun k hk => absurd hk List.not_mem_nil⟩, ?_⟩
    rw [List.map_nil, List.append_nil]
    exact h.2.2
  | cons row added ih =>
    refine Triple.bind (inserting hX row) fun _ => ?_
    refine (ih (Own.and hX (own_reserved _))).conseq (fun _ _ h => h) (fun _ W _ h => ?_)
      fun _ _ _ h => h
    obtain ⟨hno, ⟨⟨hX, hrow⟩, hadded⟩, hws⟩ := h
    refine ⟨hno, ⟨hX, fun k hk => ?_⟩, ?_⟩
    · rcases List.mem_append.mp hk with hk | hk
      · exact hrow k hk
      · exact hadded k hk
    · rw [List.append_assoc] at hws
      exact hws

/-- The permissions a query has found, by their codes. -/
def permitting (permissions : PermissionCode → Option Permission) : Knows inv i :=
  fact (fun db => RBACService.byCode (db .permissions) = .ok permissions)
    fun _ _ hk h => by rwa [hk.permissions]

theorem own_permitting (permissions : PermissionCode → Option Permission) :
    Own (permitting permissions : Knows inv i) := own_fact _ _

theorem permissionsByCode (hX : Own X) (hφ : ∀ ws, φ ws → ∀ w ∈ ws, w.table ≠ .permissions) :
    Triple (callStep admits i) (Before X φ) RBACService.permissionsByCode
      (fun permissions => Before (X.and (permitting permissions)) φ) silent := by
  refine Triple.bind (finding (Y := fun found => fact (fun db => db .permissions = found)
    fun _ _ hk h => by rwa [hk.permissions]) hX (fun _ => own_fact _ _) fun W _ _ hws => ?_)
    fun found => ?_
  · exact (Write.foldl_other (fun w hw => (hφ _ hws w hw).symm) _).symm
  · rcases hcode : RBACService.byCode found with e | permissions
    · exact walks_raise
    · refine Triple.ret fun W _ h => ⟨h.1, ⟨h.2.1.1, ?_⟩, h.2.2⟩
      show RBACService.byCode (W.store.db .permissions) = _
      rw [show W.store.db .permissions = found from h.2.1.2, hcode]

theorem grantAll (hX : Own X) (permissions : PermissionCode → Option Permission) (roleId : UUID)
    (codes : List PermissionCode) :
    Triple (callStep admits i) (Before X φ) (RBACService.grantAll permissions roleId codes)
      (fun rows => (Before X φ).and (.pure (rows.map (fun g => (g.roleId, some g.permissionId)) =
        codes.map fun code => (roleId, (permissions code).map (·.id))))) silent := by
  induction codes with
  | nil => exact Triple.ret fun W _ h => ⟨h, rfl⟩
  | cons code codes ih =>
    refine Triple.bind (drawing hX) fun id => ?_
    rcases hp : permissions code with _ | permission
    · exact walks_raise
    refine Triple.bind ih fun rows => Triple.assume fun hrows => Triple.ret fun W _ h => ⟨h, ?_⟩
    show List.map _ (_ :: rows) = _
    rw [List.map_cons, hrows, List.map_cons, hp, Option.map_some]

/-- What `provision_defaults` reads and draws. -/
structure Defaults where
  permissions : PermissionCode → Option Permission
  admin : UUID
  agent : UUID
  requester : UUID

def Defaults.roles (d : Defaults) (tenantId : UUID) : List Role :=
  [RBACService.newRole d.admin tenantId "tenant_admin",
    RBACService.newRole d.agent tenantId "agent",
    RBACService.newRole d.requester tenantId "requester"]

def providing (d : Defaults) (tenantId : UUID) : Knows inv i :=
  (permitting d.permissions).and (reserved ((d.roles tenantId).flatMap (Table.keys .roles)))

theorem own_providing (d : Defaults) (tenantId : UUID) :
    Own (providing d tenantId : Knows inv i) := Own.and (own_permitting _) (own_reserved _)

theorem provisionDefaults (hX : Own X) {rows : List (Σ t : Table, t.Row)}
    (hrows : ∀ r ∈ rows, r.1 ≠ .permissions) (tenant : Tenant) (owner : Membership) :
    Triple (callStep admits i) (Before X (Laid rows))
      (RBACService.provisionDefaults tenant owner) (fun p => .ex fun d : Defaults =>
        (Before (X.and (providing d tenant.id))
          (Laid (rows ++ (d.roles tenant.id).map fun r => ⟨.roles, r⟩))).and
        (.pure ((p.1.membershipId = owner.id ∧ p.1.roleId = d.admin) ∧
          p.2.map (fun g => (g.roleId, some g.permissionId)) =
            NewTenant.defaultGrants d.permissions
                (RBACService.newRole d.admin tenant.id "tenant_admin") ++
              NewTenant.defaultGrants d.permissions
                (RBACService.newRole d.agent tenant.id "agent")))) silent := by
  refine Triple.bind (permissionsByCode hX fun ws hws w hw => ?_) fun permissions => ?_
  · obtain ⟨r, hr, he⟩ := Laid.table hws w hw
    exact he ▸ hrows r hr
  have hown : Own (X.and (permitting permissions)) := Own.and hX (own_permitting _)
  refine Triple.bind (drawing hown) fun admin => Triple.bind (drawing hown) fun agent =>
    Triple.bind (drawing hown) fun requester => ?_
  have hownD : Own (X.and (providing ⟨permissions, admin, agent, requester⟩ tenant.id)) :=
    Own.and hX (own_providing _ _)
  let d : Defaults := ⟨permissions, admin, agent, requester⟩
  have hroles : Triple (callStep admits i) (Before (X.and (permitting permissions)) (Laid rows))
      (RBACService.insertAll .roles (d.roles tenant.id)) (fun _ =>
        Before (X.and (providing d tenant.id))
          (Laid (rows ++ (d.roles tenant.id).map fun r => ⟨.roles, r⟩))) silent :=
    (insertingRows hown _).conseq (fun _ _ h => h)
      (fun _ _ _ h => ⟨h.1, ⟨h.2.1.1.1, h.2.1.1.2, h.2.1.2⟩, h.2.2⟩) fun _ _ _ h => h
  refine Triple.bind hroles fun _ => ?_
  refine Triple.bind (grantAll hownD permissions admin _) fun adminGrants =>
    Triple.assume fun hadmin => ?_
  refine Triple.bind (grantAll hownD permissions agent _) fun agentGrants =>
    Triple.assume fun hagent => ?_
  refine Triple.bind (drawing hownD) fun id => ?_
  refine Triple.ret fun W _ h => ⟨⟨permissions, admin, agent, requester⟩, h, ⟨rfl, rfl⟩, ?_⟩
  rw [List.map_append, hadmin, hagent]
  rfl

theorem create {owner : User} {name slug : String}
    (hc : CommitOk inv admits i (.create owner name slug)) :
    Walks admits (.true : Knows inv i) (· = []) (TenantService.create P owner name slug) := by
  refine Triple.bind (reading (ρ := fun _ => True) own_true (.perform trivial)) fun taken => ?_
  refine walks_check fun _ => ?_
  refine Triple.bind (reading (ρ := fun _ => True) own_true (.perform trivial)) fun now => ?_
  refine Triple.bind (drawing own_true) fun tenantId => ?_
  refine Triple.bind ((Triple.handle ((inserting own_true _).pre fun W _ h =>
    ⟨h.1, h.2.1, laid_nil.mpr h.2.2⟩) fun e => ?_)) fun _ => ?_
  · split
    · refine Triple.bind (WorldOutline.rollback (ρ := fun _ => True) (B := fun _ => .true)
        ⟨fun _ _ _ => trivial, fun _ _ _ _ => trivial, fun _ _ _ _ _ _ _ => trivial⟩
        fun _ _ _ _ _ _ => trivial) fun _ => ?_
      exact Triple.raise fun _ _ _ => trivial
    · exact Triple.raise fun _ _ _ => trivial
  have hown : Own ((.true : Knows inv i).and (reserved (Table.keys .tenants
    (TenantService.newTenant tenantId owner.id (Lib.Text.strip name)
    (P.lower (Lib.Text.strip slug)))))) :=
    Own.and own_true (own_reserved _)
  refine Triple.bind (drawing hown) fun memberId => ?_
  refine Triple.bind (inserting hown _) fun _ => ?_
  have hownM : Own (((.true : Knows inv i).and (reserved (Table.keys .tenants
    (TenantService.newTenant tenantId owner.id (Lib.Text.strip name)
    (P.lower (Lib.Text.strip slug)))))).and
      (reserved (Table.keys .memberships
        (TenantService.ownerMembership memberId tenantId owner.id now)))) :=
    Own.and hown (own_reserved _)
  refine Triple.bind (provisionDefaults hownM (fun r hr => ?_) _ _) fun p =>
    Triple.ex fun d => Triple.assume fun hd => ?_
  · rcases List.mem_cons.mp hr with rfl | hr
    · simp
    · rw [List.mem_singleton.mp hr]
      simp
  obtain ⟨assigned, grants⟩ := p
  refine Triple.bind (writing (ψ := fun ws => ∃ ws₀, Laid _ ws₀ ∧
    ws = ws₀ ++ [.insert .membershipRoles assigned]) (Own.and hownM (own_providing _ _))
    fun ws τ h => ⟨ws, h, rfl⟩) fun _ => ?_
  refine Triple.bind (insertingAll (t := .rolePermissions) (Own.and hownM (own_providing _ _))
    (fun _ _ => rfl) grants) fun _ => ?_
  refine walks_commit (ρ := (· = .invalidRequest)) hc (fun W hi hX hφ => ?_)
    (.bind (Service.quiet_refresh _ _ rfl) fun _ => .bind (Service.quiet_refresh _ _ rfl)
      fun _ => trivial)
  obtain ⟨_, ⟨ws, hlaid, rfl⟩, hws⟩ := hφ
  obtain ⟨τ₁, _, rfl, -, hlaid⟩ := laid_cons.mp hlaid
  obtain ⟨τ₂, _, rfl, -, hlaid⟩ := laid_cons.mp hlaid
  obtain ⟨τ₃, _, rfl, hd₃, hlaid⟩ := laid_cons.mp hlaid
  obtain ⟨τ₄, _, rfl, hd₄, hlaid⟩ := laid_cons.mp hlaid
  obtain ⟨τ₅, _, rfl, -, hlaid⟩ := laid_cons.mp hlaid
  obtain rfl := laid_nil.mp hlaid
  rw [hws]
  obtain ⟨⟨⟨-, htenant⟩, howner⟩, hpermissions, hroles⟩ := hX
  refine .create ⟨_, _, _, _, _, assigned, grants⟩
    { tenant := rfl, owner := ⟨rfl, rfl, rfl, Option.some_ne_none _⟩, roles := rfl,
      assigned := hd.1,
      grants := ⟨d.permissions, hpermissions, hd.2⟩, newTenant := (htenant _ ?_).2,
      newOwner := fun k hk => (howner k ?_).2, newRoles := fun r hr => (hroles _ ?_).2,
      distinct := ?_ }
  · exact List.mem_cons_self
  · exact (Table.keys_stampInsert τ₂ .memberships _) ▸ hk
  · simp only [NewTenant.roles, List.mem_cons, List.not_mem_nil, or_false] at hr
    rcases hr with rfl | rfl | rfl
    · exact List.mem_flatMap.mpr ⟨_, .head _, List.mem_cons_self⟩
    · exact List.mem_flatMap.mpr ⟨_, .tail _ (.head _), List.mem_cons_self⟩
    · exact List.mem_flatMap.mpr ⟨_, .tail _ (.tail _ (.head _)), List.mem_cons_self⟩
  · have apart {r r' : Role} {ws : List Write} (hws : ∀ w ∈ ws, ∀ k ∈ w.keys, k ∉ Table.keys .roles
      r)
        (τ : Time) (hr' : .insert .roles (Table.stampInsert τ .roles r') ∈ ws) : r.id ≠ r'.id :=
      fun he => hws _ hr' (.row .roles r'.id)
        (by rw [Write.keys, Table.keys_stampInsert]; exact List.mem_cons_self)
        (by rw [← he]; exact List.mem_cons_self)
    refine List.nodup_cons.mpr ⟨fun h => ?_, List.nodup_cons.mpr ⟨fun h => ?_,
      List.nodup_singleton _⟩⟩
    · rcases List.mem_cons.mp h with h | h
      · exact apart hd₃ τ₄ (.head _) h
      · exact apart hd₃ τ₅ (.tail _ (.head _)) (List.mem_singleton.mp h)
    · exact apart hd₄ τ₅ (.head _) (List.mem_singleton.mp h)

end Calls

/-! ## The pool -/

/-- `inv` is about the rows of the six tables and the history. -/
def About (inv : Db → List (Nat × List Write) → Prop) : Prop :=
  ∀ (db db' : Db) wal, (∀ t ∈ [Table.tenants, .memberships, .permissions, .roles,
    .rolePermissions, .membershipRoles], db' t = db t) → inv db wal → inv db' wal

theorem elsewhere (hinv : About inv) {W W' : World} (h : AdministrationElsewhere W W')
    (hi : (rowRules inv).outline.outline.inv W) :
    (rowRules inv).outline.outline.inv W' ∧ ∀ j, (rowRules inv).outline.outline.frame j W W' := by
  have hkept : Kept W.store.db W'.store.db := by
    refine ⟨?_, ?_, h.rows _ (by simp), fun m ⟨x, hx, hs⟩ => ⟨x, ?_, hs⟩⟩
    · exact (h.rows .tenants (by simp)).symm ▸ List.prefix_rfl
    · exact (h.rows .roles (by simp)).symm ▸ List.prefix_rfl
    · rwa [h.rows .memberships (by simp)]
  exact RowRules.elsewhere h hkept (fun hl => hinv _ _ _ h.rows hl) hi

/-- The five programs keep every invariant that their commits keep. -/
theorem administers {P : Platform} {S : RBACService} {c : AdminCall}
    (hc : CommitOk inv admits i c) :
    Walks admits (.true : Knows inv i) (· = []) (AdminCall.prog P S c) := by
  cases c with
  | create owner name slug => exact create hc
  | invite context email => exact invite hc
  | acceptInvitation user tenantId => exact acceptInvitation hc
  | leave user tenantId => exact leave hc
  | assignRoles tenantId membershipId roleIds => exact assignRoles hc

theorem ok {P : Platform} {S : RBACService} {may : Nat → AdminCall → Prop} (hinv : About inv)
    (hc : ∀ i c, may i c → CommitOk inv admits i c) :
    (rowRules inv).outline.outline.Ok ((adminCalls P S).system may admits AdministrationElsewhere)
      (fun i _ => post (fun _ => (.true : Knows inv i)) silent) (fun _ _ _ _ => True) :=
  WorldOutline.sound (C := adminCalls P S) (fun _ _ _ _ => trivial) (fun _ _ _ => .true)
    (fun _ _ => silent) (fun i c hmay => administers (hc i c hmay))
    (fun _ _ _ _ _ _ => trivial) (fun _ _ _ _ _ _ _ => trivial)
    fun _ _ hi henv => elsewhere hinv henv hi

/-- What holds in every reachable state. -/
theorem reached {P : Platform} {S : RBACService} {may : Nat → AdminCall → Prop} (hinv : About inv)
    (hc : ∀ i c, may i c → CommitOk inv admits i c) {W₀ : World} (hq : W₀.Quiet)
    (hi : inv W₀.store.db []) {pool : ((adminCalls P S).system may admits
      AdministrationElsewhere).Pool} (h : System.Reachable W₀ pool) :
    inv pool.shared.store.db pool.shared.store.wal := by
  exact ((ok (P := P) (S := S) hinv hc).sound (inv_start hq hi) h).inv.2

end Administration

end Ticketing
