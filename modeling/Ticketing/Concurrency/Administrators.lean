import Ticketing.Concurrency.Administration

/-!
# A tenant never loses its administrator

* `Administered` is what holds of the committed rows in every state the calls of
  `Administration.lean` reach: each tenant has its three roles with their grants, its owner is an
  active member and holds `tenant_admin`, and no role crosses tenants.
* `MembershipStatus.Next` is INVITED → ACTIVE → LEFT → INVITED, and `Evolves` that members stay,
  each with its status or the next one.

The calls' commits are built from three changes of the rows (a new member, a member turned to
another status, a member's roles replaced) and the rows of a new tenant; one lemma says what each
of them keeps: `Administered.addMember`, `Administered.turn`, `Administered.replaceRoles` and
`Administered.create`.

Results:
* `Administered.commits`: a commit of any of the five calls leaves administered rows, and members
  that evolve.
* `tenants_keep_administrators`: so does every run of them, from any administered rows, the empty
  database among them (`Db.administered_of_empty`), in any order and under any faults.
-/

namespace Ticketing

open Lib (System)

namespace Db

/-- The membership holds a role of that name in the tenant. -/
def Holds (db : Db) (tenantId membershipId : UUID) (name : String) : Prop :=
  ∃ x ∈ db.rolesOf membershipId, ∃ r ∈ db .roles,
    r.id = x.roleId ∧ r.tenantId = tenantId ∧ r.name = name

/-- The tenant's owner is an active member of it and its administrator. -/
def HasOwner (db : Db) (t : Tenant) : Prop :=
  ∃ m ∈ db .memberships, m.tenantId = t.id ∧ m.userId = t.ownerUserId ∧ m.status = .active ∧
    db.Holds t.id m.id "tenant_admin"

/-- Tenants, members, roles and permissions as the service keeps them. -/
structure Administered (db : Db) : Prop where
  /-- Exactly the three default roles, with exactly their grants. -/
  defaults : ∀ t ∈ db .tenants, db.DefaultRoles t.id
  owner : ∀ t ∈ db .tenants, db.HasOwner t
  /-- A role held belongs to the membership's tenant. -/
  held : ∀ x ∈ db .membershipRoles, ∃ m ∈ db .memberships, ∃ r ∈ db .roles,
    m.id = x.membershipId ∧ r.id = x.roleId ∧ r.tenantId = m.tenantId
  single : ((db .memberships).map fun m => (m.tenantId, m.userId)).Nodup
  joined : ∀ m ∈ db .memberships, m.status = .invited ↔ m.joinedAt = none
  tenantIds : ((db .tenants).map (·.id)).Nodup
  memberIds : ((db .memberships).map (·.id)).Nodup
  roleIds : ((db .roles).map (·.id)).Nodup
  permissionIds : ((db .permissions).map (·.id)).Nodup
  roleTenants : ∀ r ∈ db .roles, ∃ t ∈ db .tenants, t.id = r.tenantId
  grantRoles : ∀ g ∈ db .rolePermissions, ∃ r ∈ db .roles, r.id = g.roleId

end Db

/-- INVITED → ACTIVE → LEFT → INVITED. -/
inductive MembershipStatus.Next : MembershipStatus → MembershipStatus → Prop
  | accept : Next .invited .active
  | leave : Next .active .left
  | reinvite : Next .left .invited

/-- Each member is still there, with its status or the next one. -/
def Evolves (ms ms' : List Membership) : Prop :=
  ∀ m ∈ ms, ∃ m' ∈ ms', m.Same m' ∧ (m'.status = m.status ∨ m.status.Next m'.status)

theorem Evolves.append (ms more : List Membership) : Evolves ms (ms ++ more) :=
  fun m hm => ⟨m, List.mem_append_left _ hm, ⟨rfl, rfl, rfl⟩, .inl rfl⟩

theorem Evolves.refl (ms : List Membership) : Evolves ms ms :=
  fun m hm => ⟨m, hm, ⟨rfl, rfl, rfl⟩, .inl rfl⟩

namespace Db

variable {db db' : Db}

theorem DefaultRoles.congr {tenantId : UUID} (hr : db' .roles = db .roles)
    (hg : db' .rolePermissions = db .rolePermissions) (hp : db' .permissions = db .permissions)
    (h : db.DefaultRoles tenantId) : db'.DefaultRoles tenantId := by
  refine ⟨by rw [hr]; exact h.roles, fun role hrole ht text => ?_⟩
  unfold Grants
  rw [hg, hp]
  rw [hr] at hrole
  exact h.grants role hrole ht text

/-- What is kept of a tenant when only members and their roles change. -/
theorem Administered.of_members (h : db.Administered) (ht : db' .tenants = db .tenants)
    (hr : db' .roles = db .roles) (hg : db' .rolePermissions = db .rolePermissions)
    (hp : db' .permissions = db .permissions)
    (howner : ∀ t ∈ db .tenants, db'.HasOwner t)
    (hheld : ∀ x ∈ db' .membershipRoles, ∃ m ∈ db' .memberships, ∃ r ∈ db .roles,
      m.id = x.membershipId ∧ r.id = x.roleId ∧ r.tenantId = m.tenantId)
    (hsingle : ((db' .memberships).map fun m => (m.tenantId, m.userId)).Nodup)
    (hjoined : ∀ m ∈ db' .memberships, m.status = .invited ↔ m.joinedAt = none)
    (hids : ((db' .memberships).map (·.id)).Nodup) : db'.Administered where
  defaults := by
    rw [ht]
    exact fun t hmem => (h.defaults t hmem).congr hr hg hp
  owner := by
    rw [ht]
    exact howner
  held := by
    rw [hr]
    exact hheld
  single := hsingle
  joined := hjoined
  tenantIds := by rw [ht]; exact h.tenantIds
  memberIds := hids
  roleIds := by rw [hr]; exact h.roleIds
  permissionIds := by rw [hp]; exact h.permissionIds
  roleTenants := by
    rw [hr, ht]
    exact h.roleTenants
  grantRoles := by
    rw [hr, hg]
    exact h.grantRoles

theorem Holds.congr {tenantId membershipId : UUID} {name : String}
    (hx : db'.rolesOf membershipId = db.rolesOf membershipId) (hr : db' .roles = db .roles)
    (h : db.Holds tenantId membershipId name) : db'.Holds tenantId membershipId name := by
  unfold Holds
  rw [hx, hr]
  exact h

theorem Administered.congr (h : db.Administered) (hrows : ∀ t ∈ [Table.tenants, .memberships,
    .permissions, .roles, .rolePermissions, .membershipRoles], db' t = db t) :
    db'.Administered := by
  have hm := hrows .memberships (by simp)
  have hr := hrows .roles (by simp)
  have hx := hrows .membershipRoles (by simp)
  refine h.of_members (hrows .tenants (by simp)) hr (hrows .rolePermissions (by simp))
    (hrows .permissions (by simp)) (fun t ht => ?_) ?_ ?_ ?_ ?_
  · obtain ⟨m, hmem, htenant, huser, hactive, hholds⟩ := h.owner t ht
    exact ⟨m, hm ▸ hmem, htenant, huser, hactive, hholds.congr (by rw [rolesOf, hx]; rfl) hr⟩
  · rw [hx, hm]
    exact h.held
  · rw [hm]
    exact h.single
  · rw [hm]
    exact h.joined
  · rw [hm]
    exact h.memberIds

/-! ## A new member -/

/-- A membership under new keys goes with those there are. -/
theorem Administered.append (h : db.Administered) {m : Membership}
    (hj : m.status = .invited ↔ m.joinedAt = none)
    (hnew : ∀ k ∈ Table.keys .memberships m, db.present k = false) :
    ((db .memberships ++ [m]).map fun m => (m.tenantId, m.userId)).Nodup ∧
      (∀ x ∈ db .memberships ++ [m], x.status = .invited ↔ x.joinedAt = none) ∧
      ((db .memberships ++ [m]).map (·.id)).Nodup := by
  refine ⟨?_, fun x hx => ?_, ?_⟩
  · rw [List.map_append]
    refine h.single.append (List.nodup_singleton _) fun p hp hp' => ?_
    obtain ⟨x, hx, rfl⟩ := List.mem_map.mp hp
    obtain ⟨ht, hu⟩ := Prod.mk.inj (List.mem_singleton.mp hp')
    refine present_eq_false.mp (hnew (.membershipUser m.tenantId m.userId) (.tail _ (.head _)))
      x hx ?_
    show _ ∈ [Key.row .memberships x.id, .membershipUser x.tenantId x.userId]
    rw [ht, hu]
    exact .tail _ (.head _)
  · rcases List.mem_append.mp hx with hx | hx
    · exact h.joined x hx
    · rw [List.mem_singleton.mp hx]
      exact hj
  · rw [List.map_append]
    refine h.memberIds.append (List.nodup_singleton _) fun p hp hp' => ?_
    obtain ⟨x, hx, rfl⟩ := List.mem_map.mp hp
    exact present_row.mp (hnew (.row .memberships m.id) List.mem_cons_self) x hx
      (List.mem_singleton.mp hp')

theorem Administered.addMember (h : db.Administered) {m : Membership} (hs : m.status = .invited)
    (hj : m.joinedAt = none) (hnew : ∀ k ∈ Table.keys .memberships m, db.present k = false) :
    ((Write.insert .memberships m).apply db).Administered := by
  have other (t : Table) (ht : t ≠ .memberships) :
      (Write.insert .memberships m).apply db t = db t := Write.apply_other _ db ht
  have hrows : (Write.insert .memberships m).apply db .memberships = db .memberships ++ [m] :=
    Write.apply_insert ..
  have grows {x : Membership} (hx : x ∈ db .memberships) :
      x ∈ (Write.insert .memberships m).apply db .memberships := by
    rw [hrows]
    exact List.mem_append_left _ hx
  obtain ⟨hsingle, hjoined, hids⟩ := h.append (iff_of_true hs hj) hnew
  rw [← hrows] at hsingle hjoined hids
  refine h.of_members (other _ (by decide)) (other _ (by decide)) (other _ (by decide))
    (other _ (by decide)) (fun t ht => ?_) (fun x hx => ?_) hsingle hjoined hids
  · obtain ⟨o, ho, htenant, hu, hactive, hholds⟩ := h.owner t ht
    refine ⟨o, grows ho, htenant, hu, hactive, hholds.congr ?_ (other _ (by decide))⟩
    rw [rolesOf, other _ (by decide), rolesOf]
  · rw [other _ (by decide)] at hx
    obtain ⟨o, ho, hheld⟩ := h.held x hx
    exact ⟨o, grows ho, hheld⟩

/-! ## A member turned to another status -/

/-- The rows after the update of a member to `m`. -/
theorem mem_turned (h : db.Administered) {loaded m x : Membership}
    (hl : loaded ∈ db .memberships) :
    x ∈ (Write.update .memberships loaded m).apply db .memberships ↔
      x = { loaded with status := m.status, joinedAt := m.joinedAt, updatedAt := m.updatedAt } ∨
        x ∈ db .memberships ∧ x.id ≠ loaded.id := by
  rw [Write.mem_apply_update h.memberIds hl (by simp [Table.isSameRow])]
  simp only [Table.patch, Table.changed_self]
  rfl

theorem Administered.turn (h : db.Administered) {loaded m : Membership}
    (hl : loaded ∈ db .memberships) (hj : m.status = .invited ↔ m.joinedAt = none)
    (howner : ∀ t ∈ db .tenants, loaded.tenantId = t.id → loaded.userId = t.ownerUserId →
      loaded.status ≠ .active) :
    ((Write.update .memberships loaded m).apply db).Administered := by
  have other (t : Table) (ht : t ≠ .memberships) :
      (Write.update .memberships loaded m).apply db t = db t := Write.apply_other _ db ht
  have same (x : Membership) (hx : x ∈ db .memberships) :
      ∃ x' ∈ (Write.update .memberships loaded m).apply db .memberships, x.Same x' := by
    by_cases hid : x.id = loaded.id
    · obtain rfl : x = loaded := List.inj_on_of_nodup_map h.memberIds hx hl hid
      exact ⟨_, (mem_turned h hl).mpr (.inl rfl), rfl, rfl, rfl⟩
    · exact ⟨x, (mem_turned h hl).mpr (.inr ⟨hx, hid⟩), rfl, rfl, rfl⟩
  refine h.of_members (other _ (by decide)) (other _ (by decide)) (other _ (by decide))
    (other _ (by decide)) (fun t ht => ?_) (fun x hx => ?_) ?_ (fun x hx => ?_) ?_
  · obtain ⟨o, ho, htenant, hu, hactive, hholds⟩ := h.owner t ht
    have hne : o.id ≠ loaded.id := fun he => by
      obtain rfl := List.inj_on_of_nodup_map h.memberIds ho hl he
      exact howner t ht htenant hu hactive
    refine ⟨o, (mem_turned h hl).mpr (.inr ⟨ho, hne⟩), htenant, hu, hactive,
      hholds.congr ?_ (other _ (by decide))⟩
    rw [rolesOf, other _ (by decide), rolesOf]
  · rw [other _ (by decide)] at hx
    obtain ⟨o, ho, r, hr, hmid, hrid, htenant⟩ := h.held x hx
    obtain ⟨o', ho', hid, ht, -⟩ := same o ho
    exact ⟨o', ho', r, hr, hid.trans hmid, hrid, htenant.trans ht.symm⟩
  · rw [Write.map_apply_update _ _ fun _ => rfl]
    exact h.single
  · rcases (mem_turned h hl).mp hx with rfl | ⟨hx, -⟩
    · exact hj
    · exact h.joined x hx
  · rw [Write.map_apply_update _ _ fun _ => rfl]
    exact h.memberIds

theorem Administered.evolves_turn (h : db.Administered) {loaded m : Membership}
    (hl : loaded ∈ db .memberships) (hnext : loaded.status.Next m.status) :
    Evolves (db .memberships) ((Write.update .memberships loaded m).apply db .memberships) := by
  intro x hx
  by_cases hid : x.id = loaded.id
  · obtain rfl : x = loaded := List.inj_on_of_nodup_map h.memberIds hx hl hid
    exact ⟨_, (mem_turned h hl).mpr (.inl rfl), ⟨rfl, rfl, rfl⟩, .inr hnext⟩
  · exact ⟨x, (mem_turned h hl).mpr (.inr ⟨hx, hid⟩), ⟨rfl, rfl, rfl⟩, .inl rfl⟩

/-! ## A member's roles replaced -/

section Replaced

open Administration (replaceRoles)

variable {membershipId : UUID} {ids : List UUID} {rows : List MembershipRole}

theorem replaceRoles_other {t : Table} (ht : t ≠ .membershipRoles) :
    (replaceRoles membershipId ids rows).foldl (fun db w => w.apply db) db t = db t := by
  refine Write.foldl_other (fun w hw => ?_) db
  rcases List.mem_cons.mp hw with rfl | hw
  · exact ht
  · obtain ⟨row, -, rfl⟩ := List.mem_map.mp hw
    exact ht

theorem replaceRoles_rows :
    (replaceRoles membershipId ids rows).foldl (fun db w => w.apply db) db .membershipRoles =
      (db .membershipRoles).filter (fun x => !(decide (x.membershipId = membershipId) &&
        decide (x.id ∈ ids))) ++ rows := by
  rw [Administration.replaceRoles, List.foldl_cons, Write.foldl_inserts, Write.apply_delete]
  rfl

/-- The others keep their roles. -/
theorem rolesOf_replaced {id : UUID} (hid : id ≠ membershipId)
    (hrows : ∀ x ∈ rows, x.membershipId = membershipId) :
    rolesOf ((replaceRoles membershipId ids rows).foldl (fun db w => w.apply db) db) id =
      db.rolesOf id := by
  have hnone : rows.filter (fun x => decide (x.membershipId = id)) = [] :=
    List.filter_eq_nil_iff.mpr fun x hx he =>
      hid ((of_decide_eq_true he).symm.trans (hrows x hx))
  rw [rolesOf, replaceRoles_rows, List.filter_append, hnone, List.append_nil, List.filter_filter,
    rolesOf]
  refine List.filter_congr fun x _ => ?_
  by_cases hx : x.membershipId = id
  · simp [hx, hid]
  · simp [hx]

theorem Administered.replaceRoles (h : db.Administered) {m : Membership}
    (hm : m ∈ db .memberships) (hmid : m.id = membershipId)
    (hrows : ∀ x ∈ rows, x.membershipId = membershipId ∧
      ∃ r ∈ db .roles, r.id = x.roleId ∧ r.tenantId = m.tenantId)
    (howner : ∀ t ∈ db .tenants, m.tenantId = t.id → m.userId = t.ownerUserId →
      m.status = .active → ∃ x ∈ rows, ∃ r ∈ db .roles, r.id = x.roleId ∧ r.tenantId = t.id ∧
        r.name = "tenant_admin") :
    Administered ((replaceRoles membershipId ids rows).foldl (fun db w => w.apply db) db) := by
  have hmembers : (Administration.replaceRoles membershipId ids rows).foldl
      (fun db w => w.apply db) db .memberships = db .memberships := replaceRoles_other (by decide)
  have hroles : (Administration.replaceRoles membershipId ids rows).foldl
      (fun db w => w.apply db) db .roles = db .roles := replaceRoles_other (by decide)
  refine h.of_members (replaceRoles_other (by decide)) hroles (replaceRoles_other (by decide))
    (replaceRoles_other (by decide)) (fun t ht => ?_) (fun x hx => ?_) ?_ ?_ ?_
  · obtain ⟨o, ho, htenant, hu, hactive, hholds⟩ := h.owner t ht
    refine ⟨o, by rwa [hmembers], htenant, hu, hactive, ?_⟩
    by_cases hid : o.id = membershipId
    · obtain rfl := List.inj_on_of_nodup_map h.memberIds ho hm (hid.trans hmid.symm)
      obtain ⟨x, hx, r, hr, hadmin⟩ := howner t ht htenant hu hactive
      refine ⟨x, List.mem_filter.mpr ⟨?_, ?_⟩, r, by rwa [hroles], hadmin⟩
      · rw [replaceRoles_rows]
        exact List.mem_append_right _ hx
      · simpa [hmid] using (hrows x hx).1
    · exact hholds.congr (rolesOf_replaced hid fun x hx => (hrows x hx).1) hroles
  · rw [hmembers]
    rw [replaceRoles_rows] at hx
    rcases List.mem_append.mp hx with hx | hx
    · exact h.held x (List.mem_filter.mp hx).1
    · obtain ⟨hid, r, hr, hrid, htenant⟩ := hrows x hx
      exact ⟨m, hm, r, hr, hmid.trans hid.symm, hrid, htenant⟩
  · rw [hmembers]
    exact h.single
  · rw [hmembers]
    exact h.joined
  · rw [hmembers]
    exact h.memberIds

end Replaced

/-! ## A new tenant -/

section NewTenant

open Administration (NewTenant)

variable {n : NewTenant} {user : User}

/-- The permission a code stands for. -/
theorem of_byCode {permissions : List Permission} {found : PermissionCode → Option Permission}
    (h : RBACService.byCode permissions = .ok found) (code : PermissionCode) :
    ∃ p ∈ permissions, found code = some p ∧ p.code = code.value := by
  unfold RBACService.byCode at h
  split at h
  · cases h
  · dsimp only at h
    split_ifs at h with hall
    obtain rfl := Except.ok.inj h
    have hsome := List.all_eq_true.mp hall code (PermissionCode.mem_members code)
    obtain ⟨p, hp⟩ := Option.isSome_iff_exists.mp hsome
    have hcode := List.find?_some hp
    exact ⟨p, List.mem_reverse.mp (List.mem_of_find?_eq_some hp), hp, of_decide_eq_true hcode⟩

/-- The rows of the tables with the new tenant's. -/
theorem created_rows (n : NewTenant) (db : Db) :
    n.writes.foldl (fun db w => w.apply db) db .tenants = db .tenants ++ [n.tenant] ∧
    n.writes.foldl (fun db w => w.apply db) db .memberships = db .memberships ++ [n.owner] ∧
    n.writes.foldl (fun db w => w.apply db) db .roles = db .roles ++ n.roles ∧
    n.writes.foldl (fun db w => w.apply db) db .membershipRoles =
      db .membershipRoles ++ [n.assigned] ∧
    n.writes.foldl (fun db w => w.apply db) db .rolePermissions =
      db .rolePermissions ++ n.grants ∧
    n.writes.foldl (fun db w => w.apply db) db .permissions = db .permissions := by
  have beside {t : Table} (ht : t ≠ .rolePermissions) (db : Db) :
      (n.grants.map (Write.insert .rolePermissions)).foldl (fun db w => w.apply db) db t = db t :=
    Write.foldl_other (fun w hw => by
      obtain ⟨g, -, rfl⟩ := List.mem_map.mp hw
      exact ht) db
  simp only [NewTenant.writes, List.foldl_append]
  refine ⟨?_, ?_, ?_, ?_, ?_, ?_⟩
  · rw [beside (by decide)]
    rfl
  · rw [beside (by decide)]
    rfl
  · rw [beside (by decide)]
    show (db .roles ++ [n.admin] ++ [n.agent] ++ [n.requester]) = _
    rw [List.append_assoc, List.append_assoc]
    rfl
  · rw [beside (by decide)]
    rfl
  · rw [Write.foldl_inserts]
    rfl
  · rw [beside (by decide)]
    rfl

variable (hn : n.Fits user db)
include hn

theorem tenantId_of_new : ∀ r ∈ n.roles, r.tenantId = n.tenant.id := by
  have hroles := hn.roles
  simp only [NewTenant.roles, List.map_cons, List.map_nil, List.cons.injEq, Prod.mk.injEq]
    at hroles
  intro r hr
  simp only [NewTenant.roles, List.mem_cons, List.not_mem_nil, or_false] at hr
  rcases hr with rfl | rfl | rfl
  · exact hroles.1.1
  · exact hroles.2.1.1
  · exact hroles.2.2.1.1

/-- The new roles are granted their default permissions. -/
theorem newGrants_iff {permissions : PermissionCode → Option Permission}
    (hg : n.grants.map (fun g => (g.roleId, some g.permissionId)) =
      NewTenant.defaultGrants permissions n.admin ++ NewTenant.defaultGrants permissions n.agent)
    {role : Role} (hrole : role ∈ n.roles) (permissionId : UUID) :
    (∃ g ∈ n.grants, g.roleId = role.id ∧ g.permissionId = permissionId) ↔
      ∃ code ∈ RBACService.defaultCodes role.name, ∃ p, permissions code = some p ∧
        p.id = permissionId := by
  have hrequester : NewTenant.defaultGrants permissions n.requester = [] := by
    have hroles := hn.roles
    simp only [NewTenant.roles, List.map_cons, List.map_nil, List.cons.injEq, Prod.mk.injEq]
      at hroles
    rw [NewTenant.defaultGrants, hroles.2.2.1.2.1]
    rfl
  have hall : n.grants.map (fun g => (g.roleId, some g.permissionId)) =
      n.roles.flatMap (NewTenant.defaultGrants permissions) := by
    rw [hg, NewTenant.roles, List.flatMap_cons, List.flatMap_cons, List.flatMap_cons,
      hrequester, List.flatMap_nil, List.append_nil, List.append_nil]
  have hmem : (∃ g ∈ n.grants, g.roleId = role.id ∧ g.permissionId = permissionId) ↔
      (role.id, some permissionId) ∈ n.roles.flatMap (NewTenant.defaultGrants permissions) := by
    rw [← hall, List.mem_map]
    simp only [Prod.mk.injEq, Option.some.injEq]
  rw [hmem, List.mem_flatMap]
  constructor
  · rintro ⟨r, hr, hgrant⟩
    obtain ⟨code, hcode, he⟩ := List.mem_map.mp hgrant
    obtain ⟨hid, hp⟩ := Prod.mk.inj he
    obtain rfl := List.inj_on_of_nodup_map hn.distinct hr hrole hid
    obtain ⟨p, hp, hpid⟩ := Option.map_eq_some_iff.mp hp
    exact ⟨code, hcode, p, hp, hpid⟩
  · rintro ⟨code, hcode, p, hp, rfl⟩
    exact ⟨role, hrole, List.mem_map.mpr ⟨code, hcode, by rw [hp]; rfl⟩⟩

theorem newGrant_role {g : RolePermission} (hg : g ∈ n.grants) : ∃ r ∈ n.roles, r.id =
    g.roleId := by
  obtain ⟨permissions, -, hgrants⟩ := hn.grants
  have hmem := List.mem_map_of_mem (f := fun g => (g.roleId, some g.permissionId)) hg
  rw [hgrants] at hmem
  rcases List.mem_append.mp hmem with hmem | hmem
  · obtain ⟨code, -, he⟩ := List.mem_map.mp hmem
    exact ⟨n.admin, .head _, congrArg Prod.fst he⟩
  · obtain ⟨code, -, he⟩ := List.mem_map.mp hmem
    exact ⟨n.agent, .tail _ (.head _), congrArg Prod.fst he⟩

theorem newDefaults (h : db.Administered) (hdb : db' .roles = db .roles ++ n.roles)
    (hgrants : db' .rolePermissions = db .rolePermissions ++ n.grants)
    (hpermissions : db' .permissions = db .permissions) : db'.DefaultRoles n.tenant.id := by
  have hnew := tenantId_of_new hn
  have hold : ∀ r ∈ db .roles, r.tenantId ≠ n.tenant.id := fun r hr he => by
    obtain ⟨t, ht, hid⟩ := h.roleTenants r hr
    exact present_row.mp hn.newTenant t ht (hid.trans he)
  constructor
  · have hnone : (db .roles).filter (fun r => decide (r.tenantId = n.tenant.id)) = [] :=
      List.filter_eq_nil_iff.mpr fun r hr he => hold r hr (of_decide_eq_true he)
    have hall : n.roles.filter (fun r => decide (r.tenantId = n.tenant.id)) = n.roles :=
      List.filter_eq_self.mpr fun r hr => decide_eq_true (hnew r hr)
    rw [hdb, List.filter_append, hnone, hall, List.nil_append]
    have hroles := congrArg (List.map Prod.snd) hn.roles
    rwa [List.map_map] at hroles
  · intro role hrole ht text
    have hrole : role ∈ n.roles := by
      rw [hdb] at hrole
      exact (List.mem_append.mp hrole).resolve_left fun hr => hold role hr ht
    obtain ⟨permissions, hcode, hg⟩ := hn.grants
    have hold (g : RolePermission) (hgmem : g ∈ db .rolePermissions) : g.roleId ≠ role.id := by
      obtain ⟨r, hr, hid⟩ := h.grantRoles g hgmem
      exact fun he => present_row.mp (hn.newRoles role hrole) r hr (hid.trans he)
    unfold Grants
    rw [hgrants, hpermissions]
    constructor
    · rintro ⟨g, hgmem, hgrole, p, hp, hpid, rfl⟩
      have hgmem : g ∈ n.grants :=
        (List.mem_append.mp hgmem).resolve_left fun hgmem => hold g hgmem hgrole
      obtain ⟨code, hmem, p', hp', hid⟩ :=
        (newGrants_iff hn hg hrole g.permissionId).mp ⟨g, hgmem, hgrole, rfl⟩
      obtain ⟨p'', hp'', hfound, hvalue⟩ := of_byCode hcode code
      obtain rfl := Option.some.inj (hp'.symm.trans hfound)
      obtain rfl := List.inj_on_of_nodup_map h.permissionIds hp'' hp (hid.trans hpid.symm)
      exact ⟨code, hmem, hvalue.symm⟩
    · rintro ⟨code, hmem, rfl⟩
      obtain ⟨p, hp, hfound, hvalue⟩ := of_byCode hcode code
      obtain ⟨g, hgmem, hgrole, hgp⟩ :=
        (newGrants_iff hn hg hrole p.id).mpr ⟨code, hmem, p, hfound, rfl⟩
      exact ⟨g, List.mem_append_right _ hgmem, hgrole, p, hp, hgp.symm, hvalue⟩

/-- The tenants there were keep their roles. -/
theorem keptDefaults (hdb : db' .roles = db .roles ++ n.roles)
    (hgrants : db' .rolePermissions = db .rolePermissions ++ n.grants)
    (hpermissions : db' .permissions = db .permissions) {t : Tenant} (ht : t ∈ db .tenants)
    (h : db.DefaultRoles t.id) : db'.DefaultRoles t.id := by
  have hnew : ∀ r ∈ n.roles, r.tenantId ≠ t.id := fun r hr he =>
    present_row.mp hn.newTenant t ht (he.symm.trans (tenantId_of_new hn r hr))
  constructor
  · have hnone : n.roles.filter (fun r => decide (r.tenantId = t.id)) = [] :=
      List.filter_eq_nil_iff.mpr fun r hr he => hnew r hr (of_decide_eq_true he)
    rw [hdb, List.filter_append, hnone, List.append_nil]
    exact h.roles
  · intro role hrole htenant text
    have hrole : role ∈ db .roles := by
      rw [hdb] at hrole
      exact (List.mem_append.mp hrole).resolve_right fun hr => hnew role hr htenant
    rw [← h.grants role hrole htenant text]
    unfold Grants
    rw [hgrants, hpermissions]
    constructor
    · rintro ⟨g, hgmem, hgrole, hp⟩
      refine ⟨g, (List.mem_append.mp hgmem).resolve_right fun hgmem => ?_, hgrole, hp⟩
      obtain ⟨r, hr, hid⟩ := newGrant_role hn hgmem
      exact present_row.mp (hn.newRoles r hr) role hrole (hgrole.symm.trans hid.symm)
    · rintro ⟨g, hgmem, hp⟩
      exact ⟨g, List.mem_append_left _ hgmem, hp⟩

theorem Administered.create (h : db.Administered) :
    Administered (n.writes.foldl (fun db w => w.apply db) db) := by
  obtain ⟨htenants, hmembers, hroles, hassigned, hgrants, hpermissions⟩ :=
    created_rows n db
  have hnames := hn.roles
  simp only [NewTenant.roles, List.map_cons, List.map_nil, List.cons.injEq, Prod.mk.injEq]
    at hnames
  have hadmin : n.admin ∈ n.roles := .head _
  obtain ⟨hot, hou, hactive, hjoinedAt⟩ := hn.owner
  obtain ⟨hsingle, hjoined, hids⟩ := h.append (m := n.owner)
    (iff_of_false (by rw [hactive]; simp) hjoinedAt) hn.newOwner
  generalize n.writes.foldl (fun db w => w.apply db) db = db' at *
  rw [← hmembers] at hsingle hjoined hids
  refine
    { defaults := fun t ht => ?_, owner := fun t ht => ?_, held := fun x hx => ?_,
      single := hsingle, joined := hjoined, tenantIds := ?_, memberIds := hids, roleIds := ?_,
      permissionIds := hpermissions ▸ h.permissionIds, roleTenants := fun r hr => ?_,
      grantRoles := fun g hg => ?_ }
  · rw [htenants] at ht
    rcases List.mem_append.mp ht with ht | ht
    · exact keptDefaults hn hroles hgrants hpermissions ht (h.defaults t ht)
    · rw [List.mem_singleton.mp ht]
      exact newDefaults hn h hroles hgrants hpermissions
  · rw [htenants] at ht
    unfold HasOwner Holds rolesOf
    rw [hmembers, hroles, hassigned]
    rcases List.mem_append.mp ht with ht | ht
    · obtain ⟨o, ho, htenant, hu, hactive, x, hx, r, hr, hheld⟩ := h.owner t ht
      exact ⟨o, List.mem_append_left _ ho, htenant, hu, hactive, x,
        List.filter_append .. ▸ List.mem_append_left _ hx, r, List.mem_append_left _ hr, hheld⟩
    · obtain rfl := List.mem_singleton.mp ht
      refine ⟨n.owner, List.mem_append_right _ (.head _), hot, hou.trans hn.tenant.symm, hactive,
        n.assigned, List.mem_filter.mpr ⟨List.mem_append_right _ (.head _), ?_⟩, n.admin,
        List.mem_append_right _ hadmin, hn.assigned.2.symm, hnames.1.1, hnames.1.2.1⟩
      simpa using hn.assigned.1
  · rw [hassigned] at hx
    rw [hmembers, hroles]
    rcases List.mem_append.mp hx with hx | hx
    · obtain ⟨o, ho, r, hr, hheld⟩ := h.held x hx
      exact ⟨o, List.mem_append_left _ ho, r, List.mem_append_left _ hr, hheld⟩
    · rw [List.mem_singleton.mp hx]
      exact ⟨n.owner, List.mem_append_right _ (.head _), n.admin, List.mem_append_right _ hadmin,
        hn.assigned.1.symm, hn.assigned.2.symm, hnames.1.1.trans hot.symm⟩
  · rw [htenants, List.map_append]
    refine h.tenantIds.append (List.nodup_singleton _) fun id hid hid' => ?_
    obtain ⟨t, ht, rfl⟩ := List.mem_map.mp hid
    exact present_row.mp hn.newTenant t ht (List.mem_singleton.mp hid')
  · rw [hroles, List.map_append]
    refine h.roleIds.append hn.distinct fun id hid hid' => ?_
    obtain ⟨r, hr, rfl⟩ := List.mem_map.mp hid
    obtain ⟨r', hr', he⟩ := List.mem_map.mp hid'
    exact present_row.mp (hn.newRoles r' hr') r hr he.symm
  · rw [hroles] at hr
    rw [htenants]
    rcases List.mem_append.mp hr with hr | hr
    · obtain ⟨t, ht, hid⟩ := h.roleTenants r hr
      exact ⟨t, List.mem_append_left _ ht, hid⟩
    · exact ⟨n.tenant, List.mem_append_right _ (.head _), (tenantId_of_new hn r hr).symm⟩
  · rw [hgrants] at hg
    rw [hroles]
    rcases List.mem_append.mp hg with hg | hg
    · obtain ⟨r, hr, hid⟩ := h.grantRoles g hg
      exact ⟨r, List.mem_append_left _ hr, hid⟩
    · obtain ⟨r, hr, hid⟩ := newGrant_role hn hg
      exact ⟨r, List.mem_append_right _ hr, hid⟩

end NewTenant

/-! ## What the calls commit -/

open Administration (Commits replaceRoles) in
/-- A commit keeps the tenants administered, and turns no status but to the next. -/
theorem Administered.commits {c : AdminCall} {ws : List Write} (h : db.Administered)
    (hc : Commits c db ws) : Administered (ws.foldl (fun db w => w.apply db) db) ∧
      Evolves (db .memberships) (ws.foldl (fun db w => w.apply db) db .memberships) := by
  have requested {db' : Db} {tenantId membershipId : UUID} {row : MembershipRole} {m : Membership}
      (hr : db' .roles = db .roles) (ht : m.tenantId = tenantId)
      (hrow : Administration.Requests db tenantId membershipId row) :
      ∀ x ∈ [row], x.membershipId = membershipId ∧
        ∃ r ∈ db' .roles, r.id = x.roleId ∧ r.tenantId = m.tenantId := by
    obtain ⟨hmid, r, hrmem, hid, hrt, -⟩ := hrow
    rw [hr, ht]
    exact List.forall_mem_singleton.mpr ⟨hmid, r, hrmem, hid, hrt⟩
  cases hc with
  | create n hn =>
    refine ⟨Administered.create hn h, ?_⟩
    rw [(created_rows n db).2.1]
    exact .append _ _
  | invite m ids row hm hnew hrow =>
    have hadded := h.addMember hm.2.1 hm.2.2 hnew
    have hrows : (Write.insert .memberships m).apply db .memberships = db .memberships ++ [m] :=
      Write.apply_insert ..
    have hmem : m ∈ (Write.insert .memberships m).apply db .memberships := by
      rw [hrows]
      exact List.mem_append_right _ (.head _)
    refine ⟨hadded.replaceRoles hmem rfl (requested (Write.apply_other _ db
      (show Table.roles ≠ .memberships by decide)) hm.1 hrow)
      fun t _ _ _ hactive => ?_, ?_⟩
    · rw [hm.2.1] at hactive
      cases hactive
    · rw [List.foldl_cons, replaceRoles_other (by decide), hrows]
      exact .append _ _
  | reinvite loaded m ids row hl ht hleft hm hrow =>
    have hturned := h.turn hl (iff_of_true hm.1 hm.2) (m := m)
      fun t _ _ _ hactive => by rw [hleft] at hactive; cases hactive
    refine ⟨hturned.replaceRoles ((mem_turned h hl).mpr (.inl rfl)) rfl
      (requested (Write.apply_other _ db (show Table.roles ≠ .memberships by decide)) ht hrow)
      fun t _ _ _ hactive => ?_, ?_⟩
    · have hactive : m.status = .active := hactive
      rw [hm.1] at hactive
      cases hactive
    · rw [List.foldl_cons, replaceRoles_other (by decide)]
      exact h.evolves_turn hl (by rw [hleft, hm.1]; exact .reinvite)
  | acceptInvitation loaded m hl hinvited hm =>
    refine ⟨h.turn hl (iff_of_false (by rw [hm.1]; exact nofun) hm.2) fun t _ _ _ hactive => ?_,
      h.evolves_turn hl (by rw [hinvited, hm.1]; exact .accept)⟩
    rw [hinvited] at hactive
    cases hactive
  | leave loaded m tenant hl hactive hloaded ht hid howner hm =>
    refine ⟨h.turn hl (iff_of_false (by rw [hm.1]; exact nofun) ?_) fun t htmem htid hu _ => ?_,
      h.evolves_turn hl (by rw [hactive, hm.1]; exact .leave)⟩
    · rw [hm.2, ← h.joined loaded hl, hactive]
      exact nofun
    · obtain rfl := List.inj_on_of_nodup_map h.tenantIds htmem ht
        (htid.symm.trans (hloaded.2.trans hid.symm))
      exact howner (hu.symm.trans hloaded.1)
  | assignRoles tenant membership roles ids rows ht hid hm hmid hmt hsub hroles hall howner hrows =>
    obtain ⟨x, hx, hxid, hxt, hxu⟩ := hm
    refine ⟨h.replaceRoles hx (hxid.trans hmid) (fun y hy => ?_) fun t htmem htid hu _ => ?_, ?_⟩
    · have hmem := List.mem_map_of_mem (f := fun y => (y.membershipId, y.roleId)) hy
      rw [hrows] at hmem
      obtain ⟨r, hr, he⟩ := List.mem_map.mp hmem
      obtain ⟨hym, hyr⟩ := Prod.mk.inj he
      exact ⟨hym.symm, r, hsub.subset hr, hyr, (hroles r hr).1.trans (hmt.symm.trans hxt.symm)⟩
    · obtain rfl := List.inj_on_of_nodup_map h.tenantIds htmem ht
        (htid.symm.trans (hxt.trans (hmt.trans hid.symm)))
      obtain ⟨r, hr, hname⟩ := howner (hxu.symm.trans hu)
      have hmem := List.mem_map_of_mem (f := fun r : Role => (membership.id, r.id)) hr
      rw [hmid, ← hrows] at hmem
      obtain ⟨y, hy, he⟩ := List.mem_map.mp hmem
      exact ⟨y, hy, r, hsub.subset hr, (congrArg Prod.snd he).symm, (hroles r hr).1.trans hid.symm,
        hname⟩
    · rw [replaceRoles_other (by decide)]
      exact .refl _

end Db

/-! ## Every run -/

/-- In a state the calls have reached every tenant has its administrator, and the next step turns a
membership's status to the next one at most. -/
structure KeepsAdministrators {P : Platform} {S : RBACService}
    {may : Nat → AdminCall → Prop} {admits : Admission}
    (pool : ((adminCalls P S).system may admits AdministrationElsewhere).Pool) : Prop where
  administered : pool.shared.store.db.Administered
  /-- `tenant_admin` has every permission. -/
  admin : ∀ r ∈ pool.shared.store.db .roles, r.name = "tenant_admin" →
    ∀ code : PermissionCode, pool.shared.store.db.Grants r.id code.value
  evolves : ∀ pool', System.Step pool pool' →
    Evolves (pool.shared.store.db .memberships) (pool'.shared.store.db .memberships)

namespace Administration

/-- What holds of the committed rows and the history from `db₀` on. -/
def Governed (db₀ db : Db) (wal : List (Nat × List Write)) : Prop :=
  db.Administered ∧ db .memberships = db₀.after wal .memberships ∧
    ∀ past c, past ++ [c] <+: wal →
      Evolves (db₀.after past .memberships) (db₀.after (past ++ [c]) .memberships)

theorem about_governed (db₀ : Db) : About (Governed db₀) := fun db db' wal hrows h => by
  refine ⟨h.1.congr hrows, ?_, h.2.2⟩
  rw [hrows .memberships (by simp)]
  exact h.2.1

theorem commitOk_governed (db₀ : Db) (admits : Admission) (i : Nat) (c : AdminCall) :
    CommitOk (Governed db₀) admits i c := fun W _ ws _ h hc _ => by
  obtain ⟨hadmin, hrows, hpast⟩ := h
  obtain ⟨hadmin', hev⟩ := hadmin.commits hc
  refine ⟨hadmin', ?_, fun past x hx => ?_⟩
  · rw [Db.after_append]
    exact Write.foldl_congr _ hrows
  · rcases List.prefix_concat_iff.mp hx with he | hx
    · obtain ⟨rfl, rfl⟩ : past = W.store.wal ∧ x = (i, ws) := by
        simpa using List.append_inj' he rfl
      rw [Db.after_append, ← hrows, ← Write.foldl_congr ws hrows]
      exact hev
    · exact hpast past x hx

end Administration

/-- **A tenant never loses its administrator**: from any administered rows, whatever users call
with whatever arguments. -/
theorem tenants_keep_administrators (P : Platform) (S : RBACService)
    {may : Nat → AdminCall → Prop} {admits : Admission} {W₀ : World} (hq : W₀.Quiet)
    (h₀ : W₀.store.db.Administered)
    {pool : ((adminCalls P S).system may admits AdministrationElsewhere).Pool}
    (h : System.Reachable W₀ pool) : KeepsAdministrators pool := by
  have governed {pool' : ((adminCalls P S).system may admits AdministrationElsewhere).Pool}
      (h : System.Reachable W₀ pool') :
      Administration.Governed W₀.store.db pool'.shared.store.db pool'.shared.store.wal :=
    Administration.reached (P := P) (S := S) (Administration.about_governed _)
      (fun i c _ => Administration.commitOk_governed _ admits i c) hq
      ⟨h₀, rfl, fun past c hx => by simp at hx⟩ h
  have hnow := governed h
  refine ⟨hnow.1, fun r hr hname code => ?_, fun pool' hstep => ?_⟩
  · obtain ⟨t, ht, hid⟩ := hnow.1.roleTenants r hr
    refine ((hnow.1.defaults t ht).grants r hr hid.symm code.value).mpr ⟨code, ?_, rfl⟩
    rw [RBACService.defaultCodes, if_pos hname]
    exact PermissionCode.mem_members code
  · have hnext := governed (h.tail hstep)
    rcases Calls.step_commits (fun _ _ he => he.wal) hstep with hw | ⟨i, ws, -, -, hw, -⟩
    · rw [hnext.2.1, hw, ← hnow.2.1]
      exact .refl _
    · have hev := hnext.2.2 pool.shared.store.wal (i, ws) (hw ▸ List.prefix_rfl)
      rw [hnext.2.1, hnow.2.1, hw]
      exact hev

/-- Before there is any tenant. -/
theorem Db.administered_of_empty {db : Db} (ht : db .tenants = []) (hm : db .memberships = [])
    (hr : db .roles = []) (hg : db .rolePermissions = []) (hx : db .membershipRoles = [])
    (hp : ((db .permissions).map (·.id)).Nodup) : db.Administered where
  defaults := by simp [ht]
  owner := by simp [ht]
  held := by simp [hx]
  single := by simp [hm]
  joined := by simp [hm]
  tenantIds := by simp [ht]
  memberIds := by simp [hm]
  roleIds := by simp [hr]
  permissionIds := hp
  roleTenants := by simp [hr]
  grantRoles := by simp [hg]

/-- Two users and no tenant. -/
def Db.unfounded : Db
  | .users => [⟨1, "owner@example.test", "", true, 0, 0⟩, ⟨2, "agent@example.test", "", true, 0, 0⟩]
  | .permissions => Db.provisioned .permissions
  | _ => []

theorem Db.administered_unfounded : Db.unfounded.Administered :=
  administered_of_empty rfl rfl rfl rfl rfl (by decide)

/-- The first of the users. -/
def User.founder : User := ⟨1, "owner@example.test", "", true, 0, 0⟩

/-- The tenant the first user founds. -/
def CurrentTenant.founded : CurrentTenant :=
  ⟨TenantService.newTenant 2 1 "Acme" "acme", TenantService.ownerMembership 4 2 1 0⟩

/-- The first user founds a tenant and invites the second. -/
def Administration.founding : List (System.Move AdminCall Choice Empty) := [
  .start 0 (.create .founder "Acme" "acme"),
  .ops 0 ((List.range 50).map fun k => { uuid := Fin.ofNat _ k }), .finish 0,
  .start 1 (.invite .founded "agent@example.test"), .ops 1 (List.replicate 11 { uuid := 60 }),
  .finish 1]

/-- The second user accepts; the owner tries to leave. -/
theorem tenants_keep_administrators_founded :
    ∃ pool : ((adminCalls .plain ⟨false, 300, 30⟩).system (fun _ _ => True) (fun _ _ _ _ => True)
        AdministrationElsewhere).Pool,
      System.Reachable (World.fresh Db.unfounded) pool ∧
      ((pool.shared.store.db .memberships).map fun m => (m.userId, m.status)) =
        [(1, .active), (2, .active)] ∧
      (pool.threads 3).error? = some .ownerCannotLeave ∧ KeepsAdministrators pool := by
  let moves : List (System.Move AdminCall Choice Empty) := Administration.founding ++ [
    .start 2 (.acceptInvitation ⟨2, "agent@example.test", "", true, 0, 0⟩ 2),
    .ops 2 (List.replicate 6 {}), .finish 2,
    .start 3 (.leave .founder 2), .ops 3 (List.replicate 2 {}), .finish 3]
  obtain ⟨pool, hreach, hobs⟩ := ((adminCalls .plain ⟨false, 300, 30⟩).player
    AdministrationElsewhere (fun _ _ => true) fun _ _ _ => trivial).replay_map moves
    (.init (World.fresh Db.unfounded)) (fun pool =>
      ((pool.shared.store.db .memberships).map fun m => (m.userId, m.status),
        (pool.threads 3).error?))
    (b := ([(1, .active), (2, .active)], some .ownerCannotLeave)) (by decide +kernel)
  obtain ⟨hrows, hthread⟩ := Prod.mk.inj hobs
  exact ⟨pool, hreach, hrows, hthread, tenants_keep_administrators _ _ (World.quiet_fresh _)
    Db.administered_unfounded hreach⟩

end Ticketing
