import Ticketing.Migrations.Rules
import Ticketing.Services.Tenant
import Mathlib.Data.List.ProdSigma

/-!
# Migrated tenants have the default roles

The default roles are written twice: by `provision_defaults`, and by migration 0004 with the
grants that 0005, 0006 and 0009 add.

* `Staffed` is what a migration leaves for the next one: for the tenants it has come to, the three
  roles with what revision `k` of the catalogue grants them, and one role for each membership.
* `meets_upgrade0004` and so on say what each migration makes of it.

**`migrated_tenants_equal_provisioned`**: from any database at revision 0003, through 0010, every
tenant has the roles, the grants and the memberships' roles that `provision_defaults` would give
it (`Migrated`); and from any at 0005, through 0006, every ticket has the one event that it would
have if it had been created as it is (`Db.Recorded`).

Assumed: the ids that are drawn are distinct (`Server.Distinct`) and, at 0005, that the tables do
not have them yet (`Revision0005`).
-/

namespace Ticketing

/-- Every ticket has one event, which created it as it is. -/
def Db.Recorded (db : Db) : Prop :=
  ∀ ticket ∈ db .tickets, ((db .ticketEvents).filter (·.ticketId = ticket.id)).map
    (fun e => (e.eventType, e.toStatus, e.toAssigneeMembershipId)) =
      [(.created, ticket.status, ticket.assigneeMembershipId)]

namespace Migration

variable {server : Server} {s : Draft} {N : Nat}

/-! ## Grants to administrators and agents -/

/-- The roles that later revisions grant more. -/
def staff (db : Db) : List Role := (db .roles).filter fun r => r.name ∈ ["tenant_admin", "agent"]

theorem meets_grantToStaff {ids : List UUID} {Q : Unit → Draft → Prop}
    (hs : server.Distinct N) (hN : s.drawn + (staff s.db).length * ids.length ≤ N)
    (hids : ids.Nodup)
    (hroles : ((s.db .roles).map Role.id).Nodup) (hundrawn : Undrawn server N s .rolePermissions)
    (hnew : ∀ g ∈ s.db .rolePermissions, g.permissionId ∉ ids)
    (h : ∀ s' rows, Added server s s' .rolePermissions rows →
      rows.length = (staff s.db).length * ids.length → (∀ roleId p, (∃ g ∈ rows, g.roleId = roleId ∧
      g.permissionId = p) ↔
        (∃ r ∈ s.db .roles, r.id = roleId ∧ r.name ∈ ["tenant_admin", "agent"]) ∧ p ∈ ids) →
      Q () s') : Meets (grantToStaff ids) server s Q := by
  refine meets_bind (meets_select (Q := fun roleIds s' =>
    roleIds = (staff s.db).map (·.id) ∧ s = s') ⟨rfl, rfl⟩) ?_
  rintro roleIds _ ⟨hroleIds, rfl⟩
  have hnodup : roleIds.Nodup := by
    rw [hroleIds]
    exact hroles.sublist (List.filter_sublist.map Role.id)
  have hmem (roleId : UUID) : roleId ∈ roleIds ↔
      ∃ r ∈ s.db .roles, r.id = roleId ∧ r.name ∈ ["tenant_admin", "agent"] := by
    rw [hroleIds, List.mem_map]
    simp only [staff, List.mem_filter, decide_eq_true_eq]
    exact ⟨fun ⟨r, ⟨hr, hn⟩, hid⟩ => ⟨r, hr, hid, hn⟩, fun ⟨r, hr, hid, hn⟩ => ⟨r, ⟨hr, hn⟩, hid⟩⟩
  have hpair (roleId p : UUID) : (roleId, p) ∈ (roleIds.flatMap fun roleId =>
      ids.map fun permissionId => (roleId, permissionId)) ↔ roleId ∈ roleIds ∧ p ∈ ids :=
    List.pair_mem_product
  have hlength : (roleIds.flatMap fun roleId =>
      ids.map fun permissionId => (roleId, permissionId)).length =
        (staff s.db).length * ids.length := by
    rw [← List.length_map (f := fun r : Role => r.id), ← hroleIds]
    exact List.length_product roleIds ids
  refine meets_add (fun g : RolePermission => (g.roleId, g.permissionId)) id hs
    (by rwa [hlength]) (fun _ _ => rfl) (fun _ _ => rfl) ?_ ?_ (fun _ => rfl) hundrawn ?_
    fun s' rows ha hrows => h s' rows ha ?_ fun roleId p => ?_
  · rw [List.map_id]
    exact hnodup.product hids
  · intro r x hne k hk hkx
    obtain rfl := List.mem_singleton.mp hk
    obtain ⟨hr, hp⟩ := Key.rolePermissionPair.inj (List.mem_singleton.mp hkx)
    exact hne (Prod.ext hr hp)
  · rintro ⟨roleId, p⟩ hmem x hx he
    have hp : p = x.permissionId := (Prod.mk.inj he).2
    exact hnew x hx (hp ▸ ((hpair roleId p).mp hmem).2)
  · rw [← hlength, ← List.length_map (f := fun g : RolePermission => (g.roleId, g.permissionId)),
      hrows, List.length_map]
  · rw [← hmem, ← hpair, ← List.map_id (List.flatMap _ _), ← hrows, List.mem_map]
    simp only [Prod.mk.injEq]

/-! ## From revision to revision -/

/-- The permissions, in the order of the revisions that add them. -/
def catalogue : List Permission :=
  permissions0004 ++ permissions0005 ++ [workflowPermission, internalCommentPermission]

/-- What the first `k` permissions allow a role of that name. -/
def staffed (k : Nat) (name : String) : List Permission :=
  if name = "tenant_admin" then catalogue.take k
  else if name = "agent" then
    (catalogue.take k).filter (·.code ∉ ["members.invite", "roles.manage"])
  else []

/-- The tables that say who may do what, the catalogue apart. -/
def rbacTables : List Table := [.tenants, .memberships, .roles, .rolePermissions, .membershipRoles]

/-- The role of a member before anybody assigned any. -/
def initialRole (tenant : Tenant) (m : Membership) : String :=
  if m.userId = tenant.ownerUserId then "tenant_admin" else "requester"

/-- The first `c` permissions are in the catalogue, and the tenants' roles have been granted what
the first `k` allow them. There are `b` ids left. -/
structure Staffed (server : Server) (N : Nat) (db₀ : Db) (tenants : List Tenant) (b c k : Nat)
    (s : Draft) : Prop where
  budget : s.drawn + b ≤ N
  sameTenants : s.db .tenants = db₀ .tenants
  sameMembers : s.db .memberships = db₀ .memberships
  permitted : s.db .permissions = catalogue.take c
  newRoles : Undrawn server N s .roles
  newGrants : Undrawn server N s .rolePermissions
  newAssigned : Undrawn server N s .membershipRoles
  roleIds : ((s.db .roles).map Role.id).Nodup
  roleTenants : ∀ r ∈ s.db .roles, ∃ t ∈ tenants, t.id = r.tenantId
  twoStaff : (staff s.db).length = 2 * tenants.length
  defaultRoles : ∀ t ∈ tenants,
    ((s.db .roles).filter (·.tenantId = t.id)).map (fun r => (r.name, r.isSystem)) =
      [("tenant_admin", true), ("agent", true), ("requester", true)]
  grants : ∀ r ∈ s.db .roles, ∀ p, (∃ g ∈ s.db .rolePermissions, g.roleId = r.id ∧
    g.permissionId = p) ↔ ∃ q ∈ staffed k r.name, q.id = p
  grantRoles : ∀ g ∈ s.db .rolePermissions, ∃ r ∈ s.db .roles, r.id = g.roleId
  assigned : ∀ t ∈ tenants, ∀ m ∈ db₀ .memberships, m.tenantId = t.id →
    ∃ r ∈ s.db .roles, r.tenantId = t.id ∧ r.name = initialRole t m ∧
      ((s.db .membershipRoles).filter (·.membershipId = m.id)).map (·.roleId) = [r.id]
  members : ∀ a ∈ s.db .membershipRoles, ∃ m ∈ db₀ .memberships, m.id = a.membershipId ∧
    ∃ t ∈ tenants, t.id = m.tenantId

variable {db₀ : Db} {tenants : List Tenant} {b c k : Nat} {s' : Draft}

theorem Staffed.of_same {c' : Nat} (h : Staffed server N db₀ tenants b c k s)
    (hdb : ∀ t ∈ rbacTables, s'.db t = s.db t) (hp : s'.db .permissions = catalogue.take c')
    (hd : s'.drawn = s.drawn) : Staffed server N db₀ tenants b c' k s' := by
  simp only [rbacTables, List.forall_mem_cons] at hdb
  obtain ⟨ht, hm, hr, hg, ha, -⟩ := hdb
  have undrawn {t : Table} (ht : s'.db t = s.db t) (hu : Undrawn server N s t) :
      Undrawn server N s' t := fun r hmem n hn => hu r (ht ▸ hmem) n (hd ▸ hn)
  refine ⟨hd ▸ h.budget, ht.trans h.sameTenants, hm.trans h.sameMembers, hp,
    undrawn hr h.newRoles, undrawn hg h.newGrants, undrawn ha h.newAssigned, ?_, ?_, ?_, ?_, ?_, ?_,
    ?_, ?_⟩
  · rw [hr]
    exact h.roleIds
  · rw [hr]
    exact h.roleTenants
  · rw [staff, hr]
    exact h.twoStaff
  · rw [hr]
    exact h.defaultRoles
  · rw [hr, hg]
    exact h.grants
  · rw [hr, hg]
    exact h.grantRoles
  · rw [hr, ha]
    exact h.assigned
  · rw [ha]
    exact h.members

/-- Other tables come and go. -/
theorem Staffed.other (h : Staffed server N db₀ tenants b c k s) {t : Table}
    (ht : t ∉ Table.permissions :: rbacTables) (hd : s'.drawn = s.drawn)
    (ho : ∀ t', t' ≠ t → s'.db t' = s.db t') : Staffed server N db₀ tenants b c k s' := by
  have other (t' : Table) (hmem : t' ∈ Table.permissions :: rbacTables) : s'.db t' = s.db t' :=
    ho t' (by rintro rfl; exact ht hmem)
  exact h.of_same (fun t' hmem => other t' (List.mem_cons_of_mem _ hmem))
    ((other .permissions List.mem_cons_self).trans h.permitted) hd

/-- A revision adds permissions. -/
theorem meets_permit (c' : Nat) {new : List Permission} (hdb : s.db .permissions = catalogue.take c)
    (hnew : catalogue.take c' = catalogue.take c ++ new) {R : Unit → Draft → Prop}
    (hR : ∀ s', s'.drawn = s.drawn → s'.db .permissions = catalogue.take c' →
      (∀ t, t ≠ .permissions → s'.db t = s.db t) → R () s') :
    Meets (bulkInsert .permissions new) server s R := by
  have hnodup : (catalogue.map (·.id)).Nodup ∧ (catalogue.map (·.code)).Nodup := by decide
  have hids : ((catalogue.take c').map (·.id)).Nodup :=
    hnodup.1.sublist ((List.take_sublist c' _).map _)
  have hcodes : ((catalogue.take c').map (·.code)).Nodup :=
    hnodup.2.sublist ((List.take_sublist c' _).map _)
  rw [hnew, List.map_append, List.nodup_append] at hids hcodes
  have hu (r x : Permission) (hne : r.code ≠ x.code) :
      ∀ key ∈ Table.uniques .permissions r, key ∉ Table.uniques .permissions x := by
    intro key hk hx
    obtain rfl := List.mem_singleton.mp hk
    exact hne (Key.permissionCode.inj (List.mem_singleton.mp hx))
  refine meets_bulkInsert (pairwise_apart Permission.code hids.2.1 hcodes.2.1 hu)
    (fun r hr x hx => ?_) (hR _ rfl ?_ fun t ht => Function.update_of_ne ht ..)
  · rw [hdb] at hx
    exact ⟨hids.2.2 _ (List.mem_map_of_mem hx) _ (List.mem_map_of_mem hr), hu r x
      (Ne.symm (hcodes.2.2 _ (List.mem_map_of_mem hx) _ (List.mem_map_of_mem hr)))⟩
  · have hrows : s.db .permissions ++ new.map (Table.stampInsert server.now .permissions) =
        catalogue.take c' := by
      rw [hdb, hnew]
      exact congrArg _ (List.map_id' new)
    rw [← hrows]
    exact Function.update_self (β := fun t : Table => List t.Row) Table.permissions _ s.db

theorem Staffed.permit (h : Staffed server N db₀ tenants b c k s) (c' : Nat) {new : List Permission}
    (hnew : catalogue.take c' = catalogue.take c ++ new) {R : Unit → Draft → Prop}
    (hR : ∀ s', Staffed server N db₀ tenants b c' k s' →
      (∀ t, t ≠ .permissions → s'.db t = s.db t) → R () s') :
    Meets (bulkInsert .permissions new) server s R :=
  meets_permit _ h.permitted hnew fun s' hd hp ho => hR s' (h.of_same
    (fun t ht => ho t (by rintro rfl; exact absurd ht (by decide))) hp hd) ho

/-- Only administrators and agents are allowed more. -/
theorem staffed_more (hk : ∀ name ∈ ["tenant_admin", "agent"],
    staffed c name = staffed k name ++ (catalogue.take c).drop k) (name : String) (p : UUID) :
    (∃ q ∈ staffed c name, q.id = p) ↔ (∃ q ∈ staffed k name, q.id = p) ∨
      name ∈ ["tenant_admin", "agent"] ∧ p ∈ ((catalogue.take c).drop k).map (·.id) := by
  by_cases hname : name ∈ ["tenant_admin", "agent"]
  · rw [hk name hname]
    simp only [List.mem_append, or_and_right, exists_or, hname, true_and, List.mem_map]
  · have hnone (n : Nat) : staffed n name = [] := by
      simp only [List.mem_cons, List.not_mem_nil, or_false, not_or] at hname
      rw [staffed, if_neg hname.1, if_neg hname.2]
    simp [hnone, hname]

theorem staffed_sublist (k : Nat) (name : String) : (staffed k name).Sublist
    (catalogue.take k) := by
  unfold staffed
  split
  · exact List.Sublist.refl _
  · split
    · exact List.filter_sublist
    · exact List.nil_sublist _

/-- What a revision adds has not been granted before. -/
theorem Staffed.ungranted (h : Staffed server N db₀ tenants b c k s) {g : RolePermission}
    (hg : g ∈ s.db .rolePermissions) :
    g.permissionId ∉ ((catalogue.take c).drop k).map (·.id) := by
  have hnodup : (catalogue.map (·.id)).Nodup := by decide
  rw [← List.take_append_drop k catalogue, List.map_append, List.nodup_append] at hnodup
  obtain ⟨r, hr, hid⟩ := h.grantRoles g hg
  obtain ⟨q, hq, hqid⟩ := (h.grants r hr g.permissionId).mp ⟨g, hg, hid.symm, rfl⟩
  intro hmem
  obtain ⟨q', hq', he⟩ := List.mem_map.mp hmem
  rw [List.drop_take] at hq'
  exact hnodup.2.2 _ (List.mem_map_of_mem ((staffed_sublist k _).mem hq)) _
    (List.mem_map_of_mem (List.mem_of_mem_take hq')) (hqid.trans he.symm)

/-- The staff is granted what has been added. -/
theorem Staffed.grant (hs : server.Distinct N)
    (h : Staffed server N db₀ tenants
      (b + 2 * tenants.length * ((catalogue.take c).drop k).length) c k s)
    (hk : ∀ name ∈ ["tenant_admin", "agent"],
      staffed c name = staffed k name ++ (catalogue.take c).drop k)
    {R : Unit → Draft → Prop} (hR : ∀ s', Staffed server N db₀ tenants b c c s' →
      (∀ t, t ≠ .rolePermissions → s'.db t = s.db t) → R () s') :
    Meets (grantToStaff (((catalogue.take c).drop k).map (·.id))) server s R := by
  have hnodup : (catalogue.map (·.id)).Nodup := by decide
  have hids : (((catalogue.take c).drop k).map (·.id)).Nodup :=
    hnodup.sublist (((List.drop_sublist k _).trans (List.take_sublist c _)).map _)
  have hbudget := h.budget
  have hlength : (staff s.db).length * (((catalogue.take c).drop k).map (·.id)).length =
      2 * tenants.length * ((catalogue.take c).drop k).length := by rw [h.twoStaff, List.length_map]
  refine meets_grantToStaff hs (by omega) hids h.roleIds h.newGrants (fun g hg => h.ungranted hg)
    fun s' rows ha hcount hrows => ?_
  have hroles : s'.db .roles = s.db .roles := ha.others .roles (by decide)
  have hassigned : s'.db .membershipRoles = s.db .membershipRoles :=
    ha.others .membershipRoles (by decide)
  refine hR s' ⟨?_, (ha.others .tenants (by decide)).trans h.sameTenants,
    (ha.others .memberships (by decide)).trans h.sameMembers,
    (ha.others .permissions (by decide)).trans h.permitted,
    ha.undrawn_other (by decide) h.newRoles, ha.undrawn hs h.newGrants,
    ha.undrawn_other (by decide) h.newAssigned, ?_, ?_, ?_, ?_, ?_, ?_, ?_, ?_⟩ ha.others
  · rw [ha.drawn, hcount, hlength]
    omega
  · rw [hroles]
    exact h.roleIds
  · rw [hroles]
    exact h.roleTenants
  · rw [staff, hroles]
    exact h.twoStaff
  · rw [hroles]
    exact h.defaultRoles
  · intro r hr p
    rw [hroles] at hr
    have hstaff : (∃ r' ∈ s.db .roles, r'.id = r.id ∧ r'.name ∈ ["tenant_admin", "agent"]) ↔
        r.name ∈ ["tenant_admin", "agent"] := by
      refine ⟨fun ⟨r', hr', hid, hn⟩ => ?_, fun hn => ⟨r, hr, rfl, hn⟩⟩
      rwa [List.inj_on_of_nodup_map h.roleIds hr' hr hid] at hn
    rw [staffed_more hk, ← h.grants r hr p, ← hstaff, ← hrows, ha.table]
    simp only [List.mem_append, or_and_right, exists_or]
  · intro g hg
    rw [hroles]
    rw [ha.table] at hg
    rcases List.mem_append.mp hg with hg | hg
    · exact h.grantRoles g hg
    · obtain ⟨⟨r, hr, hid, -⟩, -⟩ := (hrows g.roleId g.permissionId).mp ⟨g, hg, rfl, rfl⟩
      exact ⟨r, hr, hid⟩
  · rw [hroles, hassigned]
    exact h.assigned
  · rw [hassigned]
    exact h.members

/-! ## Revision 0004 -/

variable (server) in
/-- A role as the server stores it. -/
def storedRole (id tenantId : UUID) (name : String) : Role :=
  Table.stampInsert server.now .roles (RBACService.newRole id tenantId name)

variable (server) in
/-- The roles of a new tenant. -/
def tenantRoles (admin agent requester tenantId : UUID) : List Role :=
  [storedRole server admin tenantId "tenant_admin", storedRole server agent tenantId "agent",
    storedRole server requester tenantId "requester"]

/-- What 0004 grants them. -/
def tenantGrants (admin agent : UUID) : List (UUID × UUID) :=
  ((catalogue.take 3).map fun p => (admin, p.id)) ++ [(agent, 0x10000000000000000000000000000001)]

/-- What has been added for a tenant. -/
structure Provisioned (server : Server) (db₀ : Db) (tenant : Tenant) (s s' : Draft) where
  admin : UUID
  agent : UUID
  requester : UUID
  s₁ : Draft
  s₂ : Draft
  newGrants : List RolePermission
  newAssigned : List MembershipRole
  distinct : [admin, agent, requester].Nodup
  roles : Added server s s₁ .roles (tenantRoles server admin agent requester tenant.id)
  granted : Added server s₁ s₂ .rolePermissions newGrants
  grants : newGrants.map (fun g => (g.roleId, g.permissionId)) = tenantGrants admin agent
  assigned : Added server s₂ s' .membershipRoles newAssigned
  members : newAssigned.map (fun a => (a.membershipId, a.roleId)) =
    ((db₀ .memberships).filter (·.tenantId = tenant.id)).map fun m =>
      (m.id, if m.userId = tenant.ownerUserId then admin else requester)

/-- How many ids 0004 draws for a tenant. -/
def tenantIds (db : Db) (tenant : Tenant) : Nat :=
  7 + ((db .memberships).filter (·.tenantId = tenant.id)).length

namespace Provisioned

variable {tenant : Tenant}

theorem drawn (h : Provisioned server db₀ tenant s s') :
    s'.drawn = s.drawn + tenantIds db₀ tenant := by
  have hgrants : h.newGrants.length = 4 := by
    rw [← List.length_map (f := fun g : RolePermission => (g.roleId, g.permissionId)), h.grants]
    rfl
  have hassigned := congrArg List.length h.members
  rw [List.length_map, List.length_map] at hassigned
  rw [h.assigned.drawn, h.granted.drawn, h.roles.drawn, hgrants, hassigned]
  simp only [tenantRoles, List.length_cons, List.length_nil, tenantIds]
  omega

theorem tables (h : Provisioned server db₀ tenant s s') :
    s'.db .roles = s.db .roles ++ tenantRoles server h.admin h.agent h.requester tenant.id ∧
      s'.db .rolePermissions = s.db .rolePermissions ++ h.newGrants ∧
      s'.db .membershipRoles = s.db .membershipRoles ++ h.newAssigned ∧
      ∀ t, t ∉ [Table.roles, Table.rolePermissions, Table.membershipRoles] → s'.db t = s.db t := by
  refine ⟨?_, ?_, ?_, fun t ht => ?_⟩
  · rw [h.assigned.others .roles (by decide), h.granted.others .roles (by decide), h.roles.table]
  · rw [h.assigned.others .rolePermissions (by decide), h.granted.table,
      h.roles.others .rolePermissions (by decide)]
  · rw [h.assigned.table, h.granted.others .membershipRoles (by decide),
      h.roles.others .membershipRoles (by decide)]
  · simp only [List.mem_cons, List.not_mem_nil, or_false, not_or] at ht
    rw [h.assigned.others t ht.2.2, h.granted.others t ht.2.1, h.roles.others t ht.1]

theorem mem_tenantRoles {admin agent requester tenantId : UUID} {r : Role}
    (h : r ∈ tenantRoles server admin agent requester tenantId) :
    r.tenantId = tenantId ∧ (r.id = admin ∧ r.name = "tenant_admin" ∨
      r.id = agent ∧ r.name = "agent" ∨ r.id = requester ∧ r.name = "requester") := by
  simp only [tenantRoles, List.mem_cons, List.not_mem_nil, or_false] at h
  rcases h with rfl | rfl | rfl
  · exact ⟨rfl, .inl ⟨rfl, rfl⟩⟩
  · exact ⟨rfl, .inr (.inl ⟨rfl, rfl⟩)⟩
  · exact ⟨rfl, .inr (.inr ⟨rfl, rfl⟩)⟩

/-- No other role has one of the new ids. -/
theorem old_role (h : Provisioned server db₀ tenant s s') (hN : s'.drawn ≤ N) (hu : Undrawn server N
    s .roles)
    {r : Role} (r' : Role) (hr : r ∈ s.db .roles)
    (hr' : r' ∈ tenantRoles server h.admin h.agent h.requester tenant.id) : r.id ≠ r'.id := by
  obtain ⟨n, hn, hlt, hid⟩ := h.roles.ids r' hr'
  have hle := h.granted.le.trans h.assigned.le
  exact fun he => hu r hr n hn (by omega) (he.trans hid)

/-- The new roles are granted what revision 0004 allows them. -/
theorem grants_iff (h : Provisioned server db₀ tenant s s') {r : Role}
    (hr : r ∈ tenantRoles server h.admin h.agent h.requester tenant.id) (p : UUID) :
    (∃ g ∈ h.newGrants, g.roleId = r.id ∧ g.permissionId = p) ↔
      ∃ q ∈ staffed 3 r.name, q.id = p := by
  have hpair (roleId : UUID) : (∃ g ∈ h.newGrants, g.roleId = roleId ∧ g.permissionId = p) ↔
      (roleId, p) ∈ tenantGrants h.admin h.agent := by
    rw [← h.grants, List.mem_map]
    simp only [Prod.mk.injEq]
  have hd := h.distinct
  simp only [List.nodup_cons, List.mem_cons, List.not_mem_nil, or_false, not_or] at hd
  obtain ⟨⟨hag, har⟩, hgr, -⟩ := hd
  rw [hpair, ← List.mem_map (f := Permission.id)]
  obtain ⟨-, ⟨hid, hn⟩ | ⟨hid, hn⟩ | ⟨hid, hn⟩⟩ := mem_tenantRoles hr <;> rw [hid, hn]
  · have hstaff : (staffed 3 "tenant_admin").map Permission.id =
      (catalogue.take 3).map Permission.id := by decide
    simp only [hstaff, tenantGrants, List.mem_append, List.mem_map, Prod.mk.injEq, true_and,
      List.mem_singleton, hag, false_and, or_false]
  · have hstaff : (staffed 3 "agent").map Permission.id =
      [0x10000000000000000000000000000001] := by decide
    simp only [hstaff, tenantGrants, List.mem_append, List.mem_map, Prod.mk.injEq, true_and,
      List.mem_singleton, hag, false_and, and_false, exists_false, false_or]
  · have hstaff : (staffed 3 "requester").map Permission.id = [] := by decide
    simp only [hstaff, tenantGrants, List.mem_append, List.mem_map, Prod.mk.injEq,
      List.mem_singleton, har, Ne.symm hgr, false_and, and_false, exists_false, or_false,
      List.not_mem_nil]

theorem mem_members (h : Provisioned server db₀ tenant s s') {a : MembershipRole}
    (ha : a ∈ h.newAssigned) :
    ∃ m ∈ db₀ .memberships, m.id = a.membershipId ∧ m.tenantId = tenant.id := by
  have hmem := List.mem_map_of_mem (f := fun a : MembershipRole => (a.membershipId, a.roleId)) ha
  rw [h.members] at hmem
  obtain ⟨m, hm, he⟩ := List.mem_map.mp hmem
  rw [List.mem_filter, decide_eq_true_eq] at hm
  exact ⟨m, hm.1, (Prod.mk.inj he).1, hm.2⟩

/-- Every member of the tenant is given one role. -/
theorem assigned_eq (h : Provisioned server db₀ tenant s s')
    (hids : ((db₀ .memberships).map Membership.id).Nodup) {m : Membership}
    (hm : m ∈ db₀ .memberships) (ht : m.tenantId = tenant.id) :
    (h.newAssigned.filter (·.membershipId = m.id)).map (·.roleId) =
      [if m.userId = tenant.ownerUserId then h.admin else h.requester] := by
  have hfilter : ((db₀ .memberships).filter (·.tenantId = tenant.id)).filter (·.id = m.id) = [m] :=
    filter_of_nodup (hids.sublist (List.filter_sublist.map _))
      (List.mem_filter.mpr ⟨hm, decide_eq_true ht⟩)
  have hpairs : (h.newAssigned.filter (·.membershipId = m.id)).map (·.roleId) =
      ((h.newAssigned.map fun a => (a.membershipId, a.roleId)).filter (·.1 = m.id)).map (·.2) := by
    rw [List.filter_map, List.map_map]
    rfl
  rw [hpairs, h.members, List.filter_map, List.map_map]
  exact congrArg (List.map _) hfilter

end Provisioned

/-- One more tenant has its roles. -/
theorem Staffed.provisioned {tenant : Tenant} (hs : server.Distinct N)
    (h : Staffed server N db₀ tenants (b + tenantIds db₀ tenant) 3 3 s)
    (hnew : ∀ t ∈ tenants, t.id ≠ tenant.id)
    (hids : ((db₀ .memberships).map Membership.id).Nodup)
    (hp : Provisioned server db₀ tenant s s') :
    Staffed server N db₀ (tenants ++ [tenant]) b 3 3 s' := by
  have hbudget : s'.drawn + b ≤ N := by
    have := h.budget
    rw [hp.drawn]
    omega
  have hN : s'.drawn ≤ N := by omega
  obtain ⟨hroles, hgrants, hassigned, hothers⟩ := hp.tables
  have hroleIds : ((tenantRoles server hp.admin hp.agent hp.requester tenant.id).map
      (Table.id .roles)).Nodup := hp.distinct
  have hnone : (s.db .roles).filter (·.tenantId = tenant.id) = [] := by
    refine List.filter_eq_nil_iff.mpr fun r hr he => ?_
    obtain ⟨t, ht, hid⟩ := h.roleTenants r hr
    exact hnew t ht (hid.trans (of_decide_eq_true he))
  refine ⟨hbudget, (hothers .tenants (by decide)).trans h.sameTenants,
    (hothers .memberships (by decide)).trans h.sameMembers,
    (hothers .permissions (by decide)).trans h.permitted,
    hp.assigned.undrawn_other (by decide) (hp.granted.undrawn_other (by decide)
      (hp.roles.undrawn hs h.newRoles)),
    hp.assigned.undrawn_other (by decide) (hp.granted.undrawn hs
      (hp.roles.undrawn_other (by decide) h.newGrants)),
    hp.assigned.undrawn hs (hp.granted.undrawn_other (by decide)
      (hp.roles.undrawn_other (by decide) h.newAssigned)), ?_, ?_, ?_, ?_, ?_, ?_, ?_, ?_⟩
  · rw [hroles, ← hp.roles.table]
    exact hp.roles.nodup ((hp.granted.le.trans hp.assigned.le).trans hN) h.newRoles h.roleIds
      hroleIds
  · intro r hr
    rw [hroles] at hr
    rcases List.mem_append.mp hr with hr | hr
    · obtain ⟨t, ht, hid⟩ := h.roleTenants r hr
      exact ⟨t, List.mem_append_left _ ht, hid⟩
    · exact ⟨tenant, by simp, (Provisioned.mem_tenantRoles hr).1.symm⟩
  · have htwo : ((tenantRoles server hp.admin hp.agent hp.requester tenant.id).filter fun r =>
        r.name ∈ ["tenant_admin", "agent"]).length = 2 := rfl
    have hstaff := h.twoStaff
    rw [staff] at hstaff ⊢
    rw [hroles, List.filter_append, List.length_append, hstaff, htwo, List.length_append,
      List.length_singleton]
    omega
  · intro t ht
    rw [hroles, List.filter_append]
    rcases List.mem_append.mp ht with ht | ht
    · have hothers : (tenantRoles server hp.admin hp.agent hp.requester tenant.id).filter
          (·.tenantId = t.id) = [] :=
        List.filter_eq_nil_iff.mpr fun r hr he => hnew t ht
          ((of_decide_eq_true he).symm.trans (Provisioned.mem_tenantRoles hr).1)
      rw [hothers, List.append_nil]
      exact h.defaultRoles t ht
    · rw [List.mem_singleton.mp ht, hnone, List.filter_eq_self.mpr fun r hr =>
        decide_eq_true (Provisioned.mem_tenantRoles hr).1]
      rfl
  · intro r hr p
    rw [hgrants]
    rw [hroles] at hr
    simp only [List.mem_append, or_and_right, exists_or]
    rcases List.mem_append.mp hr with hr | hr
    · -- an old role is granted nothing new
      rw [h.grants r hr p, or_iff_left]
      rintro ⟨g, hg, hid, -⟩
      have hmem := List.mem_map_of_mem (f := fun g : RolePermission => (g.roleId, g.permissionId))
        hg
      rw [hp.grants] at hmem
      rcases List.mem_append.mp hmem with hmem | hmem
      · obtain ⟨q, -, he⟩ := List.mem_map.mp hmem
        exact hp.old_role hN h.newRoles (storedRole server hp.admin tenant.id "tenant_admin") hr
          (by simp [tenantRoles]) (hid.symm.trans (Prod.mk.inj he).1.symm)
      · exact hp.old_role hN h.newRoles (storedRole server hp.agent tenant.id "agent") hr
          (by simp [tenantRoles])
          (hid.symm.trans (Prod.mk.inj (List.mem_singleton.mp hmem)).1)
    · -- nobody has granted a new role anything yet
      rw [or_iff_right, hp.grants_iff hr p]
      rintro ⟨g, hg, hid, -⟩
      obtain ⟨r', hr', hid'⟩ := h.grantRoles g hg
      exact hp.old_role hN h.newRoles _ hr' hr (hid'.trans hid)
  · intro g hg
    rw [hroles]
    rw [hgrants] at hg
    rcases List.mem_append.mp hg with hg | hg
    · obtain ⟨r, hr, hid⟩ := h.grantRoles g hg
      exact ⟨r, List.mem_append_left _ hr, hid⟩
    · have hmem := List.mem_map_of_mem (f := fun g : RolePermission => (g.roleId, g.permissionId))
        hg
      rw [hp.grants] at hmem
      rcases List.mem_append.mp hmem with hmem | hmem
      · obtain ⟨q, -, he⟩ := List.mem_map.mp hmem
        exact ⟨storedRole server hp.admin tenant.id "tenant_admin", by simp [tenantRoles],
          (Prod.mk.inj he).1⟩
      · exact ⟨storedRole server hp.agent tenant.id "agent", by simp [tenantRoles],
          (Prod.mk.inj (List.mem_singleton.mp hmem)).1.symm⟩
  · intro t ht m hm hmt
    rw [hroles, hassigned, List.filter_append, List.map_append]
    rcases List.mem_append.mp ht with ht | ht
    · obtain ⟨r, hr, hrt, hrn, ha⟩ := h.assigned t ht m hm hmt
      refine ⟨r, List.mem_append_left _ hr, hrt, hrn, ?_⟩
      rw [ha, List.filter_eq_nil_iff.mpr fun a ha he => ?_]
      · rfl
      · obtain ⟨m', hm', hid, ht'⟩ := hp.mem_members ha
        have := List.inj_on_of_nodup_map hids hm' hm (hid.trans (of_decide_eq_true he))
        exact hnew t ht (hmt.symm.trans (this ▸ ht'))
    · rw [List.mem_singleton.mp ht] at hmt ⊢
      rw [List.filter_eq_nil_iff.mpr fun a ha he => ?_, hp.assigned_eq hids hm hmt]
      · unfold initialRole
        split
        · exact ⟨storedRole server hp.admin tenant.id "tenant_admin", by simp [tenantRoles], rfl,
            rfl, rfl⟩
        · exact ⟨storedRole server hp.requester tenant.id "requester", by simp [tenantRoles], rfl,
            rfl, rfl⟩
      · obtain ⟨m', hm', hid, t', ht', htid⟩ := h.members a ha
        have := List.inj_on_of_nodup_map hids hm' hm (hid.trans (of_decide_eq_true he))
        exact hnew t' ht' (htid.trans (this ▸ hmt))
  · intro a ha
    rw [hassigned] at ha
    rcases List.mem_append.mp ha with ha | ha
    · obtain ⟨m, hm, hid, t, ht, htid⟩ := h.members a ha
      exact ⟨m, hm, hid, t, List.mem_append_left _ ht, htid⟩
    · obtain ⟨m, hm, hid, ht⟩ := hp.mem_members ha
      exact ⟨m, hm, hid, tenant, by simp, ht.symm⟩

/-- What 0004 reads back of the catalogue. -/
def permissionIds0004 : List (String × UUID) := (catalogue.take 3).map fun p => (p.code, p.id)

theorem meets_addRoles {s₀ : Draft} {admin agent requester tenantId : UUID}
    (hdistinct : [admin, agent, requester].Nodup)
    (hdrawn : ∀ id ∈ [admin, agent, requester], DrawnBetween server s s₀ id)
    (hdb : s₀.db = s.db) (hthree : s₀.drawn = s.drawn + 3) (hN : s₀.drawn ≤ N)
    (hundrawn : Undrawn server N s .roles) (hnew : ∀ r ∈ s.db .roles, r.tenantId ≠ tenantId)
    {Q : Unit → Draft → Prop} (h : ∀ s',
      Added server s s' .roles (tenantRoles server admin agent requester tenantId) → Q () s') :
    Meets (bulkInsert .roles [RBACService.newRole admin tenantId "tenant_admin",
      RBACService.newRole agent tenantId "agent",
      RBACService.newRole requester tenantId "requester"]) server s₀ Q := by
  have hmem {r : Role} (hr : r ∈ tenantRoles server admin agent requester tenantId) :
      r.id ∈ [admin, agent, requester] := by
    obtain ⟨-, ⟨hid, -⟩ | ⟨hid, -⟩ | ⟨hid, -⟩⟩ := Provisioned.mem_tenantRoles hr <;> simp [hid]
  have huniques (r x : Role) (hne : (r.tenantId, r.name) ≠ (x.tenantId, x.name)) :
      ∀ k ∈ Table.uniques .roles r, k ∉ Table.uniques .roles x := by
    intro k hk hkx
    obtain rfl := List.mem_singleton.mp hk
    obtain ⟨ht, hn⟩ := Key.roleName.inj (List.mem_singleton.mp hkx)
    exact hne (Prod.ext ht hn)
  have hstored {r : Role} (hr : r ∈ [RBACService.newRole admin tenantId "tenant_admin",
      RBACService.newRole agent tenantId "agent",
      RBACService.newRole requester tenantId "requester"]) :
      Table.stampInsert server.now .roles r ∈
        tenantRoles server admin agent requester tenantId := List.mem_map_of_mem hr
  refine meets_bulkInsert (pairwise_apart (fun r : Role => (r.tenantId, r.name)) hdistinct ?_
    huniques) (fun r hr x hx => ?_) (h _ ⟨fun t ht => ?_, ?_, hthree, fun r hr => ?_⟩)
  · refine List.Nodup.of_map Prod.snd ?_
    exact (by decide : ["tenant_admin", "agent", "requester"].Nodup)
  · rw [hdb] at hx
    have hr' := hstored hr
    obtain ⟨n, hn, hlt, hid⟩ := hdrawn _ (hmem hr')
    refine ⟨fun he => hundrawn x hx n hn (hlt.trans_le hN) (he.trans hid), huniques r x
      fun he => hnew x hx ?_⟩
    exact (Prod.mk.inj he).1.symm.trans (Provisioned.mem_tenantRoles hr').1
  · rw [← hdb]
    exact Function.update_of_ne ht ..
  · rw [← hdb]
    exact Function.update_self (β := fun t : Table => List t.Row) Table.roles _ s₀.db
  · exact hdrawn r.id (hmem hr)

theorem meets_provisionTenant {tenant : Tenant} (hs : server.Distinct N)
    (h : Staffed server N db₀ tenants (b + tenantIds db₀ tenant) 3 3 s)
    (hnew : ∀ t ∈ tenants, t.id ≠ tenant.id)
    (hids : ((db₀ .memberships).map Membership.id).Nodup) {R : Unit → Draft → Prop}
    (hR : ∀ s', Provisioned server db₀ tenant s s' → R () s') :
    Meets (provisionTenant permissionIds0004 tenant.id tenant.ownerUserId) server s R := by
  have hN : s.drawn + 7 + ((db₀ .memberships).filter (·.tenantId = tenant.id)).length ≤ N := by
    have hbudget := h.budget
    rw [tenantIds] at hbudget
    omega
  refine meets_bind (meets_uuid4 (Q := fun id s' => id = server.uuid4 s.drawn ∧
    s' = { s with drawn := s.drawn + 1 }) ⟨rfl, rfl⟩) ?_
  rintro admin _ ⟨hadmin, rfl⟩
  refine meets_bind (meets_uuid4 (Q := fun id s' => id = server.uuid4 (s.drawn + 1) ∧
    s' = { s with drawn := s.drawn + 2 }) ⟨rfl, rfl⟩) ?_
  rintro agent _ ⟨hagent, rfl⟩
  refine meets_bind (meets_uuid4 (Q := fun id s' => id = server.uuid4 (s.drawn + 2) ∧
    s' = { s with drawn := s.drawn + 3 }) ⟨rfl, rfl⟩) ?_
  rintro requester _ ⟨hrequester, rfl⟩
  have hdistinct : [admin, agent, requester].Nodup := by
    have hne {i j : Nat} (hi : i < 3) (hj : j < 3) (hij : i ≠ j) :
        server.uuid4 (s.drawn + i) ≠ server.uuid4 (s.drawn + j) := fun he => by
      have := hs _ _ (by omega) (by omega) he
      omega
    have h₁ : admin ≠ agent := hadmin ▸ hagent ▸ hne (i := 0) (by decide) (by decide) (by decide)
    have h₂ : admin ≠ requester :=
      hadmin ▸ hrequester ▸ hne (i := 0) (by decide) (by decide) (by decide)
    have h₃ : agent ≠ requester := hagent ▸ hrequester ▸ hne (by decide) (by decide) (by decide)
    simp [h₁, h₂, h₃]
  have hdrawn : ∀ id ∈ [admin, agent, requester],
      DrawnBetween server s { s with drawn := s.drawn + 3 } id := by
    simp only [List.forall_mem_cons]
    exact ⟨⟨_, Nat.le_refl _, Nat.lt_add_of_pos_right (by decide), hadmin⟩,
      ⟨_, Nat.le_add_right .., Nat.add_lt_add_left (by decide) _, hagent⟩,
      ⟨_, Nat.le_add_right .., Nat.add_lt_add_left (by decide) _, hrequester⟩,
      fun _ hmem => absurd hmem List.not_mem_nil⟩
  refine meets_bind (meets_addRoles hdistinct hdrawn rfl rfl
    (Nat.le_trans (by omega : s.drawn + 3 ≤ s.drawn + 7 + _) hN) h.newRoles (fun r hr he => ?_)
    (Q := fun _ s' => Added server s s' .roles
      (tenantRoles server admin agent requester tenant.id)) fun _ hroles => hroles) ?_
  · obtain ⟨t, ht, hid⟩ := h.roleTenants r hr
    exact hnew t ht (hid.trans he)
  rintro _ s₁ hroles
  refine meets_bind (meets_lookup (Q := fun id s' => id = 0x10000000000000000000000000000001 ∧
    s₁ = s') (by decide) ⟨rfl, rfl⟩) ?_
  rintro _ _ ⟨rfl, rfl⟩
  refine meets_bind (meets_lookup (Q := fun id s' => id = 0x10000000000000000000000000000002 ∧
    s₁ = s') (by decide) ⟨rfl, rfl⟩) ?_
  rintro _ _ ⟨rfl, rfl⟩
  refine meets_bind (meets_lookup (Q := fun id s' => id = 0x10000000000000000000000000000003 ∧
    s₁ = s') (by decide) ⟨rfl, rfl⟩) ?_
  rintro _ _ ⟨rfl, rfl⟩
  have hgrants : [(admin, 0x10000000000000000000000000000001),
      (admin, 0x10000000000000000000000000000002), (admin, 0x10000000000000000000000000000003),
      (agent, 0x10000000000000000000000000000001)] = tenantGrants admin agent := rfl
  rw [hgrants, ← bind_assoc]
  refine meets_bind (meets_add (fun g : RolePermission => (g.roleId, g.permissionId)) id hs
    (?_ : s₁.drawn + 4 ≤ N) (fun _ _ => rfl) (fun _ _ => rfl) ?_ (fun r x hne k hk hkx => ?_)
    (fun _ => rfl)
    (hroles.undrawn_other (by decide) h.newGrants) (fun pair hpair x hx he => ?_)
    (Q := fun _ s₂ => ∃ newGrants, Added server s₁ s₂ .rolePermissions newGrants ∧
      newGrants.map (fun g => (g.roleId, g.permissionId)) = tenantGrants admin agent)
    fun s₂ newGrants hadd hmap => ⟨newGrants, hadd, hmap.trans (List.map_id _)⟩) ?_
  · rw [hroles.drawn]
    exact Nat.le_trans (Nat.le_add_right ..) hN
  · simp only [List.nodup_cons, List.mem_cons, List.not_mem_nil, or_false, not_or] at hdistinct
    simp [tenantGrants, catalogue, permissions0004, hdistinct.1.1]
  · obtain rfl := List.mem_singleton.mp hk
    obtain ⟨hr, hp⟩ := Key.rolePermissionPair.inj (List.mem_singleton.mp hkx)
    exact hne (Prod.ext hr hp)
  · -- nothing has been granted to a new role
    rw [hroles.others .rolePermissions (by decide)] at hx
    obtain ⟨r, hr, hid⟩ := h.grantRoles x hx
    have hnewId : pair.1 ∈ [admin, agent, requester] := by
      rcases List.mem_append.mp hpair with hmem | hmem
      · obtain ⟨_, -, rfl⟩ := List.mem_map.mp hmem
        exact List.mem_cons_self
      · rw [List.mem_singleton.mp hmem]
        exact List.mem_cons_of_mem _ List.mem_cons_self
    obtain ⟨n, hn, hlt, hd⟩ := hdrawn _ hnewId
    have hlt : n < s.drawn + 3 := hlt
    exact h.newRoles r hr n hn (by omega) (hid.trans ((Prod.mk.inj he).1.symm.trans hd))
  rintro _ s₂ ⟨newGrants, hgranted, hmap⟩
  have hsame : s₂.db .memberships = db₀ .memberships := by
    rw [hgranted.others .memberships (by decide), hroles.others .memberships (by decide)]
    exact h.sameMembers
  refine meets_bind (meets_select (Q := fun members s' =>
    members = (db₀ .memberships).filter (·.tenantId = tenant.id) ∧ s₂ = s')
    ⟨by rw [hsame], rfl⟩) ?_
  rintro members _ ⟨hmembers, rfl⟩
  refine meets_add (fun a : MembershipRole => (a.membershipId, a.roleId))
    (fun m : Membership => (m.id, if m.userId = tenant.ownerUserId then admin else requester)) hs
    ?_ (fun _ _ => rfl) (fun _ _ => rfl) ?_ (fun r x hne k hk hkx => ?_) (fun _ => rfl)
    (hgranted.undrawn_other (by decide) (hroles.undrawn_other (by decide) h.newAssigned))
    (fun m hm x hx he => ?_) fun s₃ newAssigned hadd hmap' => hR s₃
      ⟨admin, agent, requester, s₁, _, newGrants, newAssigned, hdistinct, hroles, hgranted, hmap,
        hadd, hmembers ▸ hmap'⟩
  · have hfour := congrArg List.length hmap
    rw [List.length_map] at hfour
    rw [hmembers, hgranted.drawn, hroles.drawn, hfour]
    exact hN
  · rw [hmembers]
    refine List.Nodup.of_map Prod.fst ?_
    rw [List.map_map]
    exact hids.sublist (List.filter_sublist.map _)
  · obtain rfl := List.mem_singleton.mp hk
    obtain ⟨hr, hp⟩ := Key.membershipRolePair.inj (List.mem_singleton.mp hkx)
    exact hne (Prod.ext hr hp)
  · -- a member of this tenant has no role yet
    rw [hgranted.others .membershipRoles (by decide), hroles.others .membershipRoles (by decide)]
      at hx
    obtain ⟨m', hm', hid, t, ht, htid⟩ := h.members x hx
    rw [hmembers, List.mem_filter, decide_eq_true_eq] at hm
    have := List.inj_on_of_nodup_map hids hm' hm.1 (hid.trans (Prod.mk.inj he).1.symm)
    exact hnew t ht (htid.trans (this ▸ hm.2))

theorem meets_provisionTenants (hs : server.Distinct N)
    (hids : ((db₀ .memberships).map Membership.id).Nodup) {more : List Tenant}
    (h : Staffed server N db₀ tenants (b + (more.map (tenantIds db₀)).sum) 3 3 s)
    (htenants : ((tenants ++ more).map Tenant.id).Nodup) {R : Unit → Draft → Prop}
    (hR : ∀ s', Staffed server N db₀ (tenants ++ more) b 3 3 s' → R () s') :
    Meets (provisionTenants permissionIds0004 more) server s R := by
  induction more generalizing tenants s with
  | nil =>
    rw [List.append_nil] at hR
    exact meets_pure (hR s h)
  | cons tenant more ih =>
    have hnew : ∀ t ∈ tenants, t.id ≠ tenant.id := by
      rw [List.map_append, List.nodup_append] at htenants
      exact fun t ht => htenants.2.2 _ (List.mem_map_of_mem ht) _ List.mem_cons_self
    rw [List.map_cons, List.sum_cons, Nat.add_left_comm, Nat.add_comm (tenantIds db₀ tenant)] at h
    refine meets_bind (meets_provisionTenant hs h hnew hids (R := fun _ s' => Staffed server N db₀
      (tenants ++ [tenant]) (b + (more.map (tenantIds db₀)).sum) 3 3 s') fun s' hp =>
        h.provisioned hs hnew hids hp) ?_
    rintro _ s' h'
    rw [← List.singleton_append, ← List.append_assoc] at htenants hR
    exact ih h' htenants hR

/-- The tables 0004 creates are empty. -/
theorem staffed_nil (hp : s'.db .permissions = catalogue.take 3) (hr : s'.db .roles = [])
    (hg : s'.db .rolePermissions = []) (ha : s'.db .membershipRoles = [])
    (ht : s'.db .tenants = db₀ .tenants) (hm : s'.db .memberships = db₀ .memberships)
    (hb : s'.drawn + b ≤ N) : Staffed server N db₀ [] b 3 3 s' where
  budget := hb
  sameTenants := ht
  sameMembers := hm
  permitted := hp
  newRoles := by simp [Undrawn, hr]
  newGrants := by simp [Undrawn, hg]
  newAssigned := by simp [Undrawn, ha]
  roleIds := by simp [hr]
  roleTenants := by simp [hr]
  twoStaff := by simp [staff, hr]
  defaultRoles := by simp
  grants := by simp [hr]
  grantRoles := by simp [hg]
  assigned := by simp
  members := by simp [ha]

theorem meets_upgrade0004 (hs : server.Distinct N)
    (hids : ((s.db .memberships).map Membership.id).Nodup)
    (htenants : ((s.db .tenants).map Tenant.id).Nodup)
    (hN : s.drawn + (b + ((s.db .tenants).map (tenantIds s.db)).sum) ≤ N)
    {R : Unit → Draft → Prop}
    (hR : ∀ s', Staffed server N s.db (s.db .tenants) b 3 3 s' → R () s') :
    Meets upgrade0004 server s R := by
  refine meets_bind (meets_createTable (R := fun _ s₁ => s₁.drawn = s.drawn ∧
    s₁.db .permissions = [] ∧ ∀ t, t ≠ .permissions → s₁.db t = s.db t)
    fun _ hd hp ho => ⟨hd, hp, ho⟩) ?_
  rintro _ s₁ ⟨hd₁, hp₁, ho₁⟩
  refine meets_bind (meets_permit (c := 0) 3 hp₁ rfl (R := fun _ s₂ =>
    s₂.drawn = s₁.drawn ∧ s₂.db .permissions = catalogue.take 3 ∧
      ∀ t, t ≠ .permissions → s₂.db t = s₁.db t) fun _ hd hp ho => ⟨hd, hp, ho⟩) ?_
  rintro _ s₂ ⟨hd₂, hp₂, ho₂⟩
  refine meets_bind (meets_createTable (R := fun _ s₃ => s₃.drawn = s₂.drawn ∧
    s₃.db .roles = [] ∧ ∀ t, t ≠ .roles → s₃.db t = s₂.db t)
    fun _ hd hr ho => ⟨hd, hr, ho⟩) ?_
  rintro _ s₃ ⟨hd₃, hr, ho₃⟩
  refine meets_bind (meets_createTable (R := fun _ s₄ => s₄.drawn = s₃.drawn ∧
    s₄.db .rolePermissions = [] ∧ ∀ t, t ≠ .rolePermissions → s₄.db t = s₃.db t)
    fun _ hd hg ho => ⟨hd, hg, ho⟩) ?_
  rintro _ s₄ ⟨hd₄, hg, ho₄⟩
  refine meets_bind (meets_createTable (R := fun _ s₅ => s₅.drawn = s₄.drawn ∧
    s₅.db .membershipRoles = [] ∧ ∀ t, t ≠ .membershipRoles → s₅.db t = s₄.db t)
    fun _ hd ha ho => ⟨hd, ha, ho⟩) ?_
  rintro _ s₅ ⟨hd₅, ha, ho₅⟩
  have hkept (t : Table) (ht : t ∉ [Table.permissions, .roles, .rolePermissions,
      .membershipRoles]) : s₅.db t = s.db t := by
    simp only [List.mem_cons, List.not_mem_nil, or_false, not_or] at ht
    rw [ho₅ t ht.2.2.2, ho₄ t ht.2.2.1, ho₃ t ht.2.1, ho₂ t ht.1, ho₁ t ht.1]
  have hpermitted : s₅.db .permissions = catalogue.take 3 := by
    rw [ho₅ _ (by decide), ho₄ _ (by decide), ho₃ _ (by decide), hp₂]
  have hdrawn : s₅.drawn = s.drawn := by rw [hd₅, hd₄, hd₃, hd₂, hd₁]
  have h₅ : Staffed server N s.db [] (b + ((s.db .tenants).map (tenantIds s.db)).sum) 3 3 s₅ :=
    staffed_nil hpermitted (by rw [ho₅ .roles (by decide), ho₄ .roles (by decide), hr])
      (by rw [ho₅ .rolePermissions (by decide), hg]) ha (hkept .tenants (by decide))
      (hkept .memberships (by decide)) (hdrawn ▸ hN)
  refine meets_bind (meets_select (Q := fun ids s' => ids = permissionIds0004 ∧ s₅ = s')
    ⟨by rw [hpermitted]; rfl, rfl⟩) ?_
  rintro _ _ ⟨rfl, rfl⟩
  refine meets_bind (meets_select (Q := fun tenants s' => tenants = s.db .tenants ∧ s₅ = s')
    ⟨hkept .tenants (by decide), rfl⟩) ?_
  rintro _ _ ⟨rfl, rfl⟩
  exact meets_provisionTenants hs hids h₅ htenants hR

/-! ## The later revisions -/

theorem meets_upgrade0005 (hs : server.Distinct N)
    (h : Staffed server N db₀ tenants (b + 2 * tenants.length * 4) 3 3 s) {R : Unit → Draft → Prop}
    (hR : ∀ s', Staffed server N db₀ tenants b 7 7 s' → s'.db .tickets = [] → R () s') :
    Meets upgrade0005 server s R := by
  refine meets_bind (h.permit 7 rfl (R := fun _ s' => Staffed server N db₀ tenants
    (b + 2 * tenants.length * 4) 7 3 s')
    fun s' h' _ => h') ?_
  rintro _ s₁ h₁
  refine meets_bind (meets_select (Q := fun ids s' =>
    ids = ((catalogue.take 7).drop 3).map (·.id) ∧ s₁ = s') ⟨?_, rfl⟩) ?_
  · rw [h₁.permitted]
    decide
  rintro _ _ ⟨rfl, rfl⟩
  refine meets_bind (h₁.grant hs (by decide) (R := fun _ s' => Staffed server N db₀ tenants b 7 7
    s')
    fun s' h' _ => h') ?_
  rintro _ s₂ h₂
  refine meets_bind (meets_createTable (R := fun _ s' => Staffed server N db₀ tenants b 7 7 s')
    fun _ hd _ ho => h₂.other (by decide) hd ho) ?_
  rintro _ s₃ h₃
  exact meets_createTable fun _ hd ht ho => hR _ (h₃.other (by decide) hd ho) ht

/-- The second half of 0006. -/
theorem meets_createdEvents (hs : server.Distinct N)
    (hids : ((s.db .tickets).map Ticket.id).Nodup) {R : Unit → Draft → Prop}
    (hN : s.drawn + (s.db .tickets).length ≤ N)
    (hR : ∀ s', s'.drawn = s.drawn + (s.db .tickets).length → s'.db.Recorded →
      (s'.db .tickets).map Ticket.id = (s.db .tickets).map Ticket.id →
      (∀ t, t ∉ [Table.tickets, .ticketEvents] → s'.db t = s.db t) → R () s') :
    Meets (do
      addColumn .tickets fun ticket => { ticket with assigneeMembershipId := none }
      createTable .ticketEvents
      let tickets ← select fun db => db .tickets
      let events ← draw createdEvent tickets
      bulkInsert .ticketEvents events) server s R := by
  refine meets_bind (meets_addColumn (R := fun _ s₁ => s₁.drawn = s.drawn ∧
    (s₁.db .tickets).map Ticket.id = (s.db .tickets).map Ticket.id ∧
      ∀ t, t ≠ .tickets → s₁.db t = s.db t) fun s₁ hd ht ho => ⟨hd, ?_, ho⟩) ?_
  · rw [ht, List.map_map]
    rfl
  rintro _ s₁ ⟨hd₁, ht₁, ho₁⟩
  refine meets_bind (meets_createTable (R := fun _ s₂ => s₂.drawn = s₁.drawn ∧
    s₂.db .ticketEvents = [] ∧ ∀ t, t ≠ .ticketEvents → s₂.db t = s₁.db t)
    fun s₂ hd he ho => ⟨hd, he, ho⟩) ?_
  rintro _ s₂ ⟨hd₂, he₂, ho₂⟩
  refine meets_bind (meets_select (Q := fun tickets s' => tickets = s₂.db .tickets ∧ s₂ = s')
    ⟨rfl, rfl⟩) ?_
  rintro _ _ ⟨rfl, rfl⟩
  have hlength : (s₂.db .tickets).length = (s.db .tickets).length := by
    have := congrArg List.length ht₁
    rw [List.length_map, List.length_map] at this
    rw [ho₂ .tickets (by decide), this]
  have hids₂ : ((s₂.db .tickets).map Ticket.id).Nodup := by
    rw [ho₂ .tickets (by decide), ht₁]
    exact hids
  show Meets (draw createdEvent (s₂.db .tickets) >>= bulkInsert .ticketEvents) server s₂ R
  refine meets_add (fun e : TicketEvent =>
    (e.ticketId, e.eventType, e.toStatus, e.toAssigneeMembershipId)) (fun ticket : Ticket =>
      (ticket.id, TicketEventType.created, ticket.status, ticket.assigneeMembershipId)) hs
    ?_ ?_ ?_ ?_ (fun _ _ _ k hk => absurd hk List.not_mem_nil) (fun _ => rfl) (fun e he => absurd
    (he₂ ▸ he) List.not_mem_nil)
    (fun _ _ e he => absurd (he₂ ▸ he) List.not_mem_nil)
    fun s₃ events ha hmap => hR s₃ ?_ (fun ticket ht => ?_) ?_ fun t ht => ?_
  · rw [hlength, hd₂, hd₁]
    exact hN
  · exact fun _ _ => rfl
  · exact fun _ _ => rfl
  · refine List.Nodup.of_map Prod.fst ?_
    rw [List.map_map]
    exact hids₂
  · have hevents := congrArg List.length hmap
    rw [List.length_map, List.length_map] at hevents
    rw [ha.drawn, hevents, hlength, hd₂, hd₁]
  · rw [ha.others .tickets (by decide)] at ht
    rw [ha.table, he₂, List.nil_append]
    calc (events.filter (·.ticketId = ticket.id)).map
          (fun e => (e.eventType, e.toStatus, e.toAssigneeMembershipId))
        = ((events.map fun e => (e.ticketId, e.eventType, e.toStatus,
            e.toAssigneeMembershipId)).filter (·.1 = ticket.id)).map (·.2) := by
          rw [List.filter_map, List.map_map]
          rfl
      _ = _ := by
          rw [hmap, List.filter_map, List.map_map]
          exact congrArg (List.map _) (filter_of_nodup hids₂ ht)
  · rw [ha.others .tickets (by decide), ho₂ .tickets (by decide), ht₁]
  · simp only [List.mem_cons, List.not_mem_nil, or_false, not_or] at ht
    rw [ha.others t ht.2, ho₂ t ht.2, ho₁ t ht.1]

theorem meets_upgrade0006 (hs : server.Distinct N)
    (h : Staffed server N db₀ tenants (b + 2 * tenants.length * 1) 7 7 s) (htickets : s.db .tickets
    = [])
    {R : Unit → Draft → Prop} (hR : ∀ s', Staffed server N db₀ tenants b 8 8 s' → R () s') :
    Meets upgrade0006 server s R := by
  refine meets_bind (h.permit 8 rfl (R := fun _ s' => Staffed server N db₀ tenants
    (b + 2 * tenants.length * 1) 8 7 s' ∧
    s'.db .tickets = []) fun s' h' ho => ⟨h', by rw [ho .tickets (by decide), htickets]⟩) ?_
  rintro _ s₁ ⟨h₁, ht₁⟩
  refine meets_bind (h₁.grant (c := 8) (k := 7) hs (by decide) (R := fun _ s' => Staffed server N
    db₀ tenants b 8 8 s' ∧
    s'.db .tickets = []) fun s' h' ho => ⟨h', by rw [ho .tickets (by decide), ht₁]⟩) ?_
  rintro _ s₂ ⟨h₂, ht₂⟩
  have hbudget := h₂.budget
  refine meets_createdEvents hs (by simp [ht₂]) (by simp only [ht₂, List.length_nil]; omega)
    fun s' hd _ _ ho => hR s' (h₂.of_same (fun t ht => ho t ?_)
      ((ho .permissions (by decide)).trans h₂.permitted) (by rw [hd, ht₂]; rfl))
  intro hmem
  rcases List.mem_cons.mp hmem with rfl | hmem
  · exact absurd ht (by decide)
  · rw [List.mem_singleton.mp hmem] at ht
    exact absurd ht (by decide)

theorem meets_upgrade0009 (hs : server.Distinct N)
    (h : Staffed server N db₀ tenants (b + 2 * tenants.length * 1) 8 8 s) {R : Unit → Draft → Prop}
    (hR : ∀ s', Staffed server N db₀ tenants b 9 9 s' → R () s') :
    Meets upgrade0009 server s R := by
  refine meets_bind (h.permit 9 rfl (R := fun _ s' => Staffed server N db₀ tenants
    (b + 2 * tenants.length * 1) 9 8 s')
    fun s' h' _ => h') ?_
  rintro _ s₁ h₁
  refine meets_bind (meets_select (Q := fun ids s' =>
    ids = [internalCommentPermission.id] ∧ s₁ = s') ⟨?_, rfl⟩) ?_
  · rw [h₁.permitted]
    decide
  rintro _ _ ⟨rfl, rfl⟩
  refine meets_bind (h₁.grant (c := 9) (k := 8) hs (by decide) (R := fun _ s' => Staffed server N
    db₀ tenants b 9 9 s')
    fun s' h' _ => h') ?_
  rintro _ s₂ h₂
  refine meets_bind (meets_createTable (R := fun _ s' => Staffed server N db₀ tenants b 9 9 s')
    fun _ hd _ ho => h₂.other (by decide) hd ho) ?_
  rintro _ s₃ h₃
  exact meets_createTable fun _ hd _ ho => hR _ (h₃.other (by decide) hd ho)

/-- How many ids the migrations draw. -/
def upgradeIds (db : Db) : Nat :=
  ((db .tenants).map (tenantIds db)).sum + 12 * (db .tenants).length

theorem meets_upgrade (hs : server.Distinct N)
    (hids : ((s.db .memberships).map Membership.id).Nodup)
    (htenants : ((s.db .tenants).map Tenant.id).Nodup) (hN : s.drawn + upgradeIds s.db ≤ N) :
    Meets upgrade server s fun _ s' => Staffed server N s.db (s.db .tenants) 0 9 9 s' := by
  rw [upgradeIds] at hN
  refine meets_bind (meets_upgrade0004 hs hids htenants (by omega)
    (R := fun _ s' => Staffed server N s.db (s.db .tenants)
      (0 + 2 * (s.db .tenants).length * 1 + 2 * (s.db .tenants).length * 1 + 2 *
      (s.db .tenants).length * 4) 3 3 s') fun _ h => h) ?_
  rintro _ s₁ h₁
  refine meets_bind (meets_upgrade0005 hs h₁ (R := fun _ s' =>
    Staffed server N s.db (s.db .tenants)
      (0 + 2 * (s.db .tenants).length * 1 + 2 * (s.db .tenants).length * 1) 7 7 s' ∧ s'.db .tickets
      = []) fun _ h ht => ⟨h, ht⟩) ?_
  rintro _ s₂ ⟨h₂, ht₂⟩
  refine meets_bind (meets_upgrade0006 hs h₂ ht₂
    (R := fun _ s' => Staffed server N s.db (s.db .tenants)
      (0 + 2 * (s.db .tenants).length * 1) 8 8 s') fun _ h => h) ?_
  rintro _ s₃ h₃
  refine meets_bind (meets_pure (Q := fun _ s' => s₃ = s') rfl) ?_
  rintro _ _ rfl
  refine meets_bind (meets_createTable (R := fun _ s' => Staffed server N s.db (s.db .tenants)
      (0 + 2 * (s.db .tenants).length * 1) 8 8 s')
    fun _ hd _ ho => h₃.other (by decide) hd ho) ?_
  rintro _ s₄ h₄
  refine meets_bind (meets_upgrade0009 hs h₄
    (R := fun _ s' => Staffed server N s.db (s.db .tenants) 0 9 9 s') fun _ h => h) ?_
  rintro _ s₅ h₅
  refine meets_bind (meets_createTable (R := fun _ s' => Staffed server N s.db (s.db .tenants) 0 9 9
    s')
    fun _ hd _ ho => h₅.other (by decide) hd ho) ?_
  rintro _ s₆ h₆
  refine meets_bind (meets_createTable (R := fun _ s' => Staffed server N s.db (s.db .tenants) 0 9 9
    s')
    fun _ hd _ ho => h₆.other (by decide) hd ho) ?_
  rintro _ s₇ h₇
  exact meets_createTable fun _ hd _ ho => h₇.other (by decide) hd ho

/-! ## What is left at revision 0010 -/

/-- The catalogue grants a role of the migrations what it is granted by default. -/
theorem staffed_codes (name : String) :
    (staffed 9 name).map (·.code) = (RBACService.defaultCodes name).map (·.value) := by
  unfold staffed RBACService.defaultCodes
  by_cases hadmin : name = "tenant_admin"
  · rw [if_pos hadmin, if_pos hadmin]
    decide
  · rw [if_neg hadmin, if_neg hadmin]
    by_cases hagent : name = "agent"
    · rw [if_pos hagent, if_pos hagent]
      decide
    · rw [if_neg hagent, if_neg hagent]
      rfl

theorem Staffed.defaults (h : Staffed server N db₀ tenants b 9 9 s) {tenant : Tenant}
    (ht : tenant ∈ tenants) : s.db.DefaultRoles tenant.id where
  roles := h.defaultRoles tenant ht
  grants role hrole _ text := by
    have hcodes : (∃ q ∈ staffed 9 role.name, q.code = text) ↔
        ∃ code ∈ RBACService.defaultCodes role.name, code.value = text := by
      rw [← List.mem_map, ← List.mem_map, staffed_codes]
    have hids : (catalogue.map Permission.id).Nodup := by decide
    have hall : s.db .permissions = catalogue := h.permitted
    rw [← hcodes]
    constructor
    · rintro ⟨granted, hg, hid, p, hp, hpid, rfl⟩
      obtain ⟨q, hq, hqid⟩ := (h.grants role hrole p.id).mp ⟨granted, hg, hid, hpid.symm⟩
      rw [hall] at hp
      have hqc : q ∈ catalogue := (staffed_sublist 9 _).mem hq
      exact ⟨q, hq, congrArg Permission.code (List.inj_on_of_nodup_map hids hqc hp hqid)⟩
    · rintro ⟨q, hq, rfl⟩
      obtain ⟨granted, hg, hid, hpid⟩ := (h.grants role hrole q.id).mpr ⟨q, hq, rfl⟩
      refine ⟨granted, hg, hid, q, ?_, hpid.symm, rfl⟩
      rw [hall]
      exact (staffed_sublist 9 _).mem hq

/-- What the migrations make of the tenants and members of a database. -/
structure Migrated (db₀ db : Db) : Prop where
  sameTenants : db .tenants = db₀ .tenants
  sameMembers : db .memberships = db₀ .memberships
  codes : (db .permissions).map (·.code) = PermissionCode.members.map (·.value)
  byCode : ∃ permissions, RBACService.byCode (db .permissions) = .ok permissions
  defaults : ∀ tenant ∈ db .tenants, db.DefaultRoles tenant.id
  assigned : ∀ tenant ∈ db .tenants, ∀ m ∈ db .memberships, m.tenantId = tenant.id →
    ∃ role ∈ db .roles, role.tenantId = tenant.id ∧ role.name = initialRole tenant m ∧
      ((db .membershipRoles).filter (·.membershipId = m.id)).map (·.roleId) = [role.id]

theorem Staffed.migrated (h : Staffed server N db₀ (db₀ .tenants) b 9 9 s) :
    Migrated db₀ s.db where
  sameTenants := h.sameTenants
  sameMembers := h.sameMembers
  codes := by
    rw [h.permitted]
    decide
  byCode := by
    rw [h.permitted]
    exact ⟨_, rfl⟩
  defaults tenant ht := h.defaults (h.sameTenants ▸ ht)
  assigned tenant ht m hm := h.assigned tenant (h.sameTenants ▸ ht) m (h.sameMembers ▸ hm)

/-- A database at revision 0005 that migrates with the ids from `s.drawn` to `N`. -/
structure Revision0005 (server : Server) (N : Nat) (s : Draft) : Prop where
  permissions : s.db .permissions = catalogue.take 7
  roleIds : ((s.db .roles).map Role.id).Nodup
  ticketIds : ((s.db .tickets).map Ticket.id).Nodup
  /-- The foreign key. -/
  granted : ∀ g ∈ s.db .rolePermissions, ∃ p ∈ s.db .permissions, p.id = g.permissionId
  newGrants : Undrawn server N s .rolePermissions
  budget : s.drawn + ((staff s.db).length + (s.db .tickets).length) ≤ N

theorem meets_recorded (hs : server.Distinct N) (h : Revision0005 server N s) :
    Meets upgrade0006 server s fun _ s' => s'.db.Recorded ∧
      (s'.db .tickets).map Ticket.id = (s.db .tickets).map Ticket.id := by
  refine meets_bind (meets_permit 8 h.permissions rfl (R := fun _ s₁ =>
    s₁.drawn = s.drawn ∧ ∀ t, t ≠ .permissions → s₁.db t = s.db t) fun _ hd _ ho => ⟨hd, ho⟩) ?_
  rintro _ s₁ ⟨hd₁, ho₁⟩
  have hroles : s₁.db .roles = s.db .roles := ho₁ .roles (by decide)
  have hgrants : s₁.db .rolePermissions = s.db .rolePermissions :=
    ho₁ .rolePermissions (by decide)
  have hbudget := h.budget
  have hstaff : staff s₁.db = staff s.db := by rw [staff, hroles, staff]
  have hcount : (staff s₁.db).length * [workflowPermission.id].length = (staff s.db).length := by
    rw [hstaff, List.length_singleton, Nat.mul_one]
  refine meets_bind (meets_grantToStaff hs ?_ (List.nodup_singleton _) ?_ ?_ ?_
    (Q := fun _ s₂ => s₂.drawn = s.drawn + (staff s.db).length ∧
      ∀ t, t ≠ .rolePermissions → s₂.db t = s₁.db t) fun s₂ rows ha hrows _ => ⟨?_, ha.others⟩) ?_
  · rw [hcount, hd₁]
    omega
  · rw [hroles]
    exact h.roleIds
  · intro g hg n hn
    rw [hgrants] at hg
    exact h.newGrants g hg n (hd₁ ▸ hn)
  · intro g hg hmem
    rw [hgrants] at hg
    obtain ⟨p, hp, hid⟩ := h.granted g hg
    rw [h.permissions] at hp
    rw [List.mem_singleton.mp hmem] at hid
    have hold : ∀ p ∈ catalogue.take 7, p.id ≠ workflowPermission.id := by decide
    exact hold p hp hid
  · rw [ha.drawn, hrows, hcount, hd₁]
  rintro _ s₂ ⟨hd₂, ho₂⟩
  have htickets : s₂.db .tickets = s.db .tickets := by
    rw [ho₂ .tickets (by decide), ho₁ .tickets (by decide)]
  refine meets_createdEvents hs (by rw [htickets]; exact h.ticketIds) (by rw [htickets]; omega)
    fun s₃ _ hrecorded hsame _ => ⟨hrecorded, ?_⟩
  rw [hsame, htickets]

end Migration

open Migration

/-- The two ways to the default roles agree: the migrations leave every tenant with the roles and
grants of `provision_defaults` and every member with one role, and `_permissions_by_code` finds its
permissions; and 0006 gives each ticket there is the one event that created it. -/
theorem migrated_tenants_equal_provisioned {server : Server} {N : Nat} (hs : server.Distinct N) :
    (∀ db : Db, ((db .tenants).map Tenant.id).Nodup → ((db .memberships).map Membership.id).Nodup →
      upgradeIds db ≤ N → Meets upgrade server ⟨db, 0⟩ fun _ s => Migrated db s.db) ∧
    ∀ s, Revision0005 server N s → Meets upgrade0006 server s fun _ s' =>
      s'.db.Recorded ∧ (s'.db .tickets).map Ticket.id = (s.db .tickets).map Ticket.id :=
  ⟨fun db htenants hids hN => (meets_upgrade (s := ⟨db, 0⟩) hs hids htenants
    (by rwa [Nat.zero_add])).mono fun _ _ h => h.migrated, fun _ h => meets_recorded hs h⟩

/-- Ids in the order they are drawn. -/
def Server.counting : Server := ⟨fun n => Fin.ofNat _ n, 7⟩

theorem Server.counting_distinct : Server.counting.Distinct 100 := by
  intro i j hi hj he
  have := congrArg Fin.val he
  simp only [counting, Fin.ofNat] at this
  omega

/-- A tenant with its owner and somebody invited, and one whose owner has no membership. -/
def Db.revision0003 : Db
  | .tenants => [CurrentTenant.owner.tenant,
      { CurrentTenant.owner.tenant with id := 2, slug := "other", ownerUserId := 3 }]
  | .memberships => [CurrentTenant.owner.membership,
      TenantService.newMembership 1 2 2, TenantService.newMembership 2 2 3]
  | _ => []

/-- An agent's grant, and a ticket in progress. -/
def Db.revision0005 : Db
  | .permissions => catalogue.take 7
  | .roles => [storedRole Server.counting 101 1 "agent"]
  | .rolePermissions => [⟨102, 101, 0x10000000000000000000000000000001⟩]
  | .tickets => [{ id := 103, tenantId := 1, customerId := none, createdByMembershipId := 1,
                   assigneeMembershipId := none, subject := "s", description := "d",
                   status := .inProgress, priority := .normal, createdAt := 0, updatedAt := 0 }]
  | _ => []

theorem migrated_tenants_equal_provisioned_twice :
    (Meets upgrade Server.counting ⟨Db.revision0003, 0⟩ fun _ s =>
      Migrated Db.revision0003 s.db) ∧
    Meets upgrade0006 Server.counting ⟨Db.revision0005, 0⟩ fun _ s => s.db.Recorded ∧
      (s.db .tickets).map Ticket.id = (Db.revision0005 .tickets).map Ticket.id := by
  have hall := migrated_tenants_equal_provisioned Server.counting_distinct
  refine ⟨hall.1 Db.revision0003 (by decide) (by decide) (by decide),
    hall.2 ⟨Db.revision0005, 0⟩ ⟨rfl, by decide, by decide, by decide, fun g hg n _ hn he => ?_,
      by decide⟩⟩
  rw [List.mem_singleton.mp hg] at he
  have hid : 102 = n % 2 ^ 128 := congrArg Fin.val he
  omega

end Ticketing
