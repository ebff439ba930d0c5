import Ticketing.Concurrency.History
import Ticketing.Services.Tenant

/-!
# The permission cache under concurrent role changes

The pool of `has_permission`, `assign_roles` and `invite` calls. A reader that misses the cache
selects the roles and writes their permissions to the cache later; a role change commits and
deletes the cache entry later. In between a reader may hold an old snapshot and store it after the
delete: from then on the removed permission is answered until the entry expires.

* `storesCommitted`: the snapshot a reader stores is that of the roles committed at this moment.
  It is a condition on the state before the step. Besides, Redis commands succeed, and a commit
  that takes effect returns (`reliable`).
* What carries the argument is the history of commits (`RoleHistory`): every cache entry is a
  snapshot of the roles after some number of commits (`Fresh`), which a delete moves beyond the
  commit it follows (`Watch`).
* `RolesSettled`: a role change of the membership has returned, and none is in progress.

Results:
* `permissionSnapshotKey_inj`: two memberships do not share a cache entry.
* `call`: what a reader was told, and what a role change owes the cache and has cleared, whatever
  else is going on.
* `permission_changes_take_effect`: where no stored snapshot is outdated, a call that starts after
  a settled role change answers from the roles committed at some moment of the call.
* `permission_cache_serves_removed_permission`: a run in which one is, and the removed permission
  is answered.

Left out: the clock of Redis. An entry may expire at any time (`RolesElsewhere`).
-/

namespace Ticketing

open Lib (Prog Store System Outline)
open Lib.Outline (Triple Assertion post)

/-- The calls that read or change what a member may do. -/
inductive RoleCall
  | hasPermission (membership : Membership) (permission : PermissionCode)
  | assignRoles (tenantId membershipId : UUID) (roleIds : List UUID)
  | invite (context : CurrentTenant) (email : String)
  deriving DecidableEq

namespace RoleCall

abbrev Ret : RoleCall → Type
  | hasPermission .. => Bool
  | assignRoles .. => Unit
  | invite .. => Membership

def prog (P : Platform) (S : RBACService) : (c : RoleCall) → Service c.Ret
  | hasPermission membership permission => S.hasPermission membership permission
  | assignRoles tenantId membershipId roleIds => S.assignRoles tenantId membershipId roleIds
  | invite context email => TenantService.invite P S context email

/-- The tenant and id of the membership whose roles a call that returned has changed. -/
def changed : (c : RoleCall) → c.Ret → Option (UUID × UUID)
  | hasPermission .., _ => none
  | assignRoles tenantId membershipId _, _ => some (tenantId, membershipId)
  | invite context _, membership => some (context.tenant.id, membership.id)

/-- The call is to change the roles of a membership of tenant `tenantId` with id `membershipId`. -/
def Changes (P : Platform) (db : Db) (tenantId membershipId : UUID) (c : RoleCall) : Prop :=
  ∃ m ∈ db .memberships, m.id = membershipId ∧ m.tenantId = tenantId ∧ match c with
    | hasPermission .. => False
    | assignRoles t id _ => t = tenantId ∧ id = membershipId
    | invite context email => context.tenant.id = tenantId ∧
      ∃ u ∈ db .users, u.email = P.lower (Lib.Text.strip email) ∧ u.id = m.userId

end RoleCall

def roleCalls (P : Platform) (S : RBACService) : Calls where
  Call := RoleCall
  Ret := RoleCall.Ret
  prog := RoleCall.prog P S

/-- The rest of the system moves: other tables, other keys, the clock; cache entries expire. -/
structure RolesElsewhere (W W' : World) : Prop where
  rows : ∀ t ∈ [Table.users, .memberships, .membershipRoles, .roles, .rolePermissions,
    .permissions], W'.store.db t = W.store.db t
  cache : ∀ t m e, W'.cache (permissionSnapshotKey t m) = some e →
    W.cache (permissionSnapshotKey t m) = some e
  absent : ∀ k, W.store.owner k ≠ none → W.store.db.present k = false →
    W'.store.db.present k = false
  sessions : W'.store.sessions = W.store.sessions
  owner : W'.store.owner = W.store.owner
  wal : W'.store.wal = W.store.wal

/-- `text` is the snapshot of a membership's committed roles. -/
def Db.Accurate (db : Db) (tenantId membershipId : UUID) (text : String) : Prop :=
  ∃ codes, (db.permissionCodes tenantId membershipId).mapM PermissionCode.ofValue = some codes ∧
    text = dumpSnapshot (PermissionCode.frozenset codes)

/-- Redis commands succeed, and a commit that takes effect returns. -/
def reliable : Admission := fun _ _ o c =>
  match o with
  | .cacheGet _ | .cacheSet .. | .cacheDelete _ => c.fault = none
  | .commit => c.fault ≠ some .lostReply ∧ c.fault ≠ some .cancelledAfter
  | _ => True

/-- Besides, the roles a stored snapshot was read from are the committed ones. -/
def storesCommitted : Admission := fun i W o c =>
  reliable i W o c ∧ match o with
    | .cacheSet key value _ => ∀ t m, key = permissionSnapshotKey t m →
      W.store.db.Accurate t m value
    | _ => True

/-- Texts of equal lengths between fixed texts can be told apart. -/
theorem slots_inj {a b c s t s' t' : String} (hs : s.toList.length = s'.toList.length)
    (ht : t.toList.length = t'.toList.length)
    (h : a ++ s ++ b ++ t ++ c = a ++ s' ++ b ++ t' ++ c) : s = s' ∧ t = t' := by
  have h := congrArg String.toList h
  simp only [String.toList_append, List.append_assoc, List.append_right_inj] at h
  obtain ⟨h₁, h⟩ := List.append_inj h hs
  rw [List.append_right_inj] at h
  exact ⟨String.toList_injective h₁, String.toList_injective (List.append_inj h ht).1⟩

theorem permissionSnapshotKey_inj {t m t' m' : UUID}
    (h : permissionSnapshotKey t m = permissionSnapshotKey t' m') : t = t' ∧ m = m' := by
  have len (a b : UUID) : a.str.toList.length = b.str.toList.length := by
    rw [UUID.length_str, UUID.length_str]
  obtain ⟨ht, hm⟩ := slots_inj (len t t') (len m m') h
  exact ⟨UUID.str_injective ht, UUID.str_injective hm⟩

/-! ## What a role change writes -/

/-- The writes of a change of the roles of `m`. -/
def Write.Assigns (m : Membership) : Write → Prop
  | .delete .membershipRoles p _ => ∀ x, p x = true → x.membershipId = m.id
  | .insert .membershipRoles x => x.membershipId = m.id
  | .insert .memberships x => m.Same x
  | .update .memberships _ _ => True
  | _ => False

namespace Db

/-- The rows of a membership are all of one tenant. -/
def OneTenant (db : Db) : Prop :=
  ∀ x ∈ db .memberships, ∀ y ∈ db .memberships, x.id = y.id → x.tenantId = y.tenantId

/-- The tables that say what a role permits. -/
structure SameGrants (db db' : Db) : Prop where
  roles : db' .roles = db .roles
  rolePermissions : db' .rolePermissions = db .rolePermissions
  permissions : db' .permissions = db .permissions

theorem permissionCodes_congr {db db' : Db} {m : UUID} (h : db'.rolesOf m = db.rolesOf m)
    (hg : SameGrants db db') (t : UUID) : db'.permissionCodes t m = db.permissionCodes t m := by
  unfold rolesOf at h
  rw [permissionCodes, h, hg.roles, hg.rolePermissions, hg.permissions]
  rfl

theorem accurate_congr {db db' : Db} {m : UUID} (h : db'.rolesOf m = db.rolesOf m)
    (hg : SameGrants db db') {t : UUID} {text : String} (ha : db.Accurate t m text) :
    db'.Accurate t m text := by
  unfold Accurate at ha ⊢
  rwa [permissionCodes_congr h hg]

end Db

namespace Write

variable {m : Membership} {w : Write} {ws : List Write}

theorem Assigns.stamp (h : w.Assigns m) (τ : Time) : (w.stamp τ).Assigns m := by
  rcases w with ⟨t, x⟩ | ⟨t, l, c⟩ | ⟨t, p, ids⟩ | _
  · cases t <;> exact h
  · cases t <;> exact h
  · cases t <;> exact h
  · exact h

theorem Assigns.table (h : w.Assigns m) : w.table = .memberships ∨ w.table = .membershipRoles := by
  rcases w with ⟨t, x⟩ | ⟨t, l, c⟩ | ⟨t, p, ids⟩ | _
  · cases t <;> first | exact h.elim | exact .inl rfl | exact .inr rfl
  · cases t <;> first | exact h.elim | exact .inl rfl
  · cases t <;> first | exact h.elim | exact .inr rfl
  · exact h.elim

/-- Tables other than these two stay as they are. -/
theorem assigns_other (h : ∀ w ∈ ws, w.Assigns m) {t : Table} (h₁ : t ≠ .memberships)
    (h₂ : t ≠ .membershipRoles) (db : Db) : ws.foldl (fun db w => w.apply db) db t = db t :=
  foldl_other (fun w hw => by
    rcases (h w hw).table with ht | ht <;> rw [ht] <;> assumption) db

theorem assigns_grants (h : ∀ w ∈ ws, w.Assigns m) (db : Db) :
    Db.SameGrants db (ws.foldl (fun db w => w.apply db) db) :=
  ⟨assigns_other (t := .roles) h nofun nofun db,
    assigns_other (t := .rolePermissions) h nofun nofun db,
    assigns_other (t := .permissions) h nofun nofun db⟩

theorem Assigns.rolesOf (h : w.Assigns m) {id : UUID} (hid : id ≠ m.id) (db : Db) :
    (w.apply db).rolesOf id = db.rolesOf id := by
  by_cases ht : w.table = .membershipRoles
  · unfold Db.rolesOf
    rcases w with ⟨t, x⟩ | ⟨t, l, c⟩ | ⟨t, p, ids⟩ | _
    · obtain rfl : t = .membershipRoles := ht
      have hx : x.membershipId = m.id := h
      rw [apply_insert, List.filter_append]
      simp [hx, Ne.symm hid]
    · obtain rfl : t = .membershipRoles := ht
      exact h.elim
    · obtain rfl : t = .membershipRoles := ht
      rw [apply_delete, List.filter_filter]
      refine List.filter_congr fun x _ => ?_
      by_cases hx : x.membershipId = id
      · have hp : p x = false := by
          rcases hp : p x with _ | _
          · rfl
          · exact absurd ((hx ▸ h x hp)) hid
        simp [hx, hp]
      · simp [hx]
    · exact h.elim
  · unfold Db.rolesOf
    rw [apply_other w db (Ne.symm ht)]

/-- Only the roles of `m` change. -/
theorem assigns_rolesOf (h : ∀ w ∈ ws, w.Assigns m) {id : UUID} (hid : id ≠ m.id) (db : Db) :
    (ws.foldl (fun db w => w.apply db) db).rolesOf id = db.rolesOf id := by
  induction ws generalizing db with
  | nil => rfl
  | cons w ws ih =>
    rw [List.foldl_cons, ih fun w' hw' => h w' (List.mem_cons_of_mem w hw'),
      (h w List.mem_cons_self).rolesOf hid]

/-- An update of a membership is still that membership. -/
theorem same_patch (l c x : Membership) : x.Same (Table.patch .memberships l c x) :=
  ⟨rfl, rfl, rfl⟩

theorem Assigns.keeps_members (h : w.Assigns m) {db : Db} {y : Membership} (hy : db.HasMember y) :
    (w.apply db).HasMember y := by
  obtain ⟨x, hx, hs⟩ := hy
  by_cases ht : w.table = .memberships
  · rcases w with ⟨t, z⟩ | ⟨t, l, c⟩ | ⟨t, p, ids⟩ | _
    · obtain rfl : t = .memberships := ht
      exact ⟨x, by rw [apply_insert]; exact List.mem_append_left _ hx, hs⟩
    · obtain rfl : t = .memberships := ht
      unfold Db.HasMember
      rw [apply_update]
      refine ⟨_, List.mem_map_of_mem hx, ?_⟩
      split
      · exact hs
      · exact hs
    · obtain rfl : t = .memberships := ht
      exact h.elim
    · exact h.elim
  · exact ⟨x, by rwa [apply_other w db (Ne.symm ht)], hs⟩

theorem assigns_members (h : ∀ w ∈ ws, w.Assigns m) {db : Db} {y : Membership}
    (hy : db.HasMember y) : (ws.foldl (fun db w => w.apply db) db).HasMember y := by
  induction ws generalizing db with
  | nil => exact hy
  | cons w ws ih =>
    exact ih (fun w' hw' => h w' (List.mem_cons_of_mem w hw'))
      ((h w List.mem_cons_self).keeps_members hy)

/-- A membership that is inserted is there. -/
theorem inserted_member (h : ∀ w ∈ ws, w.Assigns m)
    (hi : ∃ x, insert .memberships x ∈ ws ∧ m.Same x) (db : Db) :
    (ws.foldl (fun db w => w.apply db) db).HasMember m := by
  obtain ⟨x, hx, hs⟩ := hi
  obtain ⟨before, after, rfl⟩ := List.append_of_mem hx
  rw [List.foldl_append, List.foldl_cons]
  refine assigns_members (fun w hw => h w (List.mem_append_right _ (List.mem_cons_of_mem _ hw)))
    ⟨x, ?_, hs⟩
  rw [apply_insert]
  exact List.mem_append_right _ (List.mem_singleton.mpr rfl)

/-- Every membership row after a write is one from before, or is `m`. -/
theorem Assigns.members (h : w.Assigns m) {db : Db} {x : Membership}
    (hx : x ∈ w.apply db .memberships) : (∃ y ∈ db .memberships, y.Same x) ∨ m.Same x := by
  by_cases ht : w.table = .memberships
  · rcases w with ⟨t, z⟩ | ⟨t, l, c⟩ | ⟨t, p, ids⟩ | _
    · obtain rfl : t = .memberships := ht
      rw [apply_insert] at hx
      rcases List.mem_append.mp hx with hx | hx
      · exact .inl ⟨x, hx, rfl, rfl, rfl⟩
      · rw [List.mem_singleton.mp hx]
        exact .inr h
    · obtain rfl : t = .memberships := ht
      rw [apply_update] at hx
      obtain ⟨y, hy, rfl⟩ := List.mem_map.mp hx
      refine .inl ⟨y, hy, ?_⟩
      split
      · exact same_patch l c y
      · exact ⟨rfl, rfl, rfl⟩
    · obtain rfl : t = .memberships := ht
      exact h.elim
    · exact h.elim
  · rw [apply_other w db (Ne.symm ht)] at hx
    exact .inl ⟨x, hx, rfl, rfl, rfl⟩

theorem assigns_oneTenant (h : ∀ w ∈ ws, w.Assigns m) {db : Db} (ho : db.OneTenant)
    (hm : ∀ x ∈ db .memberships, x.id = m.id → x.tenantId = m.tenantId) :
    (ws.foldl (fun db w => w.apply db) db).OneTenant := by
  induction ws generalizing db with
  | nil => exact ho
  | cons w ws ih =>
    have hw := h w List.mem_cons_self
    refine ih (fun w' hw' => h w' (List.mem_cons_of_mem w hw')) (fun x hx y hy hid => ?_)
      fun x hx hid => ?_
    · rcases hw.members hx with ⟨x', hx', hs⟩ | hs <;>
        rcases hw.members hy with ⟨y', hy', hs'⟩ | hs'
      · rw [hs.2.1, hs'.2.1]
        exact ho x' hx' y' hy' (by rw [← hs.1, ← hs'.1, hid])
      · rw [hs.2.1, hs'.2.1]
        exact hm x' hx' (by rw [← hs.1, ← hs'.1, hid])
      · rw [hs.2.1, hs'.2.1]
        exact (hm y' hy' (by rw [← hs.1, ← hs'.1, hid])).symm
      · rw [hs.2.1, hs'.2.1]
    · rcases hw.members hx with ⟨x', hx', hs⟩ | hs
      · rw [hs.2.1]
        exact hm x' hx' (by rw [← hs.1, hid])
      · exact hs.2.1

end Write

/-! ## The outline -/

namespace PermissionCache

/-- A membership whose cache entry is not read from roles older than the first `since` commits. -/
structure Watch where
  tenantId : UUID
  membershipId : UUID
  since : Nat

variable (P : Platform) (S : RBACService) (plan : Nat → RoleCall) (db₀ : Db)

/-- `text` is the snapshot of the roles after some of the commits, after `x.since` of them at
least. -/
def Snapshot (wal : List (Nat × List Write)) (x : Watch) (text : String) : Prop :=
  ∃ n, x.since ≤ n ∧ n ≤ wal.length ∧
    (db₀.after (wal.take n)).Accurate x.tenantId x.membershipId text

/-- The cache entry of a watched membership. -/
structure Fresh (x : Watch) (W : World) : Prop where
  since : x.since ≤ W.store.wal.length
  entry : S.cache = true → ∀ e,
    W.cache (permissionSnapshotKey x.tenantId x.membershipId) = some e →
    Snapshot db₀ W.store.wal x e.value

/-- What anybody may do to the world: commits are added, members stay who they are, and a cache
entry that was not there is a snapshot of roles committed meanwhile. -/
structure Evolves (W W' : World) : Prop where
  wal : W.store.wal <+: W'.store.wal
  cache : ∀ t m e, W'.cache (permissionSnapshotKey t m) = some e →
    W.cache (permissionSnapshotKey t m) = some e ∨
      Snapshot db₀ W'.store.wal ⟨t, m, W.store.wal.length⟩ e.value
  users : ∀ u ∈ W.store.db .users, u ∈ W'.store.db .users
  members : ∀ m, W.store.db.HasMember m → W'.store.db.HasMember m

/-- **The invariant**: the history decides the roles, and every commit changes the roles of the one
membership its call was to change. -/
structure RoleHistory (W : World) : Prop where
  rows : ∀ t ∈ [Table.membershipRoles, .roles, .rolePermissions, .permissions],
    W.store.db t = db₀.after W.store.wal t
  commits : ∀ c ∈ W.store.wal, ∃ m : Membership, (∀ w ∈ c.2, w.Assigns m) ∧
    (plan c.1).Changes P W.store.db m.tenantId m.id
  oneTenant : W.store.db.OneTenant

variable {P S plan db₀} {W W' W'' : World} {x : Watch}

theorem Snapshot.mono {wal wal' : List (Nat × List Write)} {text : String}
    (h : Snapshot db₀ wal x text) (hw : wal <+: wal') : Snapshot db₀ wal' x text := by
  obtain ⟨n, hs, hn, ha⟩ := h
  obtain ⟨more, rfl⟩ := hw
  exact ⟨n, hs, by rw [List.length_append]; omega, by rwa [List.take_append_of_le_length hn]⟩

theorem Evolves.refl (W : World) : Evolves db₀ W W :=
  ⟨List.prefix_rfl, fun _ _ _ h => .inl h, fun _ h => h, fun _ h => h⟩

theorem Evolves.trans (h : Evolves db₀ W W') (h' : Evolves db₀ W' W'') : Evolves db₀ W W'' where
  wal := h.wal.trans h'.wal
  cache t m e he := by
    rcases h'.cache t m e he with he | ⟨n, hs, hn, ha⟩
    · exact (h.cache t m e he).imp id fun hs => hs.mono h'.wal
    · exact .inr ⟨n, h.wal.length_le.trans hs, hn, ha⟩
  users u hu := h'.users u (h.users u hu)
  members m hm := h'.members m (h.members m hm)

theorem Fresh.evolves (h : Fresh S db₀ x W) (he : Evolves db₀ W W') : Fresh S db₀ x W' where
  since := h.since.trans he.wal.length_le
  entry hS e hc := by
    rcases he.cache _ _ e hc with hc | ⟨n, hs, hn, ha⟩
    · exact (h.entry hS e hc).mono he.wal
    · exact ⟨n, h.since.trans hs, hn, ha⟩

theorem changes_evolves (he : Evolves db₀ W W') {c : RoleCall} {t m : UUID}
    (h : c.Changes P W.store.db t m) : c.Changes P W'.store.db t m := by
  obtain ⟨x, hx, hid, ht, hc⟩ := h
  obtain ⟨x', hx', hid', ht', hu'⟩ := he.members x ⟨x, hx, rfl, rfl, rfl⟩
  refine ⟨x', hx', hid'.trans hid, ht'.trans ht, ?_⟩
  rcases c with ⟨m, p⟩ | ⟨t, m, ids⟩ | ⟨ctx, email⟩
  · exact hc
  · exact hc
  · obtain ⟨htenant, u, hu, hmail, huser⟩ := hc
    exact ⟨htenant, u, he.users u hu, hmail, huser.trans hu'.symm⟩

/-- Where neither the rows nor the history moved, the record still stands. -/
theorem RoleHistory.same (h : RoleHistory P plan db₀ W) (hdb : W'.store.db = W.store.db)
    (hw : W'.store.wal = W.store.wal) : RoleHistory P plan db₀ W' := by
  refine ⟨fun t ht => ?_, fun c hc => ?_, ?_⟩
  · rw [hdb, hw]
    exact h.rows t ht
  · rw [hw] at hc
    rw [hdb]
    exact h.commits c hc
  · rw [hdb]
    exact h.oneTenant

/-- What the committed roles of a membership permit is what the history says. -/
theorem RoleHistory.permissionCodes (h : RoleHistory P plan db₀ W) (t m : UUID) :
    W.store.db.permissionCodes t m = (db₀.after W.store.wal).permissionCodes t m := by
  refine Db.permissionCodes_congr ?_ ⟨h.rows _ (by simp), h.rows _ (by simp), h.rows _ (by simp)⟩ t
  unfold Db.rolesOf
  rw [h.rows _ (by simp)]

theorem RoleHistory.snapshot (h : RoleHistory P plan db₀ W) {text : String}
    (ha : W.store.db.Accurate x.tenantId x.membershipId text) (hs : x.since ≤ W.store.wal.length) :
    Snapshot db₀ W.store.wal x text := by
  refine ⟨_, hs, le_rfl, ?_⟩
  unfold Db.Accurate at ha ⊢
  rwa [List.take_length, ← h.permissionCodes]

theorem evolves_of_eq (hdb : W'.store.db = W.store.db) (hw : W'.store.wal = W.store.wal)
    (hc : W'.cache = W.cache) : Evolves db₀ W W' := by
  refine ⟨hw ▸ List.prefix_rfl, fun t m e he => .inl (by rwa [← hc]), ?_, ?_⟩
  · rw [hdb]
    exact fun _ h => h
  · rw [hdb]
    exact fun _ h => h

variable (P S plan db₀) in
/-- The record stands, and every watched entry is fresh. -/
def outline (watched : List Watch) : WorldOutline where
  inv W := RoleHistory P plan db₀ W ∧ ∀ x ∈ watched, Fresh S db₀ x W
  frame _ := Evolves db₀
  same W W' := W'.cache = W.cache
  blind o := o.part ≠ some .cache
  refl _ := .refl
  trans _ _ _ _ _ := .trans
  same_setStore _ _ := rfl
  same_blind ho h := (opStep_part h).parts .cache ho
  inv_local hl hs h := ⟨h.1.same hl.db hl.wal,
    fun x hx => (h.2 x hx).evolves (evolves_of_eq hl.db hl.wal hs)⟩
  frame_local _ hl hs := evolves_of_eq hl.db hl.wal hs

/-! ## What a thread knows -/

variable {watched : List Watch} {i : Nat}

variable (P S plan db₀ watched i) in
abbrev Knows := (outline P S plan db₀ watched).outline.Assertion i

variable (P S plan db₀ watched i) in
/-- At some moment a watch of membership `m` allows, the history gave a database of `φ`. -/
def Told (m : Membership) (φ : Db → Prop) : Knows P S plan db₀ watched i where
  holds W := ∀ x ∈ watched, x.tenantId = m.tenantId → x.membershipId = m.id →
    ∃ n, x.since ≤ n ∧ n ≤ W.store.wal.length ∧ φ (db₀.after (W.store.wal.take n))
  stable W W' h hm x hx ht hid := by
    obtain ⟨n, hs, hn, hφ⟩ := h x hx ht hid
    obtain ⟨more, hmore⟩ := hm.2.2.wal
    refine ⟨n, hs, by rw [← hmore, List.length_append]; omega, ?_⟩
    rwa [← hmore, List.take_append_of_le_length hn]

theorem Told.mono {m : Membership} {φ ψ : Db → Prop} {W : World}
    (h : Told P S plan db₀ watched i m φ W) (hφ : ∀ db, φ db → ψ db) :
    Told P S plan db₀ watched i m ψ W := fun x hx ht hid => by
  obtain ⟨n, hs, hn, hp⟩ := h x hx ht hid
  exact ⟨n, hs, hn, hφ _ hp⟩

variable (P S plan db₀ watched i) in
/-- `m` is a member, and nobody else's roles were changed in the thread's name. -/
def Owes (m : Membership) : Knows P S plan db₀ watched i where
  holds W := W.store.db.HasMember m ∧ ∀ c ∈ W.store.wal, c.1 = i → ∀ w ∈ c.2, w.Assigns m
  stable W W' h hm := by
    obtain ⟨more, hw, hn⟩ := hm.2.1.wal
    refine ⟨hm.2.2.members m h.1, fun c hc hi => ?_⟩
    rw [hw] at hc
    rcases List.mem_append.mp hc with hc | hc
    · exact h.2 c hc hi
    · exact absurd hi (hn c hc)

variable (P S plan db₀ watched i) in
/-- The cache entry of `m` is fresher than what was committed in the thread's name. -/
def Cleared (m : Membership) : Knows P S plan db₀ watched i where
  holds W := ∃ n, Fresh S db₀ ⟨m.tenantId, m.id, n⟩ W ∧
    ∀ k ws, W.store.wal[k]? = some (i, ws) → k < n
  stable W W' := by
    rintro ⟨n, hf, hk⟩ hm
    obtain ⟨more, hw, hn⟩ := hm.2.1.wal
    refine ⟨n, hf.evolves hm.2.2, fun k ws hget => ?_⟩
    rw [hw] at hget
    rcases Nat.lt_or_ge k W.store.wal.length with hlt | hge
    · rw [List.getElem?_append_left hlt] at hget
      exact hk k ws hget
    · rw [List.getElem?_append_right hge] at hget
      exact absurd rfl (hn _ (List.mem_of_getElem? hget))

variable (P S plan db₀ watched i) in
/-- A role change that came to its end. -/
def Left (m : Membership) : Knows P S plan db₀ watched i :=
  (Owes P S plan db₀ watched i m).and (Cleared P S plan db₀ watched i m)

variable (P S plan db₀ watched i) in
/-- A call that raised had committed nothing, or did all it had to. -/
def Raised (_ : Exn) : Knows P S plan db₀ watched i :=
  ((outline P S plan db₀ watched).NoCommit i).or (.ex (Left P S plan db₀ watched i))

open WorldOutline (Before local_before own_true)

theorem raised_of_noCommit (e : Exn) (W : World)
    (h : (outline P S plan db₀ watched).NoCommit i W) : Raised P S plan db₀ watched i e W := .inl h

theorem own_told (m : Membership) (φ : Db → Prop) :
    WorldOutline.Own (Told P S plan db₀ watched i m φ) := fun {W W'} hl _ _ h x hx ht hid => by
  rw [hl.wal]
  exact h x hx ht hid

/-- An operation that touches neither the database nor, but for fresh snapshots, the cache. -/
theorem guar_cache (hs : W'.store = W.store)
    (hc : ∀ t m e, W'.cache (permissionSnapshotKey t m) = some e →
      W.cache (permissionSnapshotKey t m) = some e ∨ W.store.db.Accurate t m e.value)
    (hi : (outline P S plan db₀ watched).outline.inv W) :
    (outline P S plan db₀ watched).outline.Guar i W W' := by
  have he : Evolves db₀ W W' := by
    refine ⟨hs ▸ List.prefix_rfl, fun t m e he => (hc t m e he).imp id fun ha => ?_,
      by rw [hs]; exact fun _ h => h, by rw [hs]; exact fun _ h => h⟩
    rw [hs]
    exact hi.2.1.snapshot ha le_rfl
  refine ⟨⟨by rw [hs]; exact hi.1, hi.2.1.same (by rw [hs]) (by rw [hs]),
    fun x hx => (hi.2.2 x hx).evolves he⟩, fun j _ => ⟨?_, he⟩⟩
  rw [hs]
  exact .refl j _

/-- `A` is about the database alone. -/
def OfStore (A : Knows P S plan db₀ watched i) : Prop :=
  ∀ W W' : World, W'.store = W.store → A W → A W'

theorem ofStore_told (m : Membership) (φ : Db → Prop) :
    OfStore (Told P S plan db₀ watched i m φ) := fun W W' hs h x hx ht hid => by
  rw [hs]
  exact h x hx ht hid

theorem ofStore_before {X : Knows P S plan db₀ watched i} {φ : List Write → Prop} (hX : OfStore X) :
    OfStore (Before X φ) := fun W W' hs h => by
  refine ⟨?_, hX W W' hs h.2.1, ?_⟩
  · show ∀ c ∈ W'.store.wal, c.1 ≠ i
    rw [hs]
    exact h.1
  · show φ (W'.store.sessions i).writes
    rw [hs]
    exact h.2.2

/-! ## `has_permission` -/

section Reading

variable (m : Membership)

/-- What a reader finds in the cache is a snapshot. -/
theorem cacheGet (hS : S.cache = true) : Triple (callStep storesCommitted i) (Before .true (· = []))
    (Lib.Prog.perform (Op.cacheGet (permissionSnapshotKey m.tenantId m.id)))
    (fun found => Before (Told P S plan db₀ watched i m fun db =>
      ∀ text, found = some text → db.Accurate m.tenantId m.id text) (· = []))
    (Raised P S plan db₀ watched i) :=
  Triple.op fun W r W' hi h ⟨c, hadm, hst⟩ => by
    have hfault : c.fault = none := hadm.1
    simp only [opStep, World.redis, hfault, World.awaiting, Option.some.injEq, Prod.mk.injEq] at hst
    obtain ⟨rfl, rfl⟩ := hst
    refine ⟨WorldOutline.guar_keeps (.refl i _) (T := outline P S plan db₀ watched) rfl hi,
      h.1, fun x hx ht hid => ?_, h.2.2⟩
    have hfresh := hi.2.2 x hx
    rcases hc : W.cache (permissionSnapshotKey m.tenantId m.id) with _ | e
    · exact ⟨_, hfresh.since, le_rfl, fun text he => by simp [World.cached, hc] at he⟩
    · rw [← ht, ← hid] at hc
      obtain ⟨n, hs, hn, ha⟩ := hfresh.entry hS e hc
      refine ⟨n, hs, hn, fun text he => ?_⟩
      rw [← ht, ← hid] at he ⊢
      simp only [World.cached, hc] at he
      split at he
      · exact Option.some.inj he ▸ ha
      · cases he

/-- What a reader stores is a snapshot. -/
theorem cacheSet {A : Knows P S plan db₀ watched i} {key value : String} {ttl : Nat}
    (hA : OfStore A) :
    Triple (callStep storesCommitted i) A (Lib.Prog.perform (Op.cacheSet key value ttl))
      (fun _ => A) (Raised P S plan db₀ watched i) :=
  Triple.op fun W r W' hi h ⟨c, hadm, hst⟩ => by
    have hfault : c.fault = none := hadm.1
    simp only [opStep, World.redis, hfault, World.awaiting, Option.some.injEq, Prod.mk.injEq] at hst
    obtain ⟨rfl, rfl⟩ := hst
    refine ⟨guar_cache rfl (fun t m e he => ?_) hi, hA W _ rfl h⟩
    by_cases hkey : permissionSnapshotKey t m = key
    · simp only [hkey, Function.update_self, Option.some.injEq] at he
      rw [← he]
      exact .inr (hadm.2 t m hkey.symm)
    · simp only [Function.update_of_ne hkey] at he
      exact .inl he

theorem cacheDelete {A : Knows P S plan db₀ watched i} (hA : OfStore A) :
    Triple (callStep storesCommitted i) A
      (Lib.Prog.perform (Op.cacheDelete (permissionSnapshotKey m.tenantId m.id)))
      (fun _ => A.and (Cleared P S plan db₀ watched i m)) (Raised P S plan db₀ watched i) :=
  Triple.op fun W r W' hi h ⟨c, hadm, hst⟩ => by
    have hfault : c.fault = none := hadm.1
    simp only [opStep, World.redis, hfault, World.awaiting, Option.some.injEq, Prod.mk.injEq] at hst
    obtain ⟨rfl, rfl⟩ := hst
    refine ⟨guar_cache rfl (fun t m' e he => ?_) hi, hA W _ rfl h, W.store.wal.length,
      ⟨le_rfl, fun _ e he => ?_⟩, fun k ws hget => (List.getElem?_eq_some_iff.mp hget).1⟩
    · by_cases hkey : permissionSnapshotKey t m' = permissionSnapshotKey m.tenantId m.id
      · simp only [hkey, Function.update_self] at he
        cases he
      · simp only [Function.update_of_ne hkey] at he
        exact .inl he
    · simp only [Function.update_self] at he
      cases he

theorem mem_of_mapM {values : List String} {codes : List PermissionCode}
    (h : values.mapM PermissionCode.ofValue = some codes) (p : PermissionCode) :
    p ∈ codes ↔ p.value ∈ values := by
  induction values generalizing codes with
  | nil =>
    cases h
    simp
  | cons v vs ih =>
    rw [List.mapM_cons] at h
    obtain ⟨q, hq, h⟩ := Option.bind_eq_some_iff.mp h
    obtain ⟨qs, hqs, h⟩ := Option.bind_eq_some_iff.mp h
    cases h
    have hv : q.value = v := PermissionCode.value_of_ofValue hq
    rw [List.mem_cons, List.mem_cons, ih hqs, ← hv]
    refine or_congr ⟨fun h => by rw [h], fun h => ?_⟩ Iff.rfl
    have := PermissionCode.ofValue_value p
    rw [h, PermissionCode.ofValue_value] at this
    exact (Option.some.inj this).symm

/-- The permissions the roles of `m` give. -/
def Gives (m : Membership) (permissions : List PermissionCode) (db : Db) : Prop :=
  ∃ codes, (db.permissionCodes m.tenantId m.id).mapM PermissionCode.ofValue = some codes ∧
    permissions = PermissionCode.frozenset codes

/-- The second half of a reader. -/
theorem loadPermissions : Triple (callStep storesCommitted i)
    (Before .true (· = [])) (S.loadPermissions m)
    (fun permissions => Before (Told P S plan db₀ watched i m (Gives m permissions)) (· = []))
    (Raised P S plan db₀ watched i) := by
  refine Triple.bind (M := fun values => Before (Told P S plan db₀ watched i m fun db =>
    db.permissionCodes m.tenantId m.id = values) (· = [])) ?_ fun values => ?_
  · refine WorldOutline.select (ρ := fun _ => True) (local_before own_true raised_of_noCommit)
      fun W W' hi h hk _ => ?_
    refine ⟨WorldOutline.noCommit_local hk.toLocal h.1, fun x hx _ _ => ?_,
      hk.writes.trans h.2.2⟩
    refine ⟨_, by rw [hk.wal]; exact (hi.2.2 x hx).since, le_rfl, ?_⟩
    rw [List.take_length, hk.wal, WorldOutline.view_eq h.2.2, hi.2.1.permissionCodes]
  · rcases hc : values.mapM PermissionCode.ofValue with _ | codes
    · exact Triple.raise fun W _ h => .inl h.1
    · have hgives : ∀ W, Before (Told P S plan db₀ watched i m fun db =>
          db.permissionCodes m.tenantId m.id = values) (· = []) W →
          Before (Told P S plan db₀ watched i m (Gives m (PermissionCode.frozenset codes)))
            (· = []) W := fun W h =>
        ⟨h.1, Told.mono h.2.1 fun db hdb => ⟨codes, by rw [hdb, hc], rfl⟩, h.2.2⟩
      rcases S.cache with _ | _
      · exact Triple.ret fun W _ h => hgives W h
      · refine Triple.bind (WorldOutline.quiet (φ := (· = Op.randint S.cacheTtlJitterSeconds))
          (ρ := fun _ => True) (.perform rfl) (fun o ho => by subst ho; exact ⟨trivial, nofun⟩)
          (local_before (own_told m _) raised_of_noCommit)) fun jitter => ?_
        refine Triple.bind (cacheSet (ofStore_before (ofStore_told m _))) fun _ => ?_
        exact Triple.ret fun W _ h => hgives W h

/-- A reader answers from roles committed at some moment of its run. -/
theorem membershipPermissions : Triple (callStep storesCommitted i)
    (Before .true (· = [])) (S.membershipPermissions m)
    (fun permissions => Before (Told P S plan db₀ watched i m (Gives m permissions)) (· = []))
    (Raised P S plan db₀ watched i) := by
  unfold RBACService.membershipPermissions
  rcases hS : S.cache with _ | _
  · exact loadPermissions m
  refine Triple.bind (cacheGet m hS) fun found => ?_
  rcases found with _ | text
  · exact (loadPermissions m).pre fun W _ h => ⟨h.1, trivial, h.2.2⟩
  rcases hs : loadSnapshot text with _ | permissions
  · simp only [hs]
    refine Triple.bind (cacheDelete m (ofStore_before (ofStore_told m _))) fun _ => ?_
    exact (loadPermissions m).pre fun W _ h => ⟨h.1.1, trivial, h.1.2.2⟩
  · simp only [hs]
    refine Triple.ret fun W _ h => ⟨h.1, Told.mono h.2.1 fun db hdb => ?_, h.2.2⟩
    obtain ⟨codes, hcodes, ht⟩ := hdb text rfl
    rw [ht, loadSnapshot_dumpSnapshot, PermissionCode.frozenset_frozenset] at hs
    exact ⟨codes, hcodes, (Option.some.inj hs).symm⟩

theorem hasPermission (p : PermissionCode) : Triple (callStep storesCommitted i)
    (Before .true (· = [])) (S.hasPermission m p)
    (fun b => ((outline P S plan db₀ watched).NoCommit i).and
      (Told P S plan db₀ watched i m fun db =>
      b = true ↔ p.value ∈ db.permissionCodes m.tenantId m.id))
    (Raised P S plan db₀ watched i) := by
  refine Triple.bind (membershipPermissions m) fun permissions => Triple.ret fun W _ h =>
    ⟨h.1, Told.mono h.2.1 fun db ⟨codes, hcodes, hp⟩ => ?_⟩
  rw [decide_eq_true_iff, hp, PermissionCode.mem_frozenset, mem_of_mapM hcodes]

end Reading

/-! ## Role changes -/

section Changing

variable {m : Membership}

variable (P S plan db₀ watched i) in
def IsMember (m : Membership) : Knows P S plan db₀ watched i where
  holds W := W.store.db.HasMember m
  stable _ _ h hm := hm.2.2.members m h

variable (P S plan db₀ watched i) in
def IsUser (u : User) : Knows P S plan db₀ watched i where
  holds W := u ∈ W.store.db .users
  stable _ _ h hm := hm.2.2.users u h

theorem own_isMember : WorldOutline.Own (IsMember P S plan db₀ watched i m) :=
  fun {W W'} hl _ _ h => by
    show W'.store.db.HasMember m
    rw [hl.db]
    exact h

theorem own_isUser (u : User) : WorldOutline.Own (IsUser P S plan db₀ watched i u) :=
  fun {W W'} hl _ _ h => by
    show u ∈ W'.store.db .users
    rw [hl.db]
    exact h

variable (P plan i) in
/-- What has to hold of a session's writes when they are committed. -/
structure Ready (m : Membership) (ws : List Write) (db : Db) : Prop where
  assigns : ∀ w ∈ ws, w.Assigns m
  oneTenant : ∀ x ∈ db .memberships, x.id = m.id → x.tenantId = m.tenantId
  member : (ws.foldl (fun db w => w.apply db) db).HasMember m
  changes : (plan i).Changes P (ws.foldl (fun db w => w.apply db) db) m.tenantId m.id

theorem Ready.roleHistory {ws : List Write} (h : Ready P plan i m ws W.store.db)
    (hr : RoleHistory P plan db₀ W) (he : Evolves db₀ W W')
    (hdb : W'.store.db = ws.foldl (fun db w => w.apply db) W.store.db)
    (hw : W'.store.wal = W.store.wal ++ [(i, ws)]) : RoleHistory P plan db₀ W' where
  rows t ht := by
    rw [hdb, hw, Db.after_append]
    exact Write.foldl_congr ws (hr.rows t ht)
  commits c hc := by
    rw [hw] at hc
    rcases List.mem_append.mp hc with hc | hc
    · obtain ⟨m', ha, hch⟩ := hr.commits c hc
      exact ⟨m', ha, changes_evolves he hch⟩
    · obtain rfl := List.mem_singleton.mp hc
      exact ⟨m, h.assigns, hdb ▸ h.changes⟩
  oneTenant := hdb ▸ Write.assigns_oneTenant h.assigns hr.oneTenant h.oneTenant

/-- The commit of a role change. -/
theorem commitRoles {X : Knows P S plan db₀ watched i} {φ : List Write → Prop}
    (hX : WorldOutline.Own X)
    (hready : ∀ W, (outline P S plan db₀ watched).outline.inv W → X W →
      φ (W.store.sessions i).writes → Ready P plan i m (W.store.sessions i).writes W.store.db) :
    Triple (callStep storesCommitted i) (Before X φ) Service.commit
      (fun _ => Owes P S plan db₀ watched i m) (Raised P S plan db₀ watched i) := by
  refine WorldOutline.commit (local_before hX raised_of_noCommit) (fun W W' hi h hc hs => ?_)
    fun e W c hadm he => ?_
  · have hr := hready W hi h.2.1 h.2.2
    have hdb : W'.store.db =
        (W.store.sessions i).writes.foldl (fun db w => w.apply db) W.store.db := hc.db
    have hev : Evolves db₀ W W' := by
      refine ⟨hc.wal ▸ List.prefix_append .., fun t m e he => .inl (by rwa [← hs]),
        fun u hu => ?_, fun m' hm' => hdb ▸ Write.assigns_members hr.assigns hm'⟩
      rw [hdb, Write.assigns_other hr.assigns (t := .users) nofun nofun]
      exact hu
    refine ⟨⟨hr.roleHistory hi.2.1 hev hdb hc.wal, fun x hx => (hi.2.2 x hx).evolves hev⟩,
      fun _ _ => hev, hdb ▸ hr.member, fun c hmem hci w hw => ?_⟩
    rw [hc.wal] at hmem
    rcases List.mem_append.mp hmem with hmem | hmem
    · exact absurd hci (h.1 c hmem)
    · obtain rfl := List.mem_singleton.mp hmem
      exact hr.assigns w hw
  · -- an admitted commit that takes effect returns
    rcases he with ⟨-, hf⟩ | ⟨-, hf⟩
    · exact absurd hf hadm.1.1
    · exact absurd hf hadm.1.2

theorem left_local (hl : Store.Local i W.store W'.store) (hs : W'.cache = W.cache)
    (h : Left P S plan db₀ watched i m W) : Left P S plan db₀ watched i m W' := by
  obtain ⟨⟨hm, hc⟩, n, hf, hk⟩ := h
  exact ⟨⟨by rwa [hl.db], by rwa [hl.wal]⟩, n, hf.evolves (evolves_of_eq hl.db hl.wal hs),
    by rwa [hl.wal]⟩

/-- `invalidate_permissions` after the commit. -/
theorem invalidatePermissions : Triple (callStep storesCommitted i)
    (Owes P S plan db₀ watched i m) (S.invalidatePermissions m.tenantId m.id)
    (fun _ => Left P S plan db₀ watched i m) (Raised P S plan db₀ watched i) := by
  unfold RBACService.invalidatePermissions
  split
  · refine cacheDelete m fun W W' hs h => ?_
    exact ⟨by rw [hs]; exact h.1, by rw [hs]; exact h.2⟩
  · rename_i hS
    exact Triple.ret fun W _ h => ⟨h, W.store.wal.length, ⟨le_rfl, fun hc => absurd hc hS⟩,
      fun k ws hget => (List.getElem?_eq_some_iff.mp hget).1⟩

section Writes

variable {X : Knows P S plan db₀ watched i} {φ : List Write → Prop}

/-- `p` holds of what is written, whatever more is written for `m`. -/
def Extends (m : Membership) (φ : List Write → Prop) : Prop :=
  ∀ ws w, φ ws → w.Assigns m → φ (ws ++ [w])

theorem extends_assigns (m : Membership) : Extends m fun ws => ∀ w ∈ ws, w.Assigns m :=
  fun ws w h hw w' hw' => by
    rcases List.mem_append.mp hw' with hw' | hw'
    · exact h w' hw'
    · rw [List.mem_singleton.mp hw']
      exact hw

theorem addRole (hX : WorldOutline.Own X) (hφ : Extends m φ) {w : Write} (hw : w.Assigns m) :
    Triple (callStep storesCommitted i) (Before X φ) (Lib.Prog.perform (Op.write w))
      (fun _ => Before X φ) (Raised P S plan db₀ watched i) :=
  WorldOutline.addWrite hX raised_of_noCommit fun ws τ h => hφ ws _ h (hw.stamp τ)

theorem reading {α : Type} {ρ : Exn → Prop} {p : Service α} (hX : WorldOutline.Own X)
    (hp : p.Straight (fun o => o.Quiet ∧ o.part ≠ some .cache) ρ) :
    Triple (callStep storesCommitted i) (Before X φ) p (fun _ => Before X φ)
      (Raised P S plan db₀ watched i) :=
  WorldOutline.quiet hp (fun _ ho => ho) (local_before hX raised_of_noCommit)

theorem reading_select {β : Type} (hX : WorldOutline.Own X) (q : Db → β) :
    Triple (callStep storesCommitted i) (Before X φ) (Service.select q) (fun _ => Before X φ)
      (Raised P S plan db₀ watched i) :=
  reading (ρ := fun _ => True) hX (.perform ⟨trivial, nofun⟩)

theorem reading_uuid4 (hX : WorldOutline.Own X) :
    Triple (callStep storesCommitted i) (Before X φ) Service.uuid4 (fun _ => Before X φ)
      (Raised P S plan db₀ watched i) :=
  reading (ρ := fun _ => True) hX (.perform ⟨trivial, nofun⟩)

theorem raises {α : Type} {e : Exn} {B : α → Knows P S plan db₀ watched i} :
    Triple (callStep storesCommitted i) (Before X φ) (throw e : Service α) B
      (Raised P S plan db₀ watched i) := Triple.raise fun _ _ h => .inl h.1

/-- The rest of a call after a check that may raise. -/
theorem check {α : Type} {c : Prop} [Decidable c] {e : Exn} {k : Service α}
    {B : α → Knows P S plan db₀ watched i} (h : ¬ c → Triple (callStep storesCommitted i)
      (Before X φ) k B (Raised P S plan db₀ watched i)) :
    Triple (callStep storesCommitted i) (Before X φ) (if c then throw e else k) B
      (Raised P S plan db₀ watched i) := by
  split
  · exact raises
  · rename_i hc
    exact h hc

/-- The delete of a membership's roles. -/
theorem deleteRoles (hX : WorldOutline.Own X) (hφ : Extends m φ) :
    Triple (callStep storesCommitted i) (Before X φ)
      (Service.delete .membershipRoles (·.membershipId = m.id)) (fun _ => Before X φ)
      (Raised P S plan db₀ watched i) := by
  refine Triple.bind (reading_select hX _) fun ids => addRole hX hφ ?_
  exact fun x hx => of_decide_eq_true hx

theorem addMembershipRoles (hX : WorldOutline.Own X) (roleIds : List UUID) :
    Triple (callStep storesCommitted i) (Before X φ) (RBACService.addMembershipRoles m.id roleIds)
      (fun rows => (Before X φ).and (.pure (∀ row ∈ rows, row.membershipId = m.id)))
      (Raised P S plan db₀ watched i) := by
  induction roleIds with
  | nil => exact Triple.ret fun W _ h => ⟨h, fun _ hrow => by cases hrow⟩
  | cons roleId rest ih =>
    refine Triple.bind (reading_uuid4 hX) fun id => Triple.bind ih fun rows =>
      Triple.assume fun hrows => Triple.ret fun W _ h => ⟨h, fun row hrow => ?_⟩
    rcases List.mem_cons.mp hrow with rfl | hrow
    · rfl
    · exact hrows row hrow

theorem insertAll (hX : WorldOutline.Own X) (hφ : Extends m φ) {rows : List MembershipRole}
    (hrows : ∀ row ∈ rows, row.membershipId = m.id) :
    Triple (callStep storesCommitted i) (Before X φ) (RBACService.insertAll .membershipRoles rows)
      (fun _ => Before X φ) (Raised P S plan db₀ watched i) := by
  induction rows with
  | nil => exact Triple.ret fun _ _ h => h
  | cons row rows ih =>
    refine Triple.bind (addRole hX hφ (hrows row List.mem_cons_self)) fun _ => ?_
    exact ih fun row' h => hrows row' (List.mem_cons_of_mem row h)

end Writes

theorem ready_of_member {ws : List Write} (hws : ∀ w ∈ ws, w.Assigns m)
    (hm : W.store.db.HasMember m) (hr : RoleHistory P plan db₀ W)
    (hchanges : ∀ db : Db, db.HasMember m → (∀ u ∈ W.store.db .users, u ∈ db .users) →
      (plan i).Changes P db m.tenantId m.id) : Ready P plan i m ws W.store.db where
  assigns := hws
  oneTenant x hx hid := by
    obtain ⟨y, hy, hs⟩ := hm
    rw [← hs.2.1]
    exact hr.oneTenant x hx y hy (hid.trans hs.1.symm)
  member := Write.assigns_members hws hm
  changes := hchanges _ (Write.assigns_members hws hm) fun u hu => by
    rwa [Write.assigns_other hws (t := .users) nofun nofun]

/-- `assign_roles`. -/
theorem assignRoles {tenantId membershipId : UUID} {roleIds : List UUID}
    (hplan : plan i = .assignRoles tenantId membershipId roleIds) :
    Triple (callStep storesCommitted i) (Before .true (· = []))
      (S.assignRoles tenantId membershipId roleIds)
      (fun _ => .ex fun m => (Left P S plan db₀ watched i m).and
        (.pure (m.tenantId = tenantId ∧ m.id = membershipId))) (Raised P S plan db₀ watched i) := by
  refine Triple.bind (reading_select own_true _) fun tenant => ?_
  refine Triple.bind (M := fun found => Before (found.elim .true fun m =>
    (IsMember P S plan db₀ watched i m).and (.pure (m.id = membershipId))) (· = []))
    ?_ fun found => ?_
  · refine WorldOutline.select (ρ := fun _ => True) (local_before own_true raised_of_noCommit)
      fun W W' hi h hk hs => ⟨WorldOutline.noCommit_local hk.toLocal h.1, ?_, hk.writes.trans h.2.2⟩
    rw [WorldOutline.view_eq h.2.2]
    rcases hq : W.store.db.get .memberships membershipId with _ | m
    · trivial
    · refine ⟨?_, Db.id_of_get hq⟩
      show W'.store.db.HasMember m
      rw [hk.db]
      exact Db.hasMember_of_mem (List.mem_of_find?_eq_some hq)
  rcases tenant with _ | tenant
  · exact raises
  rcases found with _ | m
  · exact raises
  have hown : WorldOutline.Own (IsMember P S plan db₀ watched i m) := own_isMember
  refine Triple.pre (A := (Before (IsMember P S plan db₀ watched i m)
    fun ws => ∀ w ∈ ws, w.Assigns m).and (.pure (m.id = membershipId)))
      (Triple.assume fun hid => ?_)
    fun W _ h => ⟨⟨h.1, h.2.1.1, fun w hw => ?_⟩, h.2.1.2⟩
  · subst hid
    refine check fun htenant => ?_
    have htenant : m.tenantId = tenantId := not_not.mp htenant
    refine Triple.bind (reading_select hown _) fun roles => check fun _ => check fun _ => ?_
    refine Triple.bind (deleteRoles hown (extends_assigns m)) fun _ => ?_
    refine Triple.bind (addMembershipRoles hown _) fun rows => Triple.assume fun hrows => ?_
    refine Triple.bind (insertAll hown (extends_assigns m) hrows) fun _ => ?_
    refine Triple.bind (commitRoles (m := m) hown fun W hi hm hws =>
      ready_of_member hws hm hi.2.1 fun db hx _ => ?_) fun _ => ?_
    · obtain ⟨x, hx, hs⟩ := hx
      refine ⟨x, hx, hs.1, hs.2.1, ?_⟩
      rw [hplan]
      exact ⟨htenant.symm, rfl⟩
    · rw [← htenant]
      exact invalidatePermissions.conseq (fun _ _ h => h) (fun _ W _ h => ⟨m, h, rfl, rfl⟩)
        fun _ _ _ h => h
  · have hnil : (W.store.sessions i).writes = [] := h.2.2
    rw [hnil] at hw
    cases hw

/-- What `invite` does once it has the membership. -/
theorem invite_rest {X : Knows P S plan db₀ watched i} {φ : List Write → Prop}
    (hX : WorldOutline.Own X) (hφ : Extends m φ) (tenantId : UUID) (ht : m.tenantId = tenantId)
    (hready : ∀ W, (outline P S plan db₀ watched).outline.inv W → X W →
      φ (W.store.sessions i).writes → Ready P plan i m (W.store.sessions i).writes W.store.db) :
    Triple (callStep storesCommitted i) (Before X φ)
      (do
        let assigned ← RBACService.resetToRequester tenantId m
        Service.insert .membershipRoles assigned
        Service.commit
        S.invalidatePermissions tenantId m.id
        Service.refresh .memberships m.id)
      (fun row => .ex fun m => (Left P S plan db₀ watched i m).and
        (.pure (m.tenantId = tenantId ∧ m.id = row.id))) (Raised P S plan db₀ watched i) := by
  subst ht
  refine Triple.bind (M := fun row : MembershipRole => (Before X φ).and
    (.pure (row.membershipId = m.id))) ?_ fun assigned => Triple.assume fun hrow => ?_
  · refine Triple.bind (reading_select hX _) fun role => ?_
    rcases role with _ | role
    · exact raises
    · refine Triple.bind (deleteRoles hX hφ) fun _ => Triple.bind (reading_uuid4 hX) fun id =>
        Triple.ret fun W _ h => ⟨h, rfl⟩
  refine Triple.bind (addRole hX hφ hrow) fun _ => ?_
  refine Triple.bind (commitRoles hX hready) fun _ => ?_
  refine Triple.bind invalidatePermissions fun _ => ?_
  refine (WorldOutline.refresh (ρ := (· = .invalidRequest)) ?_ rfl).conseq (fun _ _ h => h)
    (fun row W _ h => ⟨m, h.1, rfl, h.2.symm⟩) fun _ _ _ h => h
  exact ⟨fun hk hs h => left_local hk.toLocal hs h, fun e W _ h => .inr ⟨m, h⟩,
    fun e W W' _ hd hs h => .inr ⟨m, left_local hd.toLocal hs h⟩⟩

/-- `invite`. -/
theorem invite {context : CurrentTenant} {email : String}
    (hplan : plan i = .invite context email) :
    Triple (callStep storesCommitted i) (Before .true (· = []))
      (TenantService.invite P S context email)
      (fun row => .ex fun m => (Left P S plan db₀ watched i m).and
        (.pure (m.tenantId = context.tenant.id ∧ m.id = row.id)))
      (Raised P S plan db₀ watched i) := by
  refine Triple.bind (M := fun found => Before (found.elim .true fun u =>
    (IsUser P S plan db₀ watched i u).and
      (.pure (u.email = P.lower (Lib.Text.strip email)))) (· = [])) ?_ fun found => ?_
  · refine WorldOutline.select (ρ := fun _ => True) (local_before own_true raised_of_noCommit)
      fun W W' hi h hk hs => ⟨WorldOutline.noCommit_local hk.toLocal h.1, ?_, hk.writes.trans h.2.2⟩
    rw [WorldOutline.view_eq h.2.2]
    rcases hq : (W.store.db .users).find? _ with _ | u
    · trivial
    · have hmail : u.email = P.lower (Lib.Text.strip email) := by simpa using List.find?_some hq
      refine ⟨?_, hmail⟩
      show u ∈ W'.store.db .users
      rw [hk.db]
      exact List.mem_of_find?_eq_some hq
  rcases found with _ | u
  · exact raises
  refine Triple.pre (A := (Before (IsUser P S plan db₀ watched i u) (· = [])).and
    (.pure (u.email = P.lower (Lib.Text.strip email)))) (Triple.assume fun hmail => ?_)
    fun W _ h => ⟨⟨h.1, h.2.1.1, h.2.2⟩, h.2.1.2⟩
  have hchanges {m : Membership} (htenant : m.tenantId = context.tenant.id)
      (huser : m.userId = u.id) {W : World} (hu : IsUser P S plan db₀ watched i u W) (db : Db)
      (hm : db.HasMember m) (hgrow : ∀ u ∈ W.store.db .users, u ∈ db .users) :
      (plan i).Changes P db m.tenantId m.id := by
    obtain ⟨x, hx, hs⟩ := hm
    refine ⟨x, hx, hs.1, hs.2.1, ?_⟩
    rw [hplan]
    exact ⟨htenant.symm, u, hgrow u hu, hmail, huser.symm.trans hs.2.2.symm⟩
  refine Triple.bind (M := fun found => Before ((IsUser P S plan db₀ watched i u).and
    (found.elim .true fun m => (IsMember P S plan db₀ watched i m).and
      (.pure (m.tenantId = context.tenant.id ∧ m.userId = u.id)))) (· = [])) ?_ fun found => ?_
  · refine WorldOutline.selectForUpdate (ρ := fun _ => True)
      (local_before (own_isUser u) raised_of_noCommit) fun W W' hi h hk hs hl =>
      ⟨WorldOutline.noCommit_local hk.toLocal h.1, ⟨own_isUser u hk.toLocal hk.own hs h.2.1, ?_⟩,
        hk.writes.trans h.2.2⟩
    rw [WorldOutline.view_eq h.2.2, TenantService.findMembership]
    rcases hq : (W.store.db .memberships).find? _ with _ | m
    · trivial
    · refine ⟨?_, ?_⟩
      · show W'.store.db.HasMember m
        rw [hk.db]
        exact Db.hasMember_of_mem (List.mem_of_find?_eq_some hq)
      · have := List.find?_some hq
        simp only [Bool.decide_and, Bool.and_eq_true, decide_eq_true_eq] at this
        exact ⟨this.2, this.1⟩
  rcases found with _ | loaded
  · -- a new membership: its id is reserved until the commit
    have hown : WorldOutline.Own ((IsUser P S plan db₀ watched i u).and .true) :=
      WorldOutline.Own.and (own_isUser u) own_true
    refine Triple.bind (reading_uuid4 hown) fun id => ?_
    refine Triple.bind (WorldOutline.addInsert (k := .row .memberships id)
      (Table.row_mem_keys.mpr rfl) hown (fun ws hws w hw => by rw [hws] at hw; cases hw)
      raised_of_noCommit) fun _ => ?_
    let added := TenantService.newMembership context.tenant.id u.id id
    refine Triple.pre (invite_rest (m := added) (φ := fun ws =>
      (∃ x, Write.insert .memberships x ∈ ws ∧ added.Same x) ∧ ∀ w ∈ ws, w.Assigns added)
      (WorldOutline.Own.and hown (WorldOutline.own_reserved (.row .memberships id))) ?_ _ rfl ?_) ?_
    · rintro ws w ⟨⟨x, hx, hs⟩, hws⟩ hw
      exact ⟨⟨x, List.mem_append_left _ hx, hs⟩, extends_assigns _ ws w hws hw⟩
    · intro W hi hX hws
      have hmember := Write.inserted_member hws.2 hws.1 W.store.db
      refine ⟨hws.2, fun x hx hid => ?_, hmember, hchanges rfl rfl hX.1.1 _ hmember
        fun u hu => by rwa [Write.assigns_other hws.2 (t := .users) (by simp) (by simp)]⟩
      exact absurd hid (Db.present_row.mp hX.2.2 x hx)
    · intro W _ h
      refine ⟨h.1, h.2.1, ?_⟩
      obtain ⟨ws₁, τ, rfl, hws⟩ := h.2.2
      show _ ∧ _
      rw [hws]
      refine ⟨⟨_, List.mem_append_right _ (List.mem_singleton.mpr rfl), rfl, rfl, rfl⟩, ?_⟩
      intro w hw
      obtain rfl := List.mem_singleton.mp hw
      exact ⟨rfl, rfl, rfl⟩
  · -- a member who had left
    have hown : WorldOutline.Own ((IsUser P S plan db₀ watched i u).and
        (IsMember P S plan db₀ watched i loaded)) :=
      WorldOutline.Own.and (own_isUser u) own_isMember
    refine Triple.pre (A := (Before ((IsUser P S plan db₀ watched i u).and
      (IsMember P S plan db₀ watched i loaded)) fun ws => ∀ w ∈ ws, w.Assigns loaded).and
      (.pure (loaded.tenantId = context.tenant.id ∧ loaded.userId = u.id)))
      (Triple.assume fun hm => ?_) fun W _ h =>
        ⟨⟨h.1, ⟨h.2.1.1, h.2.1.2.1⟩, fun w hw => ?_⟩, h.2.1.2.2⟩
    · show Triple _ _ (if _ then _ else _) _ _
      split
      · refine Triple.bind (M := fun _ => Before ((IsUser P S plan db₀ watched i u).and
          (IsMember P S plan db₀ watched i loaded)) fun ws => ∀ w ∈ ws, w.Assigns loaded) ?_
          fun _ => ?_
        · unfold Service.update
          split
          · exact Triple.ret fun _ _ h => h
          · exact addRole hown (extends_assigns loaded) trivial
        · exact invite_rest (m := { loaded with status := .invited, joinedAt := none }) hown
            (extends_assigns loaded) _ hm.1 fun W hi hX hws =>
              ready_of_member hws hX.2 hi.2.1 (hchanges hm.1 hm.2 hX.1)
      · exact raises
    · have hnil : (W.store.sessions i).writes = [] := h.2.2
      rw [hnil] at hw
      cases hw

end Changing

/-! ## Adequacy -/

variable (P S plan db₀ watched) in
/-- What a call that returned leaves behind. -/
def Answer (i : Nat) : (c : RoleCall) → c.Ret → Knows P S plan db₀ watched i
  | .hasPermission m p, b => ((outline P S plan db₀ watched).NoCommit i).and
      (Told P S plan db₀ watched i m fun db =>
        b = true ↔ p.value ∈ db.permissionCodes m.tenantId m.id)
  | .assignRoles tenantId membershipId _, _ => .ex fun m => (Left P S plan db₀ watched i m).and
      (.pure (m.tenantId = tenantId ∧ m.id = membershipId))
  | .invite context _, row => .ex fun m => (Left P S plan db₀ watched i m).and
      (.pure (m.tenantId = context.tenant.id ∧ m.id = row.id))

variable (P S plan db₀ watched) in
/-- What a call that has ended leaves behind. -/
def Outcome (i : Nat) (c : RoleCall) (r : Except Exn c.Ret) (W : World) : Prop :=
  post (Answer P S plan db₀ watched i c) (Raised P S plan db₀ watched i) r W

theorem call (i : Nat) (c : RoleCall) (hc : c = plan i) : Triple (callStep storesCommitted i)
    (Before .true (· = [])) (c.prog P S) (Answer P S plan db₀ watched i c)
    (Raised P S plan db₀ watched i) := by
  rcases c with ⟨m, p⟩ | ⟨tenantId, membershipId, roleIds⟩ | ⟨context, email⟩
  · exact hasPermission m p
  · exact assignRoles hc.symm
  · exact invite hc.symm

theorem elsewhere (h : RolesElsewhere W W')
    (hi : (outline P S plan db₀ watched).outline.inv W) :
    (outline P S plan db₀ watched).outline.inv W' ∧
      ∀ j, (outline P S plan db₀ watched).outline.frame j W W' := by
  have hev : Evolves db₀ W W' := by
    refine ⟨h.wal ▸ List.prefix_rfl, fun t m e he => .inl (h.cache t m e he), fun u hu => ?_,
      fun m ⟨x, hx, hs⟩ => ⟨x, ?_, hs⟩⟩
    · rwa [h.rows _ (by simp)]
    · rwa [h.rows _ (by simp)]
  have hrec : RoleHistory P plan db₀ W' := by
    refine ⟨fun t ht => ?_, fun c hc => ?_, ?_⟩
    · rw [h.rows t (by simp only [List.mem_cons, List.not_mem_nil, or_false] at ht ⊢; tauto), h.wal]
      exact hi.2.1.rows t ht
    · rw [h.wal] at hc
      obtain ⟨m, ha, hch⟩ := hi.2.1.commits c hc
      exact ⟨m, ha, changes_evolves hev hch⟩
    · unfold Db.OneTenant
      rw [h.rows _ (by simp)]
      exact hi.2.1.oneTenant
  refine ⟨⟨fun j w hw k hk => ?_, hrec, fun x hx => (hi.2.2 x hx).evolves hev⟩, fun j =>
    ⟨⟨by rw [h.sessions], fun k => by rw [h.owner], fun k hk hp => ?_, [], by simp [h.wal],
      fun _ hc => by cases hc⟩, hev⟩⟩
  · rw [h.sessions] at hw
    rw [h.owner]
    exact hi.1 j w hw k hk
  · exact h.absent k (by rw [hk]; nofun) hp

variable (P S plan db₀ watched) in
/-- The calls meet the outline. -/
theorem ok : (outline P S plan db₀ watched).outline.Ok
    ((roleCalls P S).system (fun i c => c = plan i) storesCommitted RolesElsewhere)
    (Outcome P S plan db₀ watched) (Outcome P S plan db₀ watched) := by
  refine WorldOutline.sound (C := roleCalls P S) (fun _ _ _ _ => rfl) (Answer P S plan db₀ watched)
    (fun i _ => Raised P S plan db₀ watched i) (fun i c hc => call i c hc)
      (fun i c r W again h => ?_)
    (fun i c r W W' h hm => ?_) fun W W' hi henv => elsewhere henv hi
  · -- ending a session commits nothing
    have hleft {m : Membership} (h : Left P S plan db₀ watched i m W) :
        Left P S plan db₀ watched i m (W.settle i again) :=
      left_local (WorldOutline.dropped_settle W i again).toLocal rfl h
    rcases r with e | res
    · exact h.imp id fun ⟨m, h⟩ => ⟨m, hleft h⟩
    · rcases c with ⟨m, p⟩ | ⟨tenantId, membershipId, roleIds⟩ | ⟨context, email⟩
      · exact h
      · obtain ⟨m, hl, hm⟩ := h
        exact ⟨m, hleft hl, hm⟩
      · obtain ⟨m, hl, hm⟩ := h
        exact ⟨m, hleft hl, hm⟩
  · rcases r with e | res
    · exact (Raised P S plan db₀ watched i e).stable W W' h hm
    · exact (Answer P S plan db₀ watched i c res).stable W W' h hm

theorem outline_watched (x : Watch) : (outline P S plan db₀ [x]).outline =
    (outline P S plan db₀ []).outline.restrict (Fresh S db₀ x) := by
  unfold WorldOutline.outline Outline.restrict
  congr 1
  funext W
  simp [outline, and_assoc]

variable (db₀) in
/-- Where the roles of a membership do not change, a snapshot stays one. -/
theorem rolesOf_eq (id : UUID) {wal : List (Nat × List Write)} {n k : Nat} (hn : n ≤ k)
    (h : ∀ j, n ≤ j → j < k → (db₀.after (wal.take (j + 1))).rolesOf id =
      (db₀.after (wal.take j)).rolesOf id) :
    (db₀.after (wal.take k)).rolesOf id = (db₀.after (wal.take n)).rolesOf id := by
  induction k, hn using Nat.le_induction with
  | base => rfl
  | succ k hk ih => rw [h k hk (Nat.lt_succ_self k), ih fun j hj hjk => h j hj (by omega)]

/-- No commit changes what a role permits. -/
theorem after_grants (h : RoleHistory P plan db₀ W) (n : Nat) :
    Db.SameGrants (db₀.after (W.store.wal.take n)) (db₀.after W.store.wal) := by
  have hsplit := List.take_append_drop n W.store.wal
  have hrest : ∀ c ∈ W.store.wal.drop n, ∃ m : Membership, ∀ w ∈ c.2, w.Assigns m := fun c hc => by
    obtain ⟨m, ha, -⟩ := h.commits c (List.mem_of_mem_drop hc)
    exact ⟨m, ha⟩
  generalize W.store.wal.take n = done at hsplit
  generalize W.store.wal.drop n = rest at hsplit hrest
  rw [← hsplit]
  clear hsplit
  induction rest using List.reverseRecOn with
  | nil =>
    rw [List.append_nil]
    exact ⟨rfl, rfl, rfl⟩
  | append_singleton rest c ih =>
    obtain ⟨hr, hp, hc⟩ := ih fun c hc => hrest c (List.mem_append_left _ hc)
    obtain ⟨m, ha⟩ := hrest c (by simp)
    obtain ⟨hr', hp', hc'⟩ := Write.assigns_grants ha (db₀.after (done ++ rest))
    rw [← List.append_assoc, Db.after_append]
    exact ⟨hr'.trans hr, hp'.trans hp, hc'.trans hc⟩

/-- The entry of a membership nobody is changing the roles of, once a change of them has
returned. -/
theorem fresh_now {W₀ : World} (hq : W₀.Quiet)
    {pool : ((roleCalls P S).system (fun i c => c = plan i) storesCommitted RolesElsewhere).Pool}
    (h : System.Reachable W₀ pool)
    (hok : (outline P S plan W₀.store.db []).outline.PoolOk (Outcome P S plan W₀.store.db [])
      (Outcome P S plan W₀.store.db []) pool) {t id : UUID} {i : Nat}
    {m : Membership} (hleft : Left P S plan W₀.store.db [] i m pool.shared)
    (hm : m.tenantId = t ∧ m.id = id)
    (hfree : ∀ j c, (pool.threads j).unfinished? = some c →
      ¬ c.Changes P pool.shared.store.db t id) :
    Fresh S W₀.store.db ⟨t, id, pool.shared.store.wal.length⟩ pool.shared := by
  obtain ⟨rfl, rfl⟩ := hm
  have hrec := hok.inv.2.1
  have henv (W W' : World) (h : RolesElsewhere W W') : W'.store.wal = W.store.wal := h.wal
  -- whoever changed the roles has deleted the entry since
  have hcleared : ∀ k < pool.shared.store.wal.length,
      (W₀.store.db.after (pool.shared.store.wal.take (k + 1))).rolesOf m.id ≠
        (W₀.store.db.after (pool.shared.store.wal.take k)).rolesOf m.id →
      ∃ n, k < n ∧ Fresh S W₀.store.db ⟨m.tenantId, m.id, n⟩ pool.shared := by
    intro k hk hne
    obtain ⟨⟨j, ws⟩, hget⟩ : ∃ c, pool.shared.store.wal[k]? = some c :=
      ⟨_, List.getElem?_eq_getElem hk⟩
    have hmem := List.mem_of_getElem? hget
    have htake : W₀.store.db.after (pool.shared.store.wal.take (k + 1)) =
        ws.foldl (fun db w => w.apply db) (W₀.store.db.after (pool.shared.store.wal.take k)) := by
      rw [List.take_add_one, hget, Option.toList_some, Db.after_append]
    have hid {m' : Membership} (ha : ∀ w ∈ ws, w.Assigns m') : m'.id = m.id := by
      by_contra hid
      exact hne (by rw [htake, Write.assigns_rolesOf ha (Ne.symm hid)])
    have htenant {m' : Membership} (hid : m'.id = m.id)
        (hm' : ∃ x ∈ pool.shared.store.db .memberships, x.id = m'.id ∧ x.tenantId = m'.tenantId) :
        m'.tenantId = m.tenantId := by
      obtain ⟨x, hx, hxid, hxt⟩ := hm'
      obtain ⟨y, hy, hys⟩ := hleft.1.1
      rw [← hxt, ← hys.2.1]
      exact hrec.oneTenant x hx y hy (by rw [hxid, hid, hys.1])
    obtain ⟨m₁, ha₁, hch⟩ := hrec.commits _ hmem
    have hch : (plan j).Changes P pool.shared.store.db m.tenantId m.id := by
      obtain ⟨x, hx, hxid, hxt, -⟩ := id hch
      rwa [hid ha₁, htenant (hid ha₁) ⟨x, hx, hxid, hxt⟩] at hch
    have hplan {c : RoleCall} (hc : (pool.threads j).call? = some c) : c = plan j :=
      Calls.may_of_reachable (C := roleCalls P S) h hc
    rcases hj : pool.threads j with _ | ⟨c, p⟩ | ⟨c, r⟩ | c
    · exact absurd rfl (Calls.idle_noCommit hq henv h hj _ hmem)
    · obtain rfl := hplan (c := c) (by rw [hj]; rfl)
      exact absurd hch (hfree j _ (by rw [hj]; rfl))
    · have hout := hok.finished hj
      have hcases : ((outline P S plan W₀.store.db []).NoCommit j) pool.shared ∨
          ∃ m', Left P S plan W₀.store.db [] j m' pool.shared := by
        rcases r with e | res
        · exact hout
        · rcases c with ⟨m', p⟩ | ⟨t, id, roleIds⟩ | ⟨context, email⟩
          · exact .inl hout.1
          · obtain ⟨m', hl, -⟩ := hout
            exact .inr ⟨m', hl⟩
          · obtain ⟨m', hl, -⟩ := hout
            exact .inr ⟨m', hl⟩
      rcases hcases with hno | ⟨m', ⟨⟨x, hx, hxs⟩, how⟩, n, hf, hlt⟩
      · exact absurd rfl (hno _ hmem)
      · have hid' := hid (how _ hmem rfl)
        have ht' := htenant hid' ⟨x, hx, hxs.1, hxs.2.1⟩
        rw [hid', ht'] at hf
        exact ⟨n, hlt k ws hget, hf⟩
    · obtain rfl := hplan (c := c) (by rw [hj]; rfl)
      exact absurd hch (hfree j _ (by rw [hj]; rfl))
  refine ⟨le_rfl, fun hS e he => ?_⟩
  obtain ⟨-, n₀, hf₀, -⟩ := hleft
  obtain ⟨n, -, hn, ha⟩ := hf₀.entry hS e he
  -- a snapshot older than a change is one younger than the delete that followed it
  have hlast : ∀ d n, pool.shared.store.wal.length - n = d → n ≤ pool.shared.store.wal.length →
      (W₀.store.db.after (pool.shared.store.wal.take n)).Accurate m.tenantId m.id e.value →
      (W₀.store.db.after pool.shared.store.wal).Accurate m.tenantId m.id e.value := by
    intro d
    induction d using Nat.strong_induction_on with
    | _ d ih =>
      intro n hd hn ha
      by_cases hchange : ∃ k, n ≤ k ∧ k < pool.shared.store.wal.length ∧
          (W₀.store.db.after (pool.shared.store.wal.take (k + 1))).rolesOf m.id ≠
            (W₀.store.db.after (pool.shared.store.wal.take k)).rolesOf m.id
      · obtain ⟨k, hnk, hk, hne⟩ := hchange
        obtain ⟨n', hkn', hf⟩ := hcleared k hk hne
        obtain ⟨n'', hs, hn'', ha''⟩ := hf.entry hS e he
        have hs : n' ≤ n'' := hs
        exact ih _ (by omega) n'' rfl hn'' ha''
      · have hroles := rolesOf_eq W₀.store.db m.id hn fun k hnk hk => by
          by_contra hne
          exact hchange ⟨k, hnk, hk, hne⟩
        rw [List.take_length] at hroles
        exact Db.accurate_congr hroles (after_grants hrec n) ha
  exact ⟨_, le_rfl, le_rfl, by rw [List.take_length]; exact hlast _ n rfl hn ha⟩

end PermissionCache

/-- A role change of membership `id` of tenant `t` has returned, and none is in progress. -/
structure RolesSettled (P : Platform) {S : RBACService} {may : Nat → RoleCall → Prop}
    {admits : Admission} {env : World → World → Prop}
    (pool : ((roleCalls P S).system may admits env).Pool) (t id : UUID) : Prop where
  returned : ∃ i c r, pool.threads i = .finished c (.ok r) ∧ RoleCall.changed c r = some (t, id)
  free : ∀ j c, (pool.threads j).unfinished? = some c →
    ¬ RoleCall.Changes P pool.shared.store.db t id c

/-! ## Runs -/

namespace PermissionCache

variable {P : Platform} {S : RBACService} {may : Nat → RoleCall → Prop} {admits : Admission}
variable {env : World → World → Prop}

/-- The membership of an agent. -/
def agent : Membership where
  id := 2
  tenantId := 1
  userId := 2
  status := .active
  joinedAt := some 0
  createdAt := 0
  updatedAt := 0

/-- The provisioned database with an agent besides the owner. -/
def staffed : Db
  | .memberships => [CurrentTenant.owner.membership, agent]
  | .membershipRoles => [⟨1, 1, 1⟩, ⟨2, 2, 2⟩]
  | t => Db.provisioned t

/-- The owner makes the agent a requester; everybody else asks whether the agent may read
members. -/
def demotion : Nat → RoleCall
  | 1 => .assignRoles 1 2 [3]
  | _ => .hasPermission agent .membersRead

/-- What a thread that returned has changed the roles of. -/
def changedBy : ((roleCalls P S).system may admits env).Thread → Option (UUID × UUID)
  | .finished c (.ok r) => RoleCall.changed c r
  | _ => none

/-- What a thread that returned has answered. -/
def answerOf : ((roleCalls P S).system may admits env).Thread →
    Option (Membership × PermissionCode × Bool)
  | .finished (.hasPermission m p) (.ok b) => some (m, p, b)
  | _ => none

variable {pool : ((roleCalls P S).system (fun i c => c = demotion i) admits env).Pool}

theorem settled_of_changedBy {W₀ : World} (h : System.Reachable W₀ pool)
    (hc : changedBy (pool.threads 1) = some (1, 2)) : RolesSettled P pool 1 2 := by
  rcases h₁ : pool.threads 1 with _ | _ | ⟨c, e | r⟩ | _
  case finished.ok =>
    rw [h₁] at hc
    refine ⟨⟨1, c, r, h₁, hc⟩, fun j c hj hch => ?_⟩
    have hcall : (pool.threads j).call? = some c := by
      rcases hj' : pool.threads j with _ | _ | _ | _ <;> rw [hj'] at hj <;>
        first | exact hj | cases hj
    have hplan : c = demotion j := Calls.may_of_reachable (C := roleCalls P S) h hcall
    rcases eq_or_ne j 1 with rfl | hj1
    · rw [h₁] at hj
      cases hj
    · obtain ⟨_, -, -, -, hch⟩ := hch
      have hask : demotion j = .hasPermission agent .membersRead := by
        unfold demotion
        split
        · exact absurd rfl hj1
        · rfl
      rw [hplan, hask] at hch
      exact hch
  all_goals
    rw [h₁] at hc
    cases hc

theorem finished_of_answerOf {t : ((roleCalls P S).system may admits env).Thread} {m : Membership}
    {p : PermissionCode} {b : Bool} (h : answerOf t = some (m, p, b)) :
    t = .finished (.hasPermission m p) (.ok b) := by
  unfold answerOf at h
  split at h
  · cases h
    rfl
  · cases h

theorem idle_of_call {t : ((roleCalls P S).system may admits env).Thread}
    (h : t.call?.isNone = true) : t = .idle := by
  rcases t with _ | _ | _ | _ <;> first | rfl | cases h

/-- Runs without a fault in which nobody stores an outdated snapshot of the agent's roles. -/
def committedPlayer : ((roleCalls .plain {}).system (fun i c => c = demotion i) storesCommitted
    RolesElsewhere).Player Choice Empty :=
  (roleCalls .plain {}).playerOf RolesElsewhere (fun i (c : RoleCall) => decide (c = demotion i))
    (fun i (c : RoleCall) h => (decide_eq_true_iff (p := c = demotion i)).mp h)
    (fun _ W o c => c.fault.isNone && match o with
      | .cacheSet key value _ => key = permissionSnapshotKey 1 2 ∧
        ((W.store.db.permissionCodes 1 2).mapM PermissionCode.ofValue).map
          (fun codes => dumpSnapshot (PermissionCode.frozenset codes)) = some value
      | _ => true) fun i W o c h => by
    obtain ⟨hfault, ho⟩ := Bool.and_eq_true_iff.mp h
    have hf : c.fault = none := Option.isNone_iff_eq_none.mp hfault
    refine ⟨by cases o <;> simp [reliable, hf], ?_⟩
    cases o with
    | cacheSet key value ttl =>
      obtain ⟨hkey, hvalue⟩ := of_decide_eq_true ho
      intro t m hkey'
      obtain ⟨rfl, rfl⟩ := permissionSnapshotKey_inj (hkey'.symm.trans hkey)
      obtain ⟨codes, hcodes, ht⟩ := Option.map_eq_some_iff.mp hvalue
      exact ⟨codes, hcodes, ht.symm⟩
    | _ => trivial

end PermissionCache

/-- **Where no outdated snapshot is stored, permission changes take effect at once**: a
`has_permission` call that starts after a role change has returned answers from the roles committed
at some moment of the call. -/
theorem permission_changes_take_effect (P : Platform) (S : RBACService) (plan : Nat → RoleCall)
    {W₀ : World} (hq : W₀.Quiet) (hids : ((W₀.store.db .memberships).map (·.id)).Nodup)
    {pool : ((roleCalls P S).system (fun i c => c = plan i) storesCommitted RolesElsewhere).Pool}
    (h : System.Reachable W₀ pool) (m : Membership) (hm : RolesSettled P pool m.tenantId m.id)
    {j : Nat} (hj : pool.threads j = .idle)
    {pool' : ((roleCalls P S).system (fun i c => c = plan i) storesCommitted RolesElsewhere).Pool}
    (h' : System.Steps pool pool') {p : PermissionCode} {b : Bool}
    (hb : pool'.threads j = .finished (.hasPermission m p) (.ok b)) :
    ∃ mid, System.Steps pool mid ∧ System.Steps mid pool' ∧
      (b = true ↔ p.value ∈ mid.shared.store.db.permissionCodes m.tenantId m.id) := by
  have hinv : (PermissionCache.outline P S plan W₀.store.db []).outline.inv W₀ := by
    refine ⟨fun i w hw => ?_, ⟨fun t _ => ?_, fun c hc => ?_, fun x hx y hy hid => ?_⟩, nofun⟩
    · rw [hq.sessions] at hw
      cases hw
    · rw [hq.wal]
      rfl
    · rw [hq.wal] at hc
      cases hc
    · rw [List.inj_on_of_nodup_map hids hx hy hid]
  have hok := (PermissionCache.ok P S plan W₀.store.db []).sound hinv h
  obtain ⟨i, c, r, hi, hc⟩ := hm.returned
  obtain ⟨m', hleft, hm'⟩ : ∃ m', PermissionCache.Left P S plan W₀.store.db [] i m' pool.shared ∧
      (m'.tenantId = m.tenantId ∧ m'.id = m.id) := by
    have hout := hok.finished hi
    rcases c with ⟨m', p⟩ | ⟨t, id, roleIds⟩ | ⟨context, email⟩
    · cases hc
    · obtain ⟨rfl, rfl⟩ := Prod.mk.inj (Option.some.inj hc)
      exact hout
    · obtain ⟨ht, hid⟩ := Prod.mk.inj (Option.some.inj hc)
      obtain ⟨m', hl, htenant, hrow⟩ := hout
      exact ⟨m', hl, htenant.trans ht, hrow.trans hid⟩
  -- from here on the entry is fresh, also for a call that starts now
  have hfresh := PermissionCache.fresh_now hq h hok hleft hm' hm.free
  have hwatched := PermissionCache.ok P S plan W₀.store.db
    [⟨m.tenantId, m.id, pool.shared.store.wal.length⟩]
  rw [PermissionCache.outline_watched] at hwatched
  obtain ⟨-, -, htold⟩ := Outline.Ok.later (fun _ _ _ hf hk => hk.evolves hf.2)
    (PermissionCache.ok P S plan W₀.store.db []) hwatched hok hfresh h' hj hb
  obtain ⟨n, hn, hn', hroles⟩ := htold _ (List.mem_singleton.mpr rfl) rfl rfl
  obtain ⟨mid, hpm, hmp, hwal⟩ := Calls.exists_between (fun _ _ he => he.wal) h' hn hn'
  refine ⟨mid, hpm, hmp, ?_⟩
  have hrow (t : Table) (ht : t ∈ [Table.users, .memberships, .membershipRoles, .roles,
      .rolePermissions, .permissions]) :
      mid.shared.store.db t = W₀.store.db.after mid.shared.store.wal t :=
    Calls.committed hq (fun _ _ he => ⟨he.wal, he.rows t ht⟩) (h.trans hpm)
  rw [hroles, ← hwal, ← Db.permissionCodes_congr (by unfold Db.rolesOf; rw [hrow _ (by simp)])
    ⟨hrow _ (by simp), hrow _ (by simp), hrow _ (by simp)⟩ m.tenantId]

/-- Without the outdated reader the agent is refused. -/
theorem permission_changes_take_effect_demoted :
    ∃ pool pool' : ((roleCalls .plain {}).system (fun i c => c = PermissionCache.demotion i)
        storesCommitted RolesElsewhere).Pool,
      System.Reachable (World.fresh PermissionCache.staffed) pool ∧ RolesSettled .plain pool 1 2 ∧
      pool.threads 2 = .idle ∧ System.Steps pool pool' ∧
      pool'.threads 2 = .finished (.hasPermission PermissionCache.agent .membersRead) (.ok false) ∧
      ∃ mid, System.Steps pool mid ∧ System.Steps mid pool' ∧
        (false = true ↔ PermissionCode.membersRead.value ∈
          mid.shared.store.db.permissionCodes 1 2) := by
  let moves : List (System.Move RoleCall Choice Empty) := [
    .start 1 (.assignRoles 1 2 [3]), .ops 1 (List.replicate 9 { uuid := 3 }), .finish 1]
  let moves' : List (System.Move RoleCall Choice Empty) := [
    .start 2 (.hasPermission PermissionCache.agent .membersRead), .ops 2 [{}, {}, {}, {}],
    .finish 2]
  obtain ⟨pool, pool', hreach, hsteps, hobs, hobs'⟩ := PermissionCache.committedPlayer.replay_map₂
    moves moves' (.init (World.fresh PermissionCache.staffed))
    (fun pool => (PermissionCache.changedBy (pool.threads 1), (pool.threads 2).call?.isNone))
    (fun pool => PermissionCache.answerOf (pool.threads 2))
    (b := (some (1, 2), true))
    (d := some (PermissionCache.agent, .membersRead, false)) (by decide +kernel)
  obtain ⟨hchanged, hidle⟩ := Prod.mk.inj hobs
  have hsettled := PermissionCache.settled_of_changedBy hreach hchanged
  have hidle := PermissionCache.idle_of_call hidle
  have hanswer := PermissionCache.finished_of_answerOf hobs'
  exact ⟨pool, pool', hreach, hsettled, hidle, hsteps, hanswer,
    permission_changes_take_effect .plain {} PermissionCache.demotion (World.quiet_fresh _)
      (by decide) hreach PermissionCache.agent hsettled hidle hsteps hanswer⟩

/-- The reader that selected the agent's roles before they changed stores them after the delete. -/
theorem permission_cache_serves_removed_permission :
    ∃ pool pool' : ((roleCalls .plain {}).system (fun i c => c = PermissionCache.demotion i)
        reliable RolesElsewhere).Pool,
      System.Reachable (World.fresh PermissionCache.staffed) pool ∧ RolesSettled .plain pool 1 2 ∧
      pool.threads 2 = .idle ∧ System.Steps pool pool' ∧
      pool'.threads 2 = .finished (.hasPermission PermissionCache.agent .membersRead) (.ok true) ∧
      ∀ mid, System.Steps pool mid → System.Steps mid pool' →
        PermissionCode.membersRead.value ∉ mid.shared.store.db.permissionCodes 1 2 := by
  let ask := RoleCall.hasPermission PermissionCache.agent .membersRead
  let moves : List (System.Move RoleCall Choice Empty) := [
    .start 0 ask, .ops 0 [{}, {}],
    .start 1 (.assignRoles 1 2 [3]), .ops 1 (List.replicate 9 { uuid := 3 }), .finish 1,
    .ops 0 [{}, {}], .finish 0]
  let moves' : List (System.Move RoleCall Choice Empty) := [.start 2 ask, .ops 2 [{}], .finish 2]
  let player : ((roleCalls .plain {}).system (fun i c => c = PermissionCache.demotion i) reliable
      RolesElsewhere).Player Choice Empty :=
    (roleCalls .plain {}).playerOf RolesElsewhere
    (fun i (c : RoleCall) => decide (c = PermissionCache.demotion i))
    (fun i (c : RoleCall) h => (decide_eq_true_iff (p := c = PermissionCache.demotion i)).mp h)
    (fun _ _ _ c => c.fault.isNone) fun i W o c h => by
      have hf : c.fault = none := Option.isNone_iff_eq_none.mp h
      cases o <;> simp [reliable, hf]
  obtain ⟨pool, pool', hreach, hsteps, hobs, hobs'⟩ := player.replay_map₂ moves moves'
    (.init (World.fresh PermissionCache.staffed))
    (fun pool => (PermissionCache.changedBy (pool.threads 1), (pool.threads 2).call?.isNone,
      pool.shared.store.wal.length))
    (fun pool => (decide (PermissionCache.answerOf (pool.threads 2) =
        some (PermissionCache.agent, .membersRead, true)), pool.shared.store.wal.length,
      pool.shared.store.db.permissionCodes 1 2))
    (b := (some (1, 2), true, 1))
    (d := (true, 1, [])) (by decide +kernel)
  simp only [Prod.mk.injEq] at hobs hobs'
  obtain ⟨hchanged, hidle, hlen⟩ := hobs
  obtain ⟨hanswer, hlen', hcodes⟩ := hobs'
  refine ⟨pool, pool', hreach, PermissionCache.settled_of_changedBy hreach hchanged,
    PermissionCache.idle_of_call hidle, hsteps,
    PermissionCache.finished_of_answerOf (of_decide_eq_true hanswer), fun mid hpm hmp => ?_⟩
  · -- nothing is committed meanwhile
    have hwal : mid.shared.store.wal = pool'.shared.store.wal := by
      have henv (W W' : World) (h : RolesElsewhere W W') : W'.store.wal = W.store.wal := h.wal
      have h₁ := (Calls.wal_prefix henv hpm).length_le
      exact (Calls.wal_prefix henv hmp).eq_of_length_le (by rw [hlen', ← hlen]; exact h₁)
    have hrow (t : Table) (ht : t ∈ [Table.users, .memberships, .membershipRoles, .roles,
        .rolePermissions, .permissions]) : mid.shared.store.db t = pool'.shared.store.db t := by
      have hq := World.quiet_fresh PermissionCache.staffed
      have henv (W W' : World) (h : RolesElsewhere W W') := And.intro h.wal (h.rows t ht)
      rw [Calls.committed hq henv (hreach.trans hpm),
        Calls.committed hq henv (hreach.trans hsteps), hwal]
    have hroles : mid.shared.store.db.rolesOf 2 = pool'.shared.store.db.rolesOf 2 := by
      unfold Db.rolesOf
      rw [hrow _ (by simp)]
    rw [Db.permissionCodes_congr hroles
      ⟨hrow _ (by simp), hrow _ (by simp), hrow _ (by simp)⟩ 1, hcodes]
    exact List.not_mem_nil

end Ticketing
