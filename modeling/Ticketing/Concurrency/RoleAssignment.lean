import Ticketing.Concurrency.Administrators

/-!
# Replacing a membership's roles

`assign_roles` and an invitation delete the membership's role rows and insert those of the
request. Neither locks the membership against the other, so a `DELETE` that starts before another
call has committed does not find the rows that call inserts: both sets of roles stay. The pool is
that of `Administration.lean`; `plan` says which call each thread runs.

* `replacesAll`: the rows a `DELETE` has found are all the rows there are when its call commits.
  It is a condition on the state before the commit.
* `RolesOfLast`: the membership has exactly the roles of the last call to commit (`lastAssigner`,
  `AdminCall.Assigned`), or those it began with.

Results:
* `assigned_of_commits`: what a commit that meets the condition leaves of the roles.
* `roles_are_those_of_last_commit`: in runs of such commits, whatever their order, every
  membership has the roles of the last one.
* `assigned_roles_are_merged`: a run of two assignments after which it has both.
-/

namespace Ticketing

open Lib (System)

/-- The roles a membership has. -/
def Db.roleIds (db : Db) (membershipId : UUID) : Set UUID :=
  {id | ∃ x ∈ db .membershipRoles, x.membershipId = membershipId ∧ x.roleId = id}

/-- The write is about the roles of the membership. -/
def Write.setsRoles (membershipId : UUID) : Write → Bool
  | .insert .membershipRoles row => row.membershipId = membershipId
  | .delete .membershipRoles p _ => p ⟨0, membershipId, 0⟩
  | _ => false

/-- The thread that was the last to commit something about the roles of the membership. -/
def lastAssigner (membershipId : UUID) (wal : List (Nat × List Write)) : Option Nat :=
  (wal.reverse.find? fun c => c.2.any (·.setsRoles membershipId)).map (·.1)

/-- The membership's roles are those the call asks for. -/
def AdminCall.Assigned (db : Db) (membershipId : UUID) : AdminCall → Prop
  | .create .. => ∃ r ∈ db .roles, r.name = "tenant_admin" ∧ db.roleIds membershipId = {r.id}
  | .invite context _ => ∃ r ∈ db .roles, r.tenantId = context.tenant.id ∧ r.name = "requester" ∧
    db.roleIds membershipId = {r.id}
  | .assignRoles _ id roleIds => id = membershipId ∧ db.roleIds membershipId = {r | r ∈ roleIds}
  | .acceptInvitation .. => False
  | .leave .. => False

/-- A membership has its initial roles or exactly those of the last call to commit any. -/
def RolesOfLast (plan : Nat → AdminCall) (db₀ db : Db) (wal : List (Nat × List Write))
    (membershipId : UUID) : Prop :=
  match lastAssigner membershipId wal with
  | none => db.roleIds membershipId = db₀.roleIds membershipId
  | some i => (plan i).Assigned db membershipId

/-- The rows a `DELETE` of role assignments found are those there are now. -/
def Write.complete (db : Db) : Write → Bool
  | .delete .membershipRoles p ids => (db .membershipRoles).all fun x => !p x || x.id ∈ ids
  | _ => true

/-- No call commits role assignments unless its `DELETE` found all that are committed by then. -/
def replacesAll : Admission := fun i W o _ =>
  match o with
  | .commit => (W.store.sessions i).writes.all (·.complete W.store.db)
  | _ => True

namespace RoleAssignment

open Administration (Commits replaceRoles Governed)

variable {db : Db} {membershipId : UUID}

theorem lastAssigner_append (wal : List (Nat × List Write)) (c : Nat × List Write) :
    lastAssigner membershipId (wal ++ [c]) =
      if c.2.any (·.setsRoles membershipId) then some c.1 else lastAssigner membershipId wal := by
  unfold lastAssigner
  rw [List.reverse_append, List.reverse_singleton, List.singleton_append, List.find?_cons]
  split <;> rename_i h
  · rw [if_pos h]
    rfl
  · rw [if_neg (by simp [h])]

theorem roleIds_congr {db' : Db} (h : db' .membershipRoles = db .membershipRoles) :
    db'.roleIds membershipId = db.roleIds membershipId := by
  unfold Db.roleIds
  rw [h]

/-- The roles after a complete replacement. -/
theorem roleIds_replaced {id : UUID} {ids : List UUID} {rows : List MembershipRole}
    (hall : ∀ x ∈ db .membershipRoles, x.membershipId = id → x.id ∈ ids)
    (hrows : ∀ x ∈ rows, x.membershipId = id) :
    Db.roleIds ((replaceRoles id ids rows).foldl (fun db w => w.apply db) db) membershipId =
      if membershipId = id then {r | ∃ x ∈ rows, x.roleId = r} else db.roleIds membershipId := by
  ext r
  simp only [Db.roleIds, Db.replaceRoles_rows, List.mem_append, List.mem_filter, Set.mem_ofPred_eq]
  split_ifs with hid
  · subst hid
    constructor
    · rintro ⟨x, ⟨hx, hkept⟩ | hx, hm, rfl⟩
      · simp [hm, hall x hx hm] at hkept
      · exact ⟨x, hx, rfl⟩
    · rintro ⟨x, hx, rfl⟩
      exact ⟨x, .inr hx, hrows x hx, rfl⟩
  · constructor
    · rintro ⟨x, ⟨hx, -⟩ | hx, hm, rfl⟩
      · exact ⟨x, hx, hm, rfl⟩
      · exact absurd (hm.symm.trans (hrows x hx)) hid
    · rintro ⟨x, hx, hm, rfl⟩
      refine ⟨x, .inl ⟨hx, ?_⟩, hm, rfl⟩
      simp [hm, hid]

theorem setsRoles_replaced {id : UUID} {ids : List UUID} {rows : List MembershipRole}
    (hrows : ∀ x ∈ rows, x.membershipId = id) :
    (replaceRoles id ids rows).any (·.setsRoles membershipId) = decide (membershipId = id) := by
  rw [replaceRoles, List.any_cons]
  show (decide (membershipId = id) || _) = _
  rcases eq_or_ne membershipId id with rfl | hid
  · simp
  · rw [decide_eq_false hid, Bool.false_or, List.any_eq_false]
    intro w hw
    obtain ⟨x, hx, rfl⟩ := List.mem_map.mp hw
    simpa [Write.setsRoles, hrows x hx] using Ne.symm hid

/-- Roles as many as the requested ids, each with a requested id, are exactly those requested. -/
theorem requested_ids {roles : List Role} {roleIds : List UUID} (hnodup : (roles.map (·.id)).Nodup)
    (hsub : ∀ r ∈ roles, r.id ∈ roleIds) (hlen : roles.length = roleIds.dedup.length) (id : UUID) :
    (∃ r ∈ roles, r.id = id) ↔ id ∈ roleIds := by
  have hsubperm : List.Subperm (roles.map (·.id)) roleIds.dedup :=
    List.subperm_of_subset hnodup fun x hx => by
      obtain ⟨r, hr, rfl⟩ := List.mem_map.mp hx
      exact List.mem_dedup.mpr (hsub r hr)
  have hperm := hsubperm.perm_of_length_le (by rw [List.length_map, hlen])
  rw [← List.mem_dedup, ← hperm.mem_iff, List.mem_map]

theorem setsRoles_other {w : Write} (h : w.table ≠ .membershipRoles) :
    w.setsRoles membershipId = false := by
  rcases w with ⟨t, _⟩ | _ | ⟨t, _, _⟩ | _
  · cases t <;> first | rfl | exact absurd rfl h
  · rfl
  · cases t <;> first | rfl | exact absurd rfl h
  · rfl

/-- A replacement commits the roles of its rows, and no others. -/
theorem assigned_of_replaced (before : List Write) {id : UUID} {ids : List UUID}
    {rows : List MembershipRole} (hbefore : ∀ w ∈ before, w.table = .memberships)
    (hrows : ∀ x ∈ rows, x.membershipId = id)
    (hall : ∀ w ∈ before ++ replaceRoles id ids rows, w.complete db = true) (membershipId : UUID) :
    (before ++ replaceRoles id ids rows).any (·.setsRoles membershipId) =
        decide (membershipId = id) ∧
      Db.roleIds ((before ++ replaceRoles id ids rows).foldl (fun db w => w.apply db) db)
          membershipId =
        if membershipId = id then {r | ∃ x ∈ rows, x.roleId = r} else db.roleIds membershipId := by
  have hsame : before.foldl (fun db w => w.apply db) db .membershipRoles = db .membershipRoles :=
    Write.foldl_other (fun w hw => by rw [hbefore w hw]; decide) db
  constructor
  · have hnone : before.any (·.setsRoles membershipId) = false :=
      List.any_eq_false.mpr fun w hw => by
        rw [setsRoles_other (by rw [hbefore w hw]; decide)]
        exact Bool.false_ne_true
    rw [List.any_append, hnone, Bool.false_or, setsRoles_replaced hrows]
  · rw [List.foldl_append, roleIds_replaced (fun x hx hm => ?_) hrows, roleIds_congr hsame]
    rw [hsame] at hx
    have hx := List.all_eq_true.mp (hall _ (List.mem_append_right _ List.mem_cons_self)) x hx
    simpa [hm] using hx

/-- A new tenant's owner has the role `tenant_admin`. -/
theorem assigned_of_created {n : Administration.NewTenant} {user : User} {name slug : String}
    (h : db.Administered) (hn : n.Fits user db) (membershipId : UUID) :
    if n.writes.any (·.setsRoles membershipId) then
      (AdminCall.create user name slug).Assigned
        (n.writes.foldl (fun db w => w.apply db) db) membershipId
    else Db.roleIds (n.writes.foldl (fun db w => w.apply db) db) membershipId =
      db.roleIds membershipId := by
  obtain ⟨-, -, hroles, hassigned, -, -⟩ := Db.created_rows n db
  have hany : n.writes.any (·.setsRoles membershipId) =
      decide (n.assigned.membershipId = membershipId) := by
    have hgrants : (n.grants.map (Write.insert .rolePermissions)).any
        (·.setsRoles membershipId) = false :=
      List.any_eq_false.mpr fun w hw => by
        obtain ⟨g, -, rfl⟩ := List.mem_map.mp hw
        exact Bool.false_ne_true
    rw [Administration.NewTenant.writes, List.any_append, hgrants, Bool.or_false]
    simp [Write.setsRoles]
  rw [hany]
  split_ifs with hm
  · have hm := of_decide_eq_true hm
    have hnames := hn.roles
    simp only [Administration.NewTenant.roles, List.map_cons, List.map_nil, List.cons.injEq,
      Prod.mk.injEq] at hnames
    refine ⟨n.admin, ?_, hnames.1.2.1, ?_⟩
    · rw [hroles]
      exact List.mem_append_right _ (.head _)
    · ext id
      simp only [Db.roleIds, hassigned, List.mem_append, List.mem_singleton, Set.mem_ofPred_eq,
        Set.mem_singleton_iff]
      constructor
      · rintro ⟨x, hx | rfl, hxm, rfl⟩
        · obtain ⟨m, hmem, -, -, hid, -⟩ := h.held x hx
          exact absurd (hid.trans (hxm.trans (hm.symm.trans hn.assigned.1)))
            (Db.present_row.mp (hn.newOwner (.row .memberships n.owner.id) List.mem_cons_self) m
            hmem)
        · exact hn.assigned.2
      · rintro rfl
        exact ⟨n.assigned, .inr rfl, hm, hn.assigned.2⟩
  · ext id
    have hm : n.assigned.membershipId ≠ membershipId := by simpa using hm
    simp only [Db.roleIds, hassigned, List.mem_append, List.mem_singleton, Set.mem_ofPred_eq]
    constructor
    · rintro ⟨x, hx | rfl, hxm, rfl⟩
      · exact ⟨x, hx, hxm, rfl⟩
      · exact absurd hxm hm
    · rintro ⟨x, hx, hxm, rfl⟩
      exact ⟨x, .inl hx, hxm, rfl⟩

/-- What a commit makes of a membership's roles. -/
theorem assigned_of_commits {c : AdminCall} {ws : List Write} (h : db.Administered)
    (hc : Commits c db ws) (hall : ∀ w ∈ ws, w.complete db = true) (membershipId : UUID) :
    if ws.any (·.setsRoles membershipId) then
      c.Assigned (ws.foldl (fun db w => w.apply db) db) membershipId
    else Db.roleIds (ws.foldl (fun db w => w.apply db) db) membershipId =
      db.roleIds membershipId := by
  have requester {context : CurrentTenant} {email : String} {id : UUID} {row : MembershipRole}
      {ids : List UUID} {w : Write} (hw : w.table = .memberships)
      (hall : ∀ w' ∈ w :: replaceRoles id ids [row], w'.complete db = true)
      (hrow : Administration.Requests db context.tenant.id id row) :
      if (w :: replaceRoles id ids [row]).any (·.setsRoles membershipId) then
        (AdminCall.invite context email).Assigned
          ((w :: replaceRoles id ids [row]).foldl (fun db w => w.apply db) db) membershipId
      else Db.roleIds ((w :: replaceRoles id ids [row]).foldl (fun db w => w.apply db) db)
        membershipId = db.roleIds membershipId := by
    obtain ⟨hmid, r, hr, hid, ht, hname⟩ := hrow
    obtain ⟨hany, hroles⟩ := assigned_of_replaced [w]
      (List.forall_mem_singleton.mpr hw) (List.forall_mem_singleton.mpr hmid) hall membershipId
    rw [List.singleton_append] at hany hroles
    rw [hany]
    split_ifs with hm
    · have hm := of_decide_eq_true hm
      refine ⟨r, ?_, ht, hname, ?_⟩
      · rwa [List.foldl_cons, Db.replaceRoles_other (by decide),
          Write.apply_other w db (by rw [hw]; decide)]
      · rw [hroles, if_pos hm, hid]
        ext x
        simp [eq_comm]
    · rw [hroles, if_neg (by simpa using hm)]
  have turned (loaded m : Membership) :
      Db.roleIds ((Write.update .memberships loaded m).apply db) membershipId =
        db.roleIds membershipId :=
    roleIds_congr (Write.apply_other _ db (show Table.membershipRoles ≠ .memberships by decide))
  cases hc with
  | create n hn => exact assigned_of_created h hn membershipId
  | invite m ids row hm hnew hrow => exact requester rfl hall hrow
  | reinvite loaded m ids row hl ht hleft hm hrow => exact requester rfl hall hrow
  | acceptInvitation loaded m hl hinvited hm => exact turned loaded m
  | leave loaded m tenant hl hactive hloaded ht hid howner hm => exact turned loaded m
  | assignRoles tenant membership roles ids rows ht hid hm hmid hmt hsub hroles hlen howner hrows =>
    subst hmid
    have hmember : ∀ x ∈ rows, x.membershipId = membership.id := fun x hx => by
      have hx := List.mem_map_of_mem (f := fun x => (x.membershipId, x.roleId)) hx
      rw [hrows] at hx
      obtain ⟨r, -, he⟩ := List.mem_map.mp hx
      exact (congrArg Prod.fst he).symm
    obtain ⟨hany, hset⟩ := assigned_of_replaced []
      (fun _ hw => absurd hw List.not_mem_nil) hmember hall membershipId
    rw [List.nil_append] at hany hset
    rw [hany]
    split_ifs with hm
    · have hm := of_decide_eq_true hm
      refine ⟨hm.symm, ?_⟩
      rw [hset, if_pos hm]
      ext id
      have hnodup : (roles.map (·.id)).Nodup := h.roleIds.sublist (hsub.map _)
      rw [Set.mem_ofPred_eq, Set.mem_ofPred_eq,
        ← requested_ids hnodup (fun r hr => (hroles r hr).2) hlen id]
      have hids : rows.map (·.roleId) = roles.map (·.id) := by
        have := congrArg (List.map Prod.snd) hrows
        rwa [List.map_map, List.map_map] at this
      rw [← List.mem_map, ← List.mem_map, hids]
    · rw [hset, if_neg (by simpa using hm)]

/-- The roles of a call stay until somebody commits others. -/
theorem assigned_kept {c : AdminCall} {db' : Db} (hroles : db .roles <+: db' .roles)
    (h : db'.roleIds membershipId = db.roleIds membershipId) (ha : c.Assigned db membershipId) :
    c.Assigned db' membershipId := by
  cases c with
  | create owner name slug =>
    obtain ⟨r, hr, hname, hset⟩ := ha
    exact ⟨r, hroles.subset hr, hname, h.trans hset⟩
  | invite context email =>
    obtain ⟨r, hr, ht, hname, hset⟩ := ha
    exact ⟨r, hroles.subset hr, ht, hname, h.trans hset⟩
  | assignRoles tenantId id roleIds => exact ⟨ha.1, h.trans ha.2⟩
  | acceptInvitation user tenantId => exact ha
  | leave user tenantId => exact ha

/-- What holds of the committed rows and the history. -/
def Replaced (plan : Nat → AdminCall) (db₀ db : Db) (wal : List (Nat × List Write)) : Prop :=
  db.Administered ∧ ∀ membershipId, RolesOfLast plan db₀ db wal membershipId

theorem about_replaced (plan : Nat → AdminCall) (db₀ : Db) :
    Administration.About (Replaced plan db₀) := fun db db' wal hrows h => by
  refine ⟨h.1.congr hrows, fun membershipId => ?_⟩
  have hsame : db'.roleIds membershipId = db.roleIds membershipId :=
    roleIds_congr (hrows .membershipRoles (by simp))
  have hroles : db .roles <+: db' .roles := (hrows .roles (by simp)).symm ▸ List.prefix_rfl
  have hlast := h.2 membershipId
  unfold RolesOfLast at hlast ⊢
  split at hlast
  · exact hsame.trans hlast
  · exact assigned_kept hroles hsame hlast

theorem commitOk_replaced (plan : Nat → AdminCall) (db₀ : Db) (i : Nat) :
    Administration.CommitOk (Replaced plan db₀) replacesAll i (plan i) :=
  fun W _ ws hws h hc hadm => by
    refine ⟨(h.1.commits hc).1, fun membershipId => ?_⟩
    have hall : ∀ w ∈ ws, w.complete W.store.db = true := fun w hw =>
      List.all_eq_true.mp hadm w (hws ▸ hw)
    have hset := assigned_of_commits h.1 hc hall membershipId
    have hlast := h.2 membershipId
    unfold RolesOfLast at hlast ⊢
    rw [lastAssigner_append]
    split_ifs at hset ⊢ with hany
    · exact hset
    · have hroles : W.store.db .roles <+: ws.foldl (fun db w => w.apply db) W.store.db .roles :=
        (Administration.kept_foldl hc.keeping _).roles
      split at hlast
      · exact hset.trans hlast
      · exact assigned_kept hroles hset hlast

end RoleAssignment

/-- **Where every `DELETE` has found the rows committed by the time its call commits, a membership
has exactly the roles of the last call that committed any.** -/
theorem roles_are_those_of_last_commit (P : Platform) (S : RBACService) (plan : Nat → AdminCall)
    {W₀ : World} (hq : W₀.Quiet) (h₀ : W₀.store.db.Administered)
    {pool : ((adminCalls P S).system (fun i c => c = plan i) replacesAll
      AdministrationElsewhere).Pool}
    (h : System.Reachable W₀ pool) (membershipId : UUID) :
    RolesOfLast plan W₀.store.db pool.shared.store.db pool.shared.store.wal membershipId :=
  (Administration.reached (RoleAssignment.about_replaced plan W₀.store.db)
    (fun i _ hc => hc ▸ RoleAssignment.commitOk_replaced plan _ i) hq ⟨h₀, fun _ => rfl⟩ h).2
    membershipId

namespace RoleAssignment

/-- A tenant is founded, an agent invited, and its roles are assigned twice. -/
def plan : Nat → AdminCall
  | 0 => .create .founder "Acme" "acme"
  | 1 => .invite .founded "agent@example.test"
  | 2 => .assignRoles 2 60 [8]
  | _ => .assignRoles 2 60 [7]

/-- Runs in which every `DELETE` finds the rows committed by the time its call commits. -/
def completePlayer : ((adminCalls .plain ⟨false, 300, 30⟩).system (fun i c => c = plan i)
    replacesAll AdministrationElsewhere).Player Choice Empty :=
  (adminCalls .plain ⟨false, 300, 30⟩).playerOf AdministrationElsewhere
    (fun i (c : AdminCall) => decide (c = plan i))
    (fun i (c : AdminCall) h => (decide_eq_true_iff (p := c = plan i)).mp h)
    (fun i W o _ => match o with
      | .commit => (W.store.sessions i).writes.all (·.complete W.store.db)
      | _ => true) fun i W o c h => by
        cases o with
        | commit => exact h
        | _ => trivial

end RoleAssignment

/-- One assignment after the other. -/
theorem roles_are_those_of_last_commit_in_turn :
    ∃ pool : ((adminCalls .plain ⟨false, 300, 30⟩).system (fun i c => c = RoleAssignment.plan i)
        replacesAll AdministrationElsewhere).Pool,
      System.Reachable (World.fresh Db.unfounded) pool ∧
      (pool.shared.store.db.rolesOf 60).map (·.roleId) = [7] ∧
      ∀ membershipId, RolesOfLast RoleAssignment.plan Db.unfounded pool.shared.store.db
        pool.shared.store.wal membershipId := by
  let moves : List (System.Move AdminCall Choice Empty) := Administration.founding ++ [
    .start 2 (.assignRoles 2 60 [8]), .ops 2 (List.replicate 8 { uuid := 70 }), .finish 2,
    .start 3 (.assignRoles 2 60 [7]), .ops 3 (List.replicate 8 { uuid := 71 }), .finish 3]
  obtain ⟨pool, hreach, hobs⟩ := RoleAssignment.completePlayer.replay_map moves
    (.init (World.fresh Db.unfounded))
    (fun pool => (pool.shared.store.db.rolesOf 60).map (·.roleId)) (b := [7]) (by decide +kernel)
  exact ⟨pool, hreach, hobs, roles_are_those_of_last_commit _ _ _ (World.quiet_fresh _)
    Db.administered_unfounded hreach⟩

/-- A second assignment looks for the rows to delete before the first commits: both sets of roles
stay. -/
theorem assigned_roles_are_merged :
    ∃ pool : ((adminCalls .plain ⟨false, 300, 30⟩).system (fun i c => c = RoleAssignment.plan i)
        (fun _ _ _ _ => True) AdministrationElsewhere).Pool,
      System.Reachable (World.fresh Db.unfounded) pool ∧
      (pool.shared.store.db.rolesOf 60).map (·.roleId) = [8, 7] ∧
      ¬ RolesOfLast RoleAssignment.plan Db.unfounded pool.shared.store.db
        pool.shared.store.wal 60 := by
  let moves : List (System.Move AdminCall Choice Empty) := Administration.founding ++ [
    .start 2 (.assignRoles 2 60 [8]), .ops 2 (List.replicate 7 { uuid := 70 }),
    .start 3 (.assignRoles 2 60 [7]), .ops 3 (List.replicate 4 {}),
    .ops 2 [{}], .finish 2, .ops 3 (List.replicate 4 { uuid := 71 }), .finish 3]
  obtain ⟨pool, hreach, hobs⟩ := ((adminCalls .plain ⟨false, 300, 30⟩).player
    AdministrationElsewhere (fun i (c : AdminCall) => decide (c = RoleAssignment.plan i))
    fun i (c : AdminCall) h => (decide_eq_true_iff (p := c = RoleAssignment.plan i)).mp
    h).replay_map
    moves (.init (World.fresh Db.unfounded)) (fun pool =>
      ((pool.shared.store.db.rolesOf 60).map (·.roleId), lastAssigner 60 pool.shared.store.wal))
    (b := ([8, 7], some 3)) (by decide +kernel)
  obtain ⟨hroles, hlast⟩ := Prod.mk.inj hobs
  refine ⟨pool, hreach, hroles, fun h => ?_⟩
  unfold RolesOfLast at h
  rw [hlast] at h
  have hset : pool.shared.store.db.roleIds 60 = {r | r ∈ [7]} := h.2
  obtain ⟨x, hx, hid⟩ : ∃ x ∈ pool.shared.store.db.rolesOf 60, x.roleId = 8 :=
    List.mem_map.mp (hroles ▸ .head _)
  have h8 : (8 : UUID) ∈ pool.shared.store.db.roleIds 60 :=
    ⟨x, (List.mem_filter.mp hx).1, of_decide_eq_true (List.mem_filter.mp hx).2, hid⟩
  rw [hset] at h8
  exact absurd h8 (by decide)

end Ticketing
