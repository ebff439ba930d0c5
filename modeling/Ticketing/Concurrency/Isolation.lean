import Ticketing.Concurrency.TenantJobs

/-!
# Tenants are isolated

Everything that is done for one tenant, by any number of threads in any order and under any
faults, while other tenants do what they do. Two such runs from worlds that the tenant cannot tell
apart, with the same moves of its own and any activity elsewhere, are told apart by nothing that a
call answers or leaves behind for the tenant.

* `tenantSystem` is the pool of the calls of `TenantCalls.lean`. Its environment is a
  `Tenancy.Moment`: a change that is nobody's or everybody's, the same in both runs, after any
  change that leaves the tenant's rows, cache entries and files as they are. The second half of
  the result says that the calls of each tenant are such changes to the others.
* `SameToTenant`: what two runs have to agree on.

Results:
* `steady_prog`: every call of the tenant is in step with itself.
* `isolation`: the two runs are in lockstep (`Lib/Lockstep.lean`).
* `tenants_are_isolated`: the tenant sees the same of both, and changes nothing of anybody else.

Assumed: an id that is drawn for the tenant is no id of a row of another one (`Tenancy.Draws`),
and the export root is a resolved path.
-/

namespace Ticketing

open Lib (System)

/-- What happens meanwhile: what everybody shares moves on, and the other tenants do something. -/
structure Tenancy.Moment (D : Tenancy) where
  shared : World → World
  others : World → World
  shares : ∀ W W', D.Coupled W W' → D.Coupled (shared W) (shared W')
  keeps : ∀ W, D.Coupled W W → D.Coupled W (others W)

def Tenancy.Moment.after {D : Tenancy} (e : D.Moment) (W : World) : World := e.shared (e.others W)

theorem Tenancy.serves_of {D : Tenancy} {c : TenantCall} (h : decide (D.Serves c) = true) :
    D.Serves c := of_decide_eq_true h

section Calls

variable (P : Platform) (C : Settings) (S : RBACService) (exportRoot : Lib.Path) (D : Tenancy)

/-- The calls of a tenant, in parallel. -/
def tenantSystem : System Op.Res Exn World where
  Call := TenantCall
  Ret := TenantCall.Ret
  prog := TenantCall.prog P C S exportRoot D.tenant
  step i _ := callStep (fun _ _ o c => D.Draws o c) i
  canStart _ c _ := D.Serves c
  onStart i _ W := W.accept i none
  onFinish i _ _ W := W.settle i false
  onCrash i _ W := W.settle i false
  env W W' := ∃ e : D.Moment, W' = e.after W

def tenantPlayer : (tenantSystem P C S exportRoot D).Player Choice D.Moment where
  may _ (c : TenantCall) _ := decide (D.Serves c)
  exec i _ c o W := if D.Draws o c then opStep i c o W else none
  moveEnv e W := some (e.after W)
  may_start h := Tenancy.serves_of h
  exec_step h := by
    split at h
    · rename_i hdraws
      exact ⟨_, hdraws, h⟩
    · cases h
  env_step {e} _ _ h := ⟨e, (Option.some.inj h).symm⟩

end Calls

namespace Tenancy

variable {D : Tenancy} {P : Platform} {C : Settings} {S : RBACService} {exportRoot : Lib.Path}

/-! ## Lockstep -/

theorem steady_request (hroot : resolve exportRoot = exportRoot)
    (htenant : D.own .tenants D.tenant = true) {context : CurrentTenant}
    {correlationId : Option String} {r : TenantRequest}
    (h : D.Serves (.request context correlationId r)) :
    D.Steady (fun _ => True) (r.prog P C S exportRoot context correlationId) := by
  obtain ⟨ht, hmember⟩ := h
  have hm : D.Member context.membership := ⟨hmember.1, hmember.2⟩
  cases r with
  | createCustomer name email phone => exact steady_createCustomer P ht name email phone
  | getCustomer customerId => exact (steady_getCustomer ht customerId).mono fun _ _ => trivial
  | listCustomers offset limit => exact steady_listCustomers ht offset limit
  | updateCustomer customerId changes => exact steady_updateCustomer P ht customerId changes
  | createTicket r key => exact steady_createTicket P S ht hm r key
  | getTicket ticketId => exact (steady_getTicket S ht hm ticketId).mono fun _ _ => trivial
  | listTickets options => exact steady_listTickets P S ht hm options
  | updateTicket ticketId changes => exact steady_updateTicket S ht hm ticketId changes
  | claim ticketId note => exact steady_claim S ht hm ticketId note
  | transfer ticketId assignee note => exact steady_transfer S ht hm ticketId assignee note
  | resolve ticketId note => exact steady_conclude S ht hm .resolve ticketId note
  | reopen ticketId note => exact steady_reopen S ht hm ticketId note
  | close ticketId note => exact steady_conclude S ht hm .close ticketId note
  | listEvents ticketId => exact steady_listEvents S ht hm ticketId
  | createComment ticketId body visibility =>
    exact steady_createComment _ ht hm ticketId body visibility
  | listComments ticketId => exact steady_listComments _ ht hm ticketId
  | uploadAttachment ticketId upload => exact steady_uploadAttachment P _ ht hm ticketId upload
  | listAttachments ticketId => exact steady_listAttachments _ ht hm ticketId
  | download ticketId attachmentId => exact steady_download _ ht hm ticketId attachmentId
  | submitEmailNotification ticketId key =>
    exact steady_submitEmailNotification P _ ht hm ticketId key
  | submitTicketExport status priority key =>
    exact steady_submitTicketExport P _ ht hm status priority key
  | getJob jobId => exact (steady_getJob ht jobId).mono fun _ _ => trivial
  | exportResultPath jobId => exact steady_exportResultPath hroot ht jobId
  | invite email => exact steady_invite P S ht email
  | listMembers => exact steady_listMembers ht
  | listRoles => exact steady_listRoles ht
  | hasPermission permission => exact steady_hasPermission S hm permission
  | assignRoles membershipId roleIds =>
    exact steady_assignRoles S ht (ht ▸ htenant) membershipId roleIds

/-- **Every call of the tenant goes on the same when it is answered alike.** -/
theorem steady_prog (hroot : resolve exportRoot = exportRoot)
    (htenant : D.own .tenants D.tenant = true) {c : TenantCall} (h : D.Serves c) :
    D.Steady (fun _ => True) (c.prog P C S exportRoot D.tenant) := by
  cases c with
  | request context correlationId r => exact steady_request hroot htenant h
  | resolveCurrent user => exact steady_resolveCurrent user htenant
  | acceptInvitation user => exact steady_acceptInvitation S user htenant
  | leave user => exact steady_leave S user htenant
  | execute jobId => exact steady_execute P C h

namespace Coupled

variable {W W' : World}

theorem setBodies (h : D.Coupled W W') {b b' : Nat → Option Body} (hb : b' = b) :
    D.Coupled { W with bodies := b } { W' with bodies := b' } :=
  ⟨h.store, h.clock, h.cache, h.objects, h.exports, h.sends, h.queue, hb⟩

theorem accept (h : D.Coupled W W') (i : Nat) :
    D.Coupled (W.accept i none) (W'.accept i none) := by
  refine (h.setStore (h.store.rollback i)).setBodies ?_
  rw [h.bodies, h.clock]

theorem settle (h : D.Coupled W W') (i : Nat) :
    D.Coupled (W.settle i false) (W'.settle i false) := by
  have hbodies := (h.setStore (h.store.rollback i)).setBodies
    (congrArg (Function.update · i none) h.bodies)
  exact ⟨hbodies.store, hbodies.clock, hbodies.cache, hbodies.objects, hbodies.exports,
    hbodies.sends, congrArg (· ++ []) h.queue, hbodies.bodies⟩

/-- A moment elsewhere, in which the same happens to what everybody shares. -/
theorem after (h : D.Coupled W W') {e e' : D.Moment} (he : e.shared = e'.shared) :
    D.Coupled (e.after W) (e'.after W') := by
  have hothers : D.Coupled (e.others W) (e'.others W') :=
    ((e.keeps W (h.trans h.symm)).symm.trans h).trans (e'.keeps W' (h.symm.trans h))
  have hshared := e.shares _ _ hothers
  rw [Moment.after, Moment.after, ← he]
  exact hshared

end Coupled

/-- The two runs. -/
def isolation (hroot : resolve exportRoot = exportRoot)
    (htenant : D.own .tenants D.tenant = true) :
    System.Lockstep (tenantPlayer P C S exportRoot D) where
  alike := D.Coupled
  performs := D.Confined
  answers := D.Answers
  environs e e' := e.shared = e'.shared
  keeps := D.Untouched
  may _ := rfl
  prog h := Lib.Prog.InStep.mono (steady_prog hroot htenant (serves_of h)) fun _ _ h => h.1
  start h := h.accept _
  finish h := h.settle _
  crash h := h.settle _
  exec {i _ c o W W'} h ho := by
    show Option.Rel _ (ite _ _ _) (ite _ _ _)
    split
    · rename_i hdraws
      exact opStep_coupled h ho hdraws
    · exact .none
  env h he := .some (h.after he)
  keeps_refl := Untouched.refl
  keeps_trans := Untouched.trans
  start_keeps _ _ W := ⟨fun _ => rfl, fun _ _ => rfl, rfl, fun _ _ => rfl⟩
  finish_keeps _ _ _ W := ⟨fun _ => rfl, fun _ _ => rfl, rfl, fun _ _ => rfl⟩
  crash_keeps _ _ W := ⟨fun _ => rfl, fun _ _ => rfl, rfl, fun _ _ => rfl⟩
  exec_keeps {i _ c o W r W'} h ho hexec := by
    change ite _ _ _ = _ at hexec
    split at hexec
    · exact opStep_untouched (h.store.pending i) ho hexec
    · cases hexec

end Tenancy

/-! ## What the tenant sees -/

/-- The tenant sees the same: what its calls have answered, its rows and what everybody shares, its
cache entries, its files, its mails. -/
structure SameToTenant {P : Platform} {C : Settings} {S : RBACService} {exportRoot : Lib.Path}
    (D : Tenancy) (pool pool' : (tenantSystem P C S exportRoot D).Pool) : Prop where
  calls : ∀ i, (pool.threads i).call? = (pool'.threads i).call?
  outcomes : ∀ i, (pool.threads i).ended? = (pool'.threads i).ended?
  rows : ∀ t, (pool.shared.store.db t).filter (D.mine t) =
    (pool'.shared.store.db t).filter (D.mine t)
  cache : ∀ m, pool.shared.cache (permissionSnapshotKey D.tenant m) =
    pool'.shared.cache (permissionSnapshotKey D.tenant m)
  objects : pool.shared.objects.filter (D.ownsObject ·.key) =
    pool'.shared.objects.filter (D.ownsObject ·.key)
  exports : ∀ key, D.ownsExport key = true → pool.shared.exports key = pool'.shared.exports key
  sends : pool.shared.sends = pool'.shared.sends

/-- **Tenants are isolated.** Nothing that the tenant's calls answer or leave for it depends on what
is of other tenants, and they change nothing of it. -/
theorem tenants_are_isolated (P : Platform) (C : Settings) (S : RBACService)
    {exportRoot : Lib.Path} (hroot : resolve exportRoot = exportRoot) (D : Tenancy)
    (htenant : D.own .tenants D.tenant = true) {W W' : World} (h : D.Coupled W W')
    {ms ms' : List (System.Move TenantCall Choice D.Moment)}
    (hms : List.Forall₂ (System.Move.Alike fun e e' => e.shared = e'.shared) ms ms') :
    Option.Rel (SameToTenant D)
        ((tenantPlayer P C S exportRoot D).replay ms (.init W))
        ((tenantPlayer P C S exportRoot D).replay ms' (.init W')) ∧
      ∀ pool, (tenantPlayer P C S exportRoot D).replay ms (.init W) = some pool →
        ∀ m pool', m.thread? ≠ none → (tenantPlayer P C S exportRoot D).move pool m = some pool' →
          D.Untouched pool.shared pool'.shared := by
  let L := Tenancy.isolation (P := P) (C := C) (S := S) hroot htenant
  refine ⟨?_, fun pool hpool m pool' hm hmove => ?_⟩
  · have hruns := System.Lockstep.replay (L := L) hms (System.Lockstep.inStep_init h)
    generalize (tenantPlayer P C S exportRoot D).replay ms (.init W) = x at hruns ⊢
    generalize (tenantPlayer P C S exportRoot D).replay ms' (.init W') = y at hruns ⊢
    cases hruns with
    | none => exact .none
    | some hin =>
      exact .some
        { calls := fun i => (hin.threads i).call?
          outcomes := fun i => (hin.threads i).ended?
          rows := hin.shared.store.rows.rows
          cache := fun m => (hin.shared.cache _ ⟨m, rfl⟩).symm
          objects := hin.shared.objects.symm
          exports := fun key hkey => (hin.shared.exports key hkey).symm
          sends := hin.shared.sends.symm }
  · have hself := System.Lockstep.replay_self (L := L) (fun _ => rfl)
      (System.Lockstep.inStep_init (h.trans h.symm)) hpool
    exact System.Lockstep.move_keeps hm hself hmove

namespace Isolation

/-- Time passes. -/
def idle (D : Tenancy) (n : Nat) : D.Moment where
  shared W := { W with clock := W.clock + n }
  others W := W
  shares _ _ h := ⟨h.store, congrArg (· + n) h.clock, h.cache, h.objects, h.exports, h.sends,
    h.queue, h.bodies⟩
  keeps _ h := h

/-- A row of another tenant. -/
structure Theirs (D : Tenancy) (t : Table) where
  row : t.Row
  fits : D.Fits t row
  theirs : D.mine t row = false

theorem Theirs.alike {D : Tenancy} {t : Table} (x : Theirs D t) {db : Db} (h : D.Divides db) :
    D.Alike db ((Write.insert t x.row).apply db) := by
  refine ⟨fun t' => ?_, h, fun t' r hr => ?_⟩
  · by_cases ht : t' = t
    · subst ht
      rw [Write.apply_insert, List.filter_append, List.filter_singleton, x.theirs]
      exact (List.append_nil _).symm
    · rw [Write.apply_other _ _ ht]
  · by_cases ht : t' = t
    · subst ht
      rw [Write.apply_insert] at hr
      rcases List.mem_append.mp hr with hr | hr
      · exact h t' r hr
      · rw [List.mem_singleton.mp hr]
        exact x.fits
    · rw [Write.apply_other _ _ ht] at hr
      exact h t' r hr

/-- Time passes while another tenant adds a row. -/
def busy {D : Tenancy} {t : Table} (x : Theirs D t) (n : Nat) : D.Moment where
  shared := (idle D n).shared
  others W := W.setStore { W.store with db := (Write.insert t x.row).apply W.store.db }
  shares := (idle D n).shares
  keeps _ h := h.setStore ⟨x.alike h.store.rows.left, rfl, rfl, rfl, h.store.pending⟩

/-- The tenant of `Db.provisioned`. -/
def acme : Tenancy := ⟨1, fun _ id => id.val < 100⟩

theorem divides_provisioned : acme.Divides Db.provisioned := by
  intro t
  cases t
  case tenants | memberships | roles | rolePermissions | membershipRoles =>
    simp only [Tenancy.Fits]
    decide
  case users | permissions =>
    simp only [Tenancy.Fits]
    decide
  all_goals exact List.forall_mem_nil _

/-- Another tenant, -/
def other : Theirs acme .tenants where
  row := { CurrentTenant.owner.tenant with id := 200, slug := "other" }
  fits := iff_of_false (by decide) (by decide)
  theirs := by decide

/-- and a customer of it, with the address of one of this tenant. -/
def theirCustomer (id : UUID) (h : acme.own .customers id = false) : Theirs acme .customers where
  row := {
    id
    tenantId := 200
    name := "Ada"
    email := "a@b.c"
    phone := none
    isActive := true
    createdAt := 0
    updatedAt := 0 }
  fits := iff_of_false (ne_true_of_eq_false h) (show (200 : UUID) ≠ 1 by decide)
  theirs := h

/-- The provisioned database beside another tenant. -/
def crowded : Db :=
  (Write.insert .customers (theirCustomer 300 (by decide)).row).apply
    ((Write.insert .tenants other.row).apply Db.provisioned)

theorem coupled_crowded : acme.Coupled (World.fresh Db.provisioned) (World.fresh crowded) where
  store := by
    have h := other.alike divides_provisioned
    exact ⟨h.trans ((theirCustomer 300 (by decide)).alike h.right), rfl, rfl, rfl,
      fun _ => List.forall_mem_nil _⟩
  clock := rfl
  cache _ _ := rfl
  objects := rfl
  exports _ _ := rfl
  sends := rfl
  queue := rfl
  bodies := rfl

/-- The owner adds a customer, and lists the customers. -/
def moves (e : acme.Moment) : List (System.Move TenantCall Choice acme.Moment) :=
  [.start 0 (.request .owner none (.createCustomer "Ada" "a@b.c" none)),
    .ops 0 [{}, { uuid := 7 }, {}], .env e, .ops 0 [{}, {}], .finish 0,
    .start 1 (.request .owner none (.listCustomers 0 10)), .ops 1 [{}], .finish 1]

theorem moves_alike (e e' : acme.Moment) (h : e.shared = e'.shared) :
    List.Forall₂ (System.Move.Alike fun e e' => e.shared = e'.shared) (moves e) (moves e') :=
  .cons rfl (.cons rfl (.cons h (.cons rfl (.cons rfl (.cons rfl (.cons rfl (.cons rfl .nil)))))))

abbrev player := tenantPlayer .plain {} ⟨false, 300, 30⟩ ["exports"] acme

end Isolation

/-- The owner's customer is the same, and the only one in its list, whoever else has customers. -/
theorem tenants_are_isolated_crowded :
    ∃ pool pool' : (tenantSystem .plain {} ⟨false, 300, 30⟩ ["exports"] Isolation.acme).Pool,
      Isolation.player.replay (Isolation.moves (Isolation.idle _ 5))
        (.init (World.fresh Db.provisioned)) = some pool ∧
      Isolation.player.replay
        (Isolation.moves (Isolation.busy (Isolation.theirCustomer 301 (by decide)) 5))
        (.init (World.fresh Isolation.crowded)) = some pool' ∧
      (pool.shared.store.db .customers).length = 1 ∧
      (pool'.shared.store.db .customers).length = 3 ∧ SameToTenant Isolation.acme pool pool' := by
  have listed (ms : List (System.Move TenantCall Choice Isolation.acme.Moment)) (W : World)
      {n : Nat} (h : (Isolation.player.replay ms (.init W)).map
        (fun pool => (pool.shared.store.db .customers).length) = some n) :
      ∃ pool, Isolation.player.replay ms (.init W) = some pool ∧
        (pool.shared.store.db .customers).length = n := Option.map_eq_some_iff.mp h
  obtain ⟨pool, hpool, hn⟩ := listed (Isolation.moves (Isolation.idle _ 5))
    (World.fresh Db.provisioned) (n := 1) (by decide +kernel)
  obtain ⟨pool', hpool', hn'⟩ := listed
    (Isolation.moves (Isolation.busy (Isolation.theirCustomer 301 (by decide)) 5))
    (World.fresh Isolation.crowded) (n := 3) (by decide +kernel)
  refine ⟨pool, pool', hpool, hpool', hn, hn', ?_⟩
  have h := (tenants_are_isolated .plain {} ⟨false, 300, 30⟩
    (show resolve ["exports"] = ["exports"] by decide) Isolation.acme (by decide)
    Isolation.coupled_crowded (Isolation.moves_alike (Isolation.idle _ 5)
      (Isolation.busy (Isolation.theirCustomer 301 (by decide)) 5) rfl)).1
  rw [hpool, hpool'] at h
  cases h with
  | some h => exact h

end Ticketing
