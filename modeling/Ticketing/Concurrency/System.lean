import Ticketing.Model.World
import Ticketing.Lib.Replay
import Ticketing.Lib.Triple

/-!
# Service calls in parallel

* `Calls.system` makes a pool of any family of calls: each thread runs one call, in a database
  session of its own that is rolled back when the call ends or its process dies. Every operation
  may fail in every way a `Choice` allows, unless an `Admission` says otherwise. `env` is what the
  rest of the system may do.
* A `WorldOutline` is an outline about the committed rows and whatever else of the world it looks
  at: an invariant, and what a session may rely on beyond `Store.Frame`. Both are untouched by
  whatever a session does to the database short of a commit (`Local`), so only commits need an
  argument. A `StoreOutline` looks at the database alone.
* `Own X`: a session does not forget `X` by its own statements. `Before X φ`: it knows `X`, has
  committed nothing and has written `φ`.

Results:
* `opStep_store`, `opStep_part`, `opStep_raises`: what one operation does to the database and to
  each other part of the world, and what it can raise.
* `quiet`, `select`, `selectForUpdate`, `write`, `commit`, `rollback`: the rule of each operation,
  for what is blind to it and for what is not. `commitOnce` is the rule of a call that commits
  once.
* `sound`: a family whose programs meet their triples keeps the outline's invariant, under any
  faults and crashes.
* `Calls.keeps`: so an invariant of the rows that each write keeps holds in every reachable pool.
-/

namespace Ticketing

open Lib (Prog Store System Outline)
open Lib.Outline (Triple Assertion post)

/-- A family of calls. -/
structure Calls where
  Call : Type
  Ret : Call → Type
  prog : (c : Call) → Service (Ret c)
  /-- The task message a call is delivered with. -/
  message : Call → Option TaskMessage := fun _ => none
  /-- The call ends with `Retry`: its message is sent once more. -/
  retries : (c : Call) → Except Exn (Ret c) → Bool := fun _ _ => false

/-- The world before any call: no transaction is open and nothing has been committed. -/
structure World.Quiet (W : World) : Prop where
  sessions : ∀ i, W.store.sessions i = {}
  owner : ∀ k, W.store.owner k = none
  wal : W.store.wal = []

/-- The world with the committed rows `db` before any call. -/
def World.fresh (db : Db) : World where
  store := ⟨db, fun _ => none, fun _ => {}, []⟩
  clock := 0
  cache _ := none
  objects := []
  exports _ := none
  sends := []
  queue := []
  bodies _ := none

theorem World.quiet_fresh (db : Db) : (World.fresh db).Quiet := ⟨fun _ => rfl, fun _ => rfl, rfl⟩

/-- The session of thread `i` is closed. -/
def World.closeSession (W : World) (i : Nat) : World := W.setStore (W.store.rollback i)

/-- Thread `i` starts, on the task message `m` if it is for one. -/
def World.accept (W : World) (i : Nat) (m : Option TaskMessage) : World :=
  { W.closeSession i with
    queue := m.elim W.queue W.queue.erase
    bodies := Function.update W.bodies i (some ⟨m, W.clock⟩) }

/-- Thread `i` is over; its task message is acknowledged, or is to be delivered again. -/
def World.settle (W : World) (i : Nat) (again : Bool) : World :=
  { W.closeSession i with
    queue := W.queue ++ if again then ((W.bodies i).bind (·.message)).toList else []
    bodies := Function.update W.bodies i none }

/-- Which choices the outside has about an operation of a thread. -/
abbrev Admission := Nat → World → Op → Choice → Prop

/-- What one operation of thread `i` can do, under the choices `admits` leaves. -/
def callStep (admits : Admission) (i : Nat) (o : Op) (W : World) (r : Except Exn o.Res)
    (W' : World) : Prop := ∃ c, admits i W o c ∧ opStep i c o W = some (r, W')

/-- Nothing has been committed, sent or stored in the name of thread `i`. -/
def World.Unused (W : World) (i : Nat) : Prop :=
  (∀ w ∈ W.store.wal, w.1 ≠ i) ∧ (∀ s ∈ W.sends, s.worker ≠ i) ∧ ∀ x ∈ W.objects, x.writer ≠ i

/-- The pool of a family of calls, where thread `i` may run the calls `may i`. A thread starts once,
so nothing is done in its name before. -/
def Calls.system (C : Calls) (may : Nat → C.Call → Prop) (admits : Admission)
    (env : World → World → Prop) : System Op.Res Exn World where
  Call := C.Call
  Ret := C.Ret
  prog := C.prog
  step i _ := callStep admits i
  canStart i c W := may i c ∧ W.Unused i ∧ ∀ m ∈ C.message c, m ∈ W.queue
  onStart i c W := W.accept i (C.message c)
  onFinish i c r W := W.settle i (C.retries c r)
  onCrash i _ W := W.settle i true
  env

/-- Runs of a family of calls under the choices `admitted`, where nobody else moves. -/
def Calls.playerOf (C : Calls) {may : Nat → C.Call → Prop} {admits : Admission}
    (env : World → World → Prop) (mayStart : Nat → C.Call → Bool)
    (hm : ∀ i c, mayStart i c = true → may i c) (admitted : Nat → World → Op → Choice → Bool)
    (ha : ∀ i W o c, admitted i W o c = true → admits i W o c) :
    (C.system may admits env).Player Choice Empty where
  may i c W := mayStart i c && W.store.wal.all (·.1 ≠ i) && W.sends.all (·.worker ≠ i) &&
    W.objects.all (·.writer ≠ i) && (C.message c).all (· ∈ W.queue)
  exec i _ ch o W := if admitted i W o ch then opStep i ch o W else none
  moveEnv e _ := e.elim
  may_start h := by
    simp only [Bool.and_eq_true] at h
    obtain ⟨⟨⟨⟨hs, hw⟩, hsends⟩, hobjects⟩, hq⟩ := h
    refine ⟨hm _ _ hs, ⟨fun w hmem => ?_, fun s hmem => ?_, fun x hmem => ?_⟩, fun m hmem => ?_⟩
    · simpa using List.all_eq_true.mp hw w hmem
    · simpa using List.all_eq_true.mp hsends s hmem
    · simpa using List.all_eq_true.mp hobjects x hmem
    · rw [Option.mem_def.mp hmem] at hq
      exact of_decide_eq_true hq
  exec_step h := by
    split at h
    · rename_i had
      exact ⟨_, ha _ _ _ _ had, h⟩
    · cases h
  env_step {e} := e.elim

/-- Runs of a family of calls under any choices. -/
def Calls.player (C : Calls) {may : Nat → C.Call → Prop} (env : World → World → Prop)
    (mayStart : Nat → C.Call → Bool) (hm : ∀ i c, mayStart i c = true → may i c) :
    (C.system may (fun _ _ _ _ => True) env).Player Choice Empty :=
  C.playerOf env mayStart hm (fun _ _ _ _ => true) fun _ _ _ _ _ => trivial

/-! ## One operation, as the database sees it -/

section Specs

variable {i : Nat} {c : Choice} {W W' : World}

theorem ofStore_eq {β : Type} {r : Option (Except Lib.Failure β × Store Db Write Key)}
    {a : Except Exn β} (h : W.ofStore r = some (a, W')) :
    ∃ b s, r = some (b, s) ∧ a = b.mapError Exn.ofFailure ∧ W' = W.setStore s := by
  obtain ⟨⟨b, s⟩, hr, he⟩ := Option.map_eq_some_iff.mp h
  cases he
  exact ⟨b, s, hr, rfl, rfl⟩

theorem mapError_ok {β : Type} {b : Except Lib.Failure β} {v : β}
    (h : b.mapError Exn.ofFailure = .ok v) : b = .ok v := by
  cases b with
  | ok w => exact congrArg _ (Except.ok.inj h)
  | error e => cases h

theorem mapError_error {β : Type} {b : Except Lib.Failure β} (h : ∃ e, b = .error e) :
    ∃ e, b.mapError Exn.ofFailure = .error e := by
  obtain ⟨e, rfl⟩ := h
  exact ⟨_, rfl⟩

/-- What a step that may be cancelled, degraded or refused leaves: the world as it was, or as the
operation makes it. -/
theorem awaiting_or {β : Type} {V V' : World} {fault : Option Lib.Fault} {a r : Except Exn β}
    (h : V.awaiting fault a V' = some (r, W')) : W' = V ∨ W' = V' := by
  unfold World.awaiting at h
  split at h <;> cases h
  · exact .inl rfl
  · exact .inr rfl
  · exact .inr rfl

theorem redis_or {β : Type} {V V' : World} {fault : Option Lib.Fault} {d a : β}
    {r : Except Exn β} (h : V.redis fault d a V' = some (r, W')) : W' = V ∨ W' = V' := by
  unfold World.redis at h
  split at h
  · exact awaiting_or h
  · exact awaiting_or h
  · exact awaiting_or h
  · cases h; exact .inl rfl

theorem file_or {β : Type} {V V' : World} {fault : Option Lib.Fault} {a r : Except Exn β}
    (h : V.file fault a V' = some (r, W')) : W' = V ∨ W' = V' := by
  unfold World.file at h
  split at h
  · exact awaiting_or h
  · exact awaiting_or h
  · exact awaiting_or h
  · cases h; exact .inl rfl

theorem select_step {β : Type} {q : Db → β} {r : Except Exn β}
    (h : opStep i c (.select q) W = some (r, W')) :
    ((Store.Keeps i W.store W'.store ∧ ∀ b, r = .ok b → b = q (W.store.view schema i)) ∨
      Store.Dropped i W.store W'.store ∧ (W'.store.sessions i).broken = true ∧
        ∃ e, r = .error e) ∧ W' = W.setStore W'.store := by
  obtain ⟨b, s, hs, rfl, rfl⟩ := ofStore_eq h
  refine ⟨(Store.select_spec hs).imp (fun h => ⟨h.1, fun v hv => h.2 v (mapError_ok hv)⟩)
    fun h => ⟨h.1, h.2.1, mapError_error h.2.2⟩, rfl⟩

theorem selectForUpdate_step {t : Table} {q : Db → Option t.Row} {r : Except Exn (Option t.Row)}
    (h : opStep i c (.selectForUpdate t q) W = some (r, W')) :
    ((Store.Keeps i W.store W'.store ∧ ∀ b, r = .ok b → b = q (W.store.view schema i) ∧
        ∀ row, b = some row → W'.store.owner (.row t (t.id row)) = some i) ∨
      Store.Dropped i W.store W'.store ∧ (W'.store.sessions i).broken = true ∧
        ∃ e, r = .error e) ∧ W' = W.setStore W'.store := by
  obtain ⟨b, s, hs, rfl, rfl⟩ := ofStore_eq h
  refine ⟨(Store.lockRow_spec hs).imp (fun h => ⟨h.1, fun v hv => h.2 v (mapError_ok hv)⟩)
    fun h => ⟨h.1, h.2.1, mapError_error h.2.2⟩, rfl⟩

theorem selectSkipLocked_step {t : Table} {q : (t.Row → Bool) → Db → List t.Row}
    {r : Except Exn (List t.Row)} (h : opStep i c (.selectSkipLocked t q) W = some (r, W')) :
    ((Store.Keeps i W.store W'.store ∧ ∀ b, r = .ok b →
        b = q (fun row => W.store.free i (.row t (t.id row))) (W.store.view schema i) ∧
        ∀ row ∈ b, W.store.free i (.row t (t.id row)) = true →
          W'.store.owner (.row t (t.id row)) = some i) ∨
      Store.Dropped i W.store W'.store ∧ (W'.store.sessions i).broken = true ∧
        ∃ e, r = .error e) ∧ W' = W.setStore W'.store := by
  obtain ⟨b, s, hs, rfl, rfl⟩ := ofStore_eq h
  refine ⟨(Store.lockRows_spec hs).imp (fun h => ⟨h.1, fun v hv => h.2 v (mapError_ok hv)⟩)
    fun h => ⟨h.1, h.2.1, mapError_error h.2.2⟩, rfl⟩

theorem write_step {w : Write} {r : Except Exn Unit} (h : opStep i c (.write w) W = some (r, W')) :
    ((∃ t, Store.Wrote schema i t w W.store W'.store) ∧ (r = .ok () ∨ r = .error .cancelled) ∨
      (Store.Keeps i W.store W'.store ∨ Store.Dropped i W.store W'.store) ∧
        (W'.store.sessions i).broken = true ∧ ∃ e, r = .error e) ∧
    W' = W.setStore W'.store := by
  obtain ⟨b, s, hs, rfl, rfl⟩ := ofStore_eq h
  refine ⟨(Store.write_spec hs).imp (fun h => ⟨h.1, ?_⟩)
    fun h => ⟨h.1, h.2.1, mapError_error h.2.2⟩, rfl⟩
  rcases h.2 with rfl | rfl
  · exact .inl rfl
  · exact .inr rfl

theorem commit_step {r : Except Exn Unit} (h : opStep i c .commit W = some (r, W')) :
    (Store.Committed schema i W.store W'.store ∧ (r = .ok () ∨
        r = .error .databaseError ∧ c.fault = some .lostReply ∧
          (W'.store.sessions i).broken = true ∨
        r = .error .cancelled ∧ c.fault = some .cancelledAfter) ∨
      (Store.Keeps i W.store W'.store ∨ Store.Dropped i W.store W'.store) ∧
        (W'.store.sessions i).broken = true ∧ ∃ e, r = .error e) ∧
    r ≠ .error .integrityError ∧ W' = W.setStore W'.store := by
  obtain ⟨b, s, hs, rfl, rfl⟩ := ofStore_eq h
  refine ⟨(Store.commit_spec hs).imp (fun h => ⟨h.1, ?_⟩)
    fun h => ⟨h.1, h.2.1, mapError_error h.2.2⟩, ?_, rfl⟩
  · rcases h.2 with rfl | ⟨rfl, hf, hb⟩ | ⟨rfl, hf⟩
    · exact .inl rfl
    · exact .inr (.inl ⟨rfl, hf, hb⟩)
    · exact .inr (.inr ⟨rfl, hf⟩)
  · intro hr
    cases b with
    | ok v => cases hr
    | error e =>
      cases e with
      | integrity => exact Store.commit_ne_integrity hs
      | database => cases hr
      | pendingRollback => cases hr
      | cancelled => cases hr

theorem rollback_step {r : Except Exn Unit} (h : opStep i c .rollback W = some (r, W')) :
    (W' = W.closeSession i ∨ W' = W ∧ ∃ e, r = .error e) ∧ r ≠ .error .integrityError := by
  simp only [opStep, World.awaiting] at h
  split at h <;> cases h
  · exact ⟨.inr ⟨rfl, _, rfl⟩, by simp⟩
  · exact ⟨.inl rfl, by simp⟩
  · exact ⟨.inl rfl, by simp⟩

/-- The parts of the world outside the database that operations change. -/
inductive Part
  | cache
  | objects
  | exports
  | sends
  | queue

/-- The part an operation may change. -/
def Op.part : Op → Option Part
  | cacheSet .. | cacheDelete _ => some .cache
  | createObject _ | appendObject .. | unlinkObject _ => some .objects
  | replaceExport .. => some .exports
  | startSend _ | awaitSend => some .sends
  | publish _ => some .queue
  | _ => none

/-- A part of the world is the same in both. -/
def Part.Same (W W' : World) : Part → Prop
  | cache => W'.cache = W.cache
  | objects => W'.objects = W.objects
  | exports => W'.exports = W.exports
  | sends => W'.sends = W.sends
  | queue => W'.queue = W.queue

/-- Outside the database only the part `q` may differ. -/
structure Beside (q : Option Part) (W W' : World) : Prop where
  clock : W'.clock = W.clock
  bodies : W'.bodies = W.bodies
  parts : ∀ p, q ≠ some p → p.Same W W'

namespace Beside

variable {q : Option Part} {V : World}

theorem refl : Beside q W W := ⟨rfl, rfl, fun p _ => by cases p <;> rfl⟩

theorem trans (h : Beside q W W') (h' : Beside q W' V) : Beside q W V where
  clock := h'.clock.trans h.clock
  bodies := h'.bodies.trans h.bodies
  parts p hp := by
    have h₁ := h.parts p hp
    have h₂ := h'.parts p hp
    cases p <;> exact Eq.trans h₂ h₁

theorem store (h : W' = W.setStore W'.store) : Beside q W W' := by
  rw [h]
  exact ⟨rfl, rfl, fun p _ => by cases p <;> rfl⟩

theorem of_or (h : W' = W ∨ W' = V) (hV : Beside q W V) : Beside q W W' := by
  rcases h with rfl | rfl
  · exact refl
  · exact hV

theorem cache (x : String → Option CacheEntry) : Beside (some .cache) W { W with cache := x } :=
  ⟨rfl, rfl, fun p hp => by cases p <;> first | rfl | exact absurd rfl hp⟩

theorem objects (x : List StoredObject) : Beside (some .objects) W { W with objects := x } :=
  ⟨rfl, rfl, fun p hp => by cases p <;> first | rfl | exact absurd rfl hp⟩

theorem exports (x : String → Option ExportFile) :
    Beside (some .exports) W { W with exports := x } :=
  ⟨rfl, rfl, fun p hp => by cases p <;> first | rfl | exact absurd rfl hp⟩

theorem sends (x : List Send) : Beside (some .sends) W { W with sends := x } :=
  ⟨rfl, rfl, fun p hp => by cases p <;> first | rfl | exact absurd rfl hp⟩

theorem queue (x : List TaskMessage) : Beside (some .queue) W { W with queue := x } :=
  ⟨rfl, rfl, fun p hp => by cases p <;> first | rfl | exact absurd rfl hp⟩

end Beside

/-- An operation changes nothing outside the database but its part. -/
theorem opStep_part {o : Op} {r : Except Exn o.Res} (h : opStep i c o W = some (r, W')) :
    Beside o.part W W' := by
  cases o with
  | select q => exact .store (select_step h).2
  | selectForUpdate t q => exact .store (selectForUpdate_step h).2
  | selectSkipLocked t q => exact .store (selectSkipLocked_step h).2
  | write w => exact .store (write_step h).2
  | commit => exact .store (commit_step h).2.2
  | rollback =>
    rcases (rollback_step h).1 with rfl | ⟨rfl, -⟩
    · exact .store rfl
    · exact .refl
  | uuid4 => cases h; exact .refl
  | now => cases h; exact .refl
  | randint hi => cases h; exact .refl
  | isExport key => cases h; exact .refl
  | cacheGet key => exact .of_or (redis_or h) .refl
  | closeObject key handling => exact .of_or (file_or h) .refl
  | isObject key => exact .of_or (file_or h) .refl
  | readObject key => exact .of_or (file_or h) .refl
  | cacheSet key value ttl => exact .of_or (redis_or h) (.cache _)
  | cacheDelete key => exact .of_or (redis_or h) (.cache _)
  | createObject key =>
    simp only [opStep] at h
    split at h
    · exact .of_or (file_or h) (.objects _)
    · exact .of_or (file_or h) .refl
  | appendObject key chunk => exact .of_or (file_or h) (.objects _)
  | unlinkObject key => exact .of_or (file_or h) (.objects _)
  | replaceExport key content => exact .of_or (file_or h) (.exports _)
  | startSend message => cases h; exact .sends _
  | awaitSend =>
    simp only [opStep] at h
    split at h
    · cases h; exact .refl
    · split at h
      · cases h
      · split at h <;> cases h <;> first | exact .refl | exact .sends _
  | publish message =>
    simp only [opStep] at h
    split at h
    · exact .of_or (awaiting_or h) (.queue _)
    · split at h
      · exact .of_or (awaiting_or h) (.queue _)
      · exact .of_or (awaiting_or h) .refl

theorem opStep_sends {o : Op} {r : Except Exn o.Res} (ho : o.part ≠ some .sends)
    (h : opStep i c o W = some (r, W')) : W'.sends = W.sends := (opStep_part h).parts .sends ho

theorem World.sends_setStore (W : World) (s : Store Db Write Key) :
    (W.setStore s).sends = W.sends := rfl

/-- An operation that is not a statement leaves the database alone. -/
theorem opStep_store {o : Op} {r : Except Exn o.Res} (h : opStep i c o W = some (r, W'))
    (ho : o.Quiet) :
    Store.Keeps i W.store W'.store ∨
      Store.Dropped i W.store W'.store ∧ (W'.store.sessions i).broken = true ∧
        ∃ e, r = .error e := by
  have or_of {V : World} (h : W' = W ∨ W' = V) (hV : V.store = W.store) :
      Store.Keeps i W.store W'.store ∨
        Store.Dropped i W.store W'.store ∧ (W'.store.sessions i).broken = true ∧
          ∃ e, r = .error e := by
    refine .inl ?_
    rcases h with rfl | rfl
    · exact .refl i _
    · rw [hV]
      exact .refl i _
  cases o with
  | select q => exact (select_step h).1.imp (·.1) id
  | selectForUpdate t q => exact (selectForUpdate_step h).1.imp (·.1) id
  | selectSkipLocked t q => exact (selectSkipLocked_step h).1.imp (·.1) id
  | write w => exact ho.elim
  | commit => exact ho.elim
  | rollback => exact ho.elim
  | uuid4 => cases h; exact or_of (.inl rfl) rfl
  | now => cases h; exact or_of (.inl rfl) rfl
  | randint hi => cases h; exact or_of (.inl rfl) rfl
  | isExport key => cases h; exact or_of (.inl rfl) rfl
  | cacheGet key => exact or_of (redis_or h) rfl
  | cacheSet key value ttl => exact or_of (redis_or h) rfl
  | cacheDelete key => exact or_of (redis_or h) rfl
  | createObject key =>
    simp only [opStep] at h
    split at h
    · exact or_of (file_or h) rfl
    · exact or_of (file_or h) rfl
  | appendObject key chunk => exact or_of (file_or h) rfl
  | closeObject key handling => exact or_of (file_or h) rfl
  | unlinkObject key => exact or_of (file_or h) rfl
  | isObject key => exact or_of (file_or h) rfl
  | readObject key => exact or_of (file_or h) rfl
  | replaceExport key content => exact or_of (file_or h) rfl
  | startSend message => cases h; exact or_of (.inr rfl) rfl
  | awaitSend =>
    simp only [opStep] at h
    split at h
    · cases h; exact or_of (.inl rfl) rfl
    · split at h
      · cases h
      · split at h <;> cases h <;> first | exact or_of (.inl rfl) rfl | exact or_of (.inr rfl) rfl
  | publish message =>
    simp only [opStep] at h
    split at h
    · exact or_of (awaiting_or h) rfl
    · split at h
      · exact or_of (awaiting_or h) rfl
      · exact or_of (awaiting_or h) rfl

theorem mapError_raises {β : Type} {b : Except Lib.Failure β} {e : Exn}
    (h : b.mapError Exn.ofFailure = .error e) (hb : b ≠ .error .integrity) :
    e.isOutside = true := by
  cases b with
  | ok v => cases h
  | error f =>
    cases f with
    | integrity => exact absurd rfl hb
    | database => cases h; rfl
    | pendingRollback => cases h; rfl
    | cancelled => cases h; rfl

theorem awaiting_raises {β : Type} {V V' : World} {fault : Option Lib.Fault} {a : Except Exn β}
    {e : Exn} (ha : ∀ e, a = .error e → e.isOutside = true)
    (h : V.awaiting fault a V' = some (.error e, W')) : e.isOutside = true := by
  unfold World.awaiting at h
  split at h
  · cases h; rfl
  · cases h; rfl
  · cases h; exact ha e rfl

theorem redis_raises {β : Type} {V V' : World} {fault : Option Lib.Fault} {d a : β} {e : Exn}
    (h : V.redis fault d a V' = some (.error e, W')) : e.isOutside = true := by
  unfold World.redis at h
  split at h
  · exact awaiting_raises (fun _ h => by cases h) h
  · exact awaiting_raises (fun _ h => by cases h) h
  · exact awaiting_raises (fun _ h => by cases h) h
  · cases h

theorem file_raises {β : Type} {V V' : World} {fault : Option Lib.Fault} {a : Except Exn β}
    {e : Exn} (ha : ∀ e, a = .error e → e.isOutside = true)
    (h : V.file fault a V' = some (.error e, W')) : e.isOutside = true := by
  unfold World.file at h
  split at h
  · exact awaiting_raises ha h
  · exact awaiting_raises ha h
  · exact awaiting_raises ha h
  · cases h; rfl

/-- Only a write raises an `IntegrityError`; no operation raises an exception of the program. -/
theorem opStep_raises {o : Op} {e : Exn} (h : opStep i c o W = some (.error e, W'))
    (ho : ∀ w, o ≠ .write w) : e.isOutside = true := by
  have none : ∀ {β : Type} {a : β} (e : Exn), (Except.ok a : Except Exn β) = .error e →
      e.isOutside = true := fun _ h => by cases h
  cases o with
  | write w => exact absurd rfl (ho w)
  | select q =>
    obtain ⟨b, s, hs, hb, -⟩ := ofStore_eq h
    exact mapError_raises hb.symm fun he => Store.select_ne_integrity (he ▸ hs)
  | selectForUpdate t q =>
    obtain ⟨b, s, hs, hb, -⟩ := ofStore_eq h
    exact mapError_raises hb.symm fun he => Store.lockRow_ne_integrity (he ▸ hs)
  | selectSkipLocked t q =>
    obtain ⟨b, s, hs, hb, -⟩ := ofStore_eq h
    exact mapError_raises hb.symm fun he => Store.lockRows_ne_integrity (he ▸ hs)
  | commit =>
    obtain ⟨b, s, hs, hb, -⟩ := ofStore_eq h
    exact mapError_raises hb.symm fun he => Store.commit_ne_integrity (he ▸ hs)
  | rollback => exact awaiting_raises none h
  | uuid4 => cases h
  | now => cases h
  | randint hi => cases h
  | cacheGet key => exact redis_raises h
  | cacheSet key value ttl => exact redis_raises h
  | cacheDelete key => exact redis_raises h
  | createObject key =>
    simp only [opStep] at h
    split at h
    · exact file_raises none h
    · exact file_raises (fun e he => by cases he; rfl) h
  | appendObject key chunk => exact file_raises none h
  | closeObject key handling => exact file_raises none h
  | unlinkObject key => exact file_raises none h
  | isObject key => exact file_raises none h
  | readObject key => exact file_raises none h
  | replaceExport key content => exact file_raises none h
  | isExport key => cases h
  | startSend message => cases h
  | awaitSend =>
    simp only [opStep] at h
    split at h
    · cases h; rfl
    · split at h
      · cases h
      · split at h <;> cases h <;> rfl
  | publish message =>
    simp only [opStep] at h
    split at h
    · exact awaiting_raises none h
    · exact awaiting_raises (fun e he => by cases he; rfl) h

/-- A query that answers leaves its session as usable as it was. -/
theorem select_usable {β : Type} {q : Db → β} {b : β}
    (h : opStep i c (.select q) W = some (.ok b, W')) :
    (W'.store.sessions i).broken = (W.store.sessions i).broken := by
  obtain ⟨b, s, hs, hb, rfl⟩ := ofStore_eq h
  exact Store.select_ok (mapError_ok hb.symm ▸ hs)

/-- Why a query raises. -/
theorem select_raises {β : Type} {q : Db → β} {e : Exn}
    (h : opStep i c (.select q) W = some (.error e, W')) :
    e = .pendingRollback ∧ (W.store.sessions i).broken = true ∨ e = .databaseError ∨
      e = .cancelled := by
  obtain ⟨b, s, hs, hb, -⟩ := ofStore_eq h
  rcases b with f | b
  · cases hb
    rcases Store.select_error hs with ⟨rfl, hbroken⟩ | rfl | rfl
    · exact .inl ⟨rfl, hbroken⟩
    · exact .inr (.inl rfl)
    · exact .inr (.inr rfl)
  · cases hb

theorem rollback_raises {e : Exn} (h : opStep i c .rollback W = some (.error e, W')) :
    e = .cancelled := by
  simp only [opStep, World.awaiting] at h
  split at h <;> cases h <;> rfl

/-- A write raises an `IntegrityError` for a unique value it adds that its session sees. -/
theorem write_raises {w : Write} {e : Exn} (h : opStep i c (.write w) W = some (.error e, W')) :
    e.isOutside = true ∨
      e = .integrityError ∧ ∃ k ∈ w.fresh, Db.present k (W.store.view schema i) = true := by
  obtain ⟨b, s, hs, hb, -⟩ := ofStore_eq h
  by_cases he : b = .error .integrity
  · subst he
    cases hb
    exact .inr ⟨rfl, Store.write_integrity hs⟩
  · exact .inl (mapError_raises hb.symm he)

end Specs

/-- Thread `i` runs and nothing fails. -/
def undisturbed (i : Nat) (o : Op) (W : World) : Option (Except Exn o.Res × World) :=
  opStep i {} o W

/-- A query that nothing fails, in a transaction that has written nothing. -/
theorem select_undisturbed {β : Type} {i : Nat} {W : World}
    (hw : (W.store.sessions i).writes = []) (hb : (W.store.sessions i).broken = false)
    (q : Db → β) :
    ∃ W', (Service.select q).run (undisturbed i) W = some (.ok (q W.store.db), W') ∧
      W'.store.db = W.store.db ∧ (W'.store.sessions i).writes = [] ∧
      (W'.store.sessions i).broken = false := by
  refine ⟨W.setStore (W.store.begin i W.clock), ?_, rfl, ?_, ?_⟩
  · rw [Service.select, Prog.run_perform]
    simp [undisturbed, opStep, World.ofStore, Store.select, Store.statement, hb, Store.view,
      Store.begin, hw, Except.mapError, World.setStore, Store.setSession]
  · simp [World.setStore, Store.begin, hw]
  · simp [World.setStore, Store.begin, hb]

/-- The rows session `j` has locked are the same. -/
def World.Locks (j : Nat) (W W' : World) : Prop :=
  ∀ t id, W.store.owner (.row t id) = some j → ∀ row, t.id row = id →
    (row ∈ W'.store.db t ↔ row ∈ W.store.db t)

namespace World.Locks

variable {i j : Nat} {W W' W'' : World}

theorem refl (j : Nat) (W : World) : Locks j W W := fun _ _ _ _ _ => Iff.rfl

theorem trans (hf : Store.Frame schema j W.store W'.store) (h : Locks j W W')
    (h' : Locks j W' W'') : Locks j W W'' := fun t id ho row hr =>
  (h' t id ((hf.owner _).mpr ho) row hr).trans (h t id ho row hr)

theorem of_db (h : W'.store.db = W.store.db) : Locks j W W' := fun _ _ _ _ _ => by rw [h]

/-- A commit changes no row another session has locked. -/
theorem of_committed (h : Store.Committed schema i W.store W'.store)
    (hl : W.store.LocksOk schema) (hj : j ≠ i) : Locks j W W' := fun t id ho row hr => by
  rw [h.db]
  refine Write.mem_foldl (fun w hw hk => ?_) _
  rw [hr] at hk
  exact hj (Option.some.inj (ho.symm.trans (hl i w hw _ hk)))

end World.Locks

/-- The rest of the system moves: rows of other tables, and all that is not the database. -/
structure Untouched (tables : List Table) (W W' : World) : Prop where
  rows : ∀ t ∈ tables, W'.store.db t = W.store.db t
  absent : ∀ k, W.store.owner k ≠ none → W.store.db.present k = false →
    W'.store.db.present k = false
  locked : ∀ j, World.Locks j W W'
  sessions : W'.store.sessions = W.store.sessions
  owner : W'.store.owner = W.store.owner
  wal : W'.store.wal = W.store.wal

namespace Untouched

variable {tables : List Table} {W W' : World}

theorem locksOk (h : Untouched tables W W') (hl : W.store.LocksOk schema) :
    W'.store.LocksOk schema := fun j w hw k hk => by
  rw [h.sessions] at hw
  rw [h.owner]
  exact hl j w hw k hk

theorem frame (h : Untouched tables W W') (j : Nat) :
    Store.Frame schema j W.store W'.store where
  session := by rw [h.sessions]
  owner k := by rw [h.owner]
  absent k hk hp := h.absent k (by rw [hk]; nofun) hp
  wal := ⟨[], by simp [h.wal], nofun⟩

end Untouched

/-! ## Outlines about the world -/

/-- An outline about the committed rows and what else of the world it looks at (module doc). -/
structure WorldOutline where
  inv : World → Prop
  frame : Nat → World → World → Prop
  /-- What it looks at outside the database did not change. -/
  same : World → World → Prop
  /-- The operations that change nothing there. -/
  blind : Op → Prop
  refl : ∀ j W, frame j W W
  trans : ∀ j {W W' W''}, Store.Frame schema j W.store W'.store → frame j W W' → frame j W' W'' →
    frame j W W''
  same_setStore : ∀ W s, same W (World.setStore W s)
  same_blind : ∀ {i c o W r W'}, blind o → opStep i c o W = some (r, W') → same W W'
  inv_local : ∀ {i W W'}, Store.Local i W.store W'.store → same W W' → inv W → inv W'
  frame_local : ∀ {i j W W'}, j ≠ i → Store.Local i W.store W'.store → same W W' → frame j W W'

/-- An outline about the database alone. -/
structure StoreOutline where
  inv : Store Db Write Key → Prop
  frame : Nat → Store Db Write Key → Store Db Write Key → Prop
  refl : ∀ j s, frame j s s
  trans : ∀ j {s s' s''}, Store.Frame schema j s s' → frame j s s' → frame j s' s'' → frame j s s''
  inv_local : ∀ {i s s'}, Store.Local i s s' → inv s → inv s'
  frame_local : ∀ {i j s s'}, j ≠ i → Store.Local i s s' → frame j s s'

def StoreOutline.world (T : StoreOutline) : WorldOutline where
  inv W := T.inv W.store
  frame j W W' := T.frame j W.store W'.store
  same _ _ := True
  blind _ := True
  refl j W := T.refl j W.store
  trans j _ _ _ h := T.trans j h
  same_setStore _ _ := trivial
  same_blind _ _ := trivial
  inv_local h _ hi := T.inv_local h hi
  frame_local hj h _ := T.frame_local hj h

namespace WorldOutline

variable (T : WorldOutline)

def outline : Outline World where
  inv W := W.store.LocksOk schema ∧ T.inv W
  frame j W W' := Store.Frame schema j W.store W'.store ∧ T.frame j W W'
  refl j _ := ⟨.refl j _, T.refl j _⟩
  trans j _ _ _ h h' := ⟨h.1.trans h'.1, T.trans j h.1 h.2 h'.2⟩

variable {T} {i : Nat}

theorem same_of_eq {W W' : World} (h : W' = W.setStore W'.store) : T.same W W' := by
  rw [h]
  exact T.same_setStore W _

theorem guar_local {W W' : World} (h : Store.Local i W.store W'.store) (hs : T.same W W')
    (hl : W'.store.LocksOk schema) (hi : T.outline.inv W) : T.outline.Guar i W W' :=
  ⟨⟨hl, T.inv_local h hs hi.2⟩, fun _ hj => ⟨h.frame hj, T.frame_local hj h hs⟩⟩

theorem guar_keeps {W W' : World} (h : Store.Keeps i W.store W'.store) (hs : T.same W W')
    (hi : T.outline.inv W) : T.outline.Guar i W W' := guar_local h.toLocal hs (h.locksOk hi.1) hi

theorem guar_dropped {W W' : World} (h : Store.Dropped i W.store W'.store) (hs : T.same W W')
    (hi : T.outline.inv W) : T.outline.Guar i W W' := guar_local h.toLocal hs (h.locksOk hi.1) hi

theorem guar_wrote {W W' : World} {t : Nat} {w : Write}
    (h : Store.Wrote schema i t w W.store W'.store) (hs : T.same W W') (hi : T.outline.inv W) :
    T.outline.Guar i W W' := guar_local h.toLocal hs (h.locksOk hi.1) hi

theorem guar_close {W : World} (hi : T.outline.inv W) :
    T.outline.Guar i W (W.closeSession i) :=
  guar_dropped (Store.dropped_rollback _ i) (T.same_setStore W _) hi

/-- The outline looks neither at the queue nor at who runs what. -/
def Unaware (T : WorldOutline) : Prop :=
  ∀ (W : World) s q b, T.same W { W with store := s, queue := q, bodies := b }

theorem dropped_accept (W : World) (i : Nat) (m : Option TaskMessage) :
    Store.Dropped i W.store (W.accept i m).store := Store.dropped_rollback W.store i

theorem dropped_settle (W : World) (i : Nat) (again : Bool) :
    Store.Dropped i W.store (W.settle i again).store := Store.dropped_rollback W.store i

/-- What holds of the session's uncommitted writes. -/
def Writes (T : WorldOutline) (i : Nat) (φ : List Write → Prop) : T.outline.Assertion i :=
  ⟨fun W => φ (W.store.sessions i).writes, fun _ _ h hm => by rwa [hm.2.1.session]⟩

/-- Nothing is committed in the thread's name. -/
def NoCommit (T : WorldOutline) (i : Nat) : T.outline.Assertion i :=
  ⟨fun W => ∀ c ∈ W.store.wal, c.1 ≠ i, fun _ _ h hm c hc => by
    obtain ⟨more, hw, hn⟩ := hm.2.1.wal
    rw [hw] at hc
    rcases List.mem_append.mp hc with hc | hc
    · exact h c hc
    · exact hn c hc⟩

/-- The session holds a key no committed row has. -/
def Reserved (T : WorldOutline) (i : Nat) (k : Key) : T.outline.Assertion i :=
  ⟨fun W => W.store.owner k = some i ∧ W.store.db.present k = false, fun _ _ h hm =>
    ⟨(hm.2.1.owner k).mpr h.1, hm.2.1.absent k h.1 h.2⟩⟩

/-! ## Rules for the operations -/

section Rules

variable {admits : Admission} {ρ : Exn → Prop}
variable {A : T.outline.Assertion i} {E : Exn → T.outline.Assertion i} {α : Type}

/-- `A` is about the session's own writes, its locks, the committed rows and what the outline looks
at, and `E` is what is left of it when an exception of `ρ` is raised, or one from outside with which
the session may lose its transaction. -/
structure Local (ρ : Exn → Prop) (A : T.outline.Assertion i) (E : Exn → T.outline.Assertion i) :
    Prop where
  keeps : ∀ {W W'}, Store.Keeps i W.store W'.store → T.same W W' → A W → A W'
  error : ∀ e {W}, ρ e ∨ e.isOutside = true → A W → E e W
  dropped : ∀ e {W W'}, ρ e ∨ e.isOutside = true → Store.Dropped i W.store W'.store →
    T.same W W' → A W → E e W'

/-- What an operation that raises leaves of a session: all it had, or an unusable one. -/
def Left (i : Nat) (W W' : World) : Prop :=
  Store.Keeps i W.store W'.store ∨
    Store.Dropped i W.store W'.store ∧ (W'.store.sessions i).broken = true

/-- `A` as in `Local`, where what is left may depend on the operation that raises and on the choice
that made it. -/
structure LocalAt (admits : Admission) (A : T.outline.Assertion i)
    (E : Exn → T.outline.Assertion i) : Prop where
  keeps : ∀ {W W'}, Store.Keeps i W.store W'.store → T.same W W' → A W → A W'
  raise : ∀ {o c e W W'}, T.outline.inv W → A W → admits i W o c → (∀ w, o ≠ .write w) →
    opStep i c o W = some (.error e, W') → Left i W W' → T.same W W' → E e W'

theorem Local.at (hA : Local ρ A E) : LocalAt admits A E where
  keeps := hA.keeps
  raise := fun {o c e W W'} _ h _ hw hst hl hs => by
    have hout := opStep_raises hst hw
    rcases hl with hk | ⟨hd, -⟩
    · exact hA.error e (.inr hout) (hA.keeps hk hs h)
    · exact hA.dropped e (.inr hout) hd hs h

/-- An operation that only reads, draws, or acts outside the database. -/
theorem quietOp {o : Op} {B : o.Res → T.outline.Assertion i} (hA : LocalAt admits A E)
    (ho : o.Quiet) (hb : ∀ {c W r W'}, opStep i c o W = some (r, W') → T.same W W')
    (hB : ∀ W c a W', T.outline.inv W → A W → opStep i c o W = some (.ok a, W') →
      Store.Keeps i W.store W'.store → T.same W W' → B a W') :
    Triple (callStep admits i) A (Lib.Prog.perform o) B E :=
  Triple.op fun W r W' hi h ⟨c, hadm, hst⟩ => by
    have hs := hb hst
    have hw : ∀ w, o ≠ .write w := fun w hw => by subst hw; exact ho
    rcases opStep_store hst ho with hk | ⟨hd, hbr, e, rfl⟩
    · refine ⟨guar_keeps hk hs hi, ?_⟩
      rcases r with e | a
      · exact hA.raise hi h hadm hw hst (.inl hk) hs
      · exact hB W c a W' hi h hst hk hs
    · exact ⟨guar_dropped hd hs hi, hA.raise hi h hadm hw hst (.inr ⟨hd, hbr⟩) hs⟩

/-- Reads, draws and what the outline is blind to, in a piece without handlers, leave what a session
knows. -/
theorem quietAt {φ : Op → Prop} {p : Service α} (hp : p.Straight φ ρ)
    (hφ : ∀ o, φ o → o.Quiet ∧ T.blind o) (hA : LocalAt admits A E)
    (hρ : ∀ e W, ρ e → A W → E e W) : Triple (callStep admits i) A p (fun _ => A) E :=
  Triple.straight hp (fun e W _ he h => hρ e W he h)
    fun o W r W' ho hi h ⟨c, hadm, hst⟩ => by
      obtain ⟨hq, hb⟩ := hφ o ho
      have hs := T.same_blind hb hst
      have hw : ∀ w, o ≠ .write w := fun w hw => by subst hw; exact hq
      rcases opStep_store hst hq with hk | ⟨hd, hbr, e, rfl⟩
      · refine ⟨guar_keeps hk hs hi, ?_⟩
        rcases r with e | a
        · exact hA.raise hi h hadm hw hst (.inl hk) hs
        · exact hA.keeps hk hs h
      · exact ⟨guar_dropped hd hs hi, hA.raise hi h hadm hw hst (.inr ⟨hd, hbr⟩) hs⟩

theorem selectAt {β : Type} {q : Db → β} {B : β → T.outline.Assertion i} (hA : LocalAt admits A E)
    (hB : ∀ W W', T.outline.inv W → A W → Store.Keeps i W.store W'.store → T.same W W' →
      B (q (W.store.view schema i)) W') :
    Triple (callStep admits i) A (Service.select q) B E :=
  quietOp hA trivial (fun h => same_of_eq (select_step h).2) fun W c a W' hi h hst hk hs => by
    rcases (select_step hst).1 with ⟨-, ha⟩ | ⟨-, -, e, he⟩
    · rw [ha a rfl]
      exact hB W W' hi h hk hs
    · cases he

theorem selectForUpdateAt {t : Table} {q : Db → Option t.Row}
    {B : Option t.Row → T.outline.Assertion i} (hA : LocalAt admits A E)
    (hB : ∀ W W', T.outline.inv W → A W → Store.Keeps i W.store W'.store → T.same W W' →
      (∀ row, q (W.store.view schema i) = some row →
        W'.store.owner (.row t (t.id row)) = some i) → B (q (W.store.view schema i)) W') :
    Triple (callStep admits i) A (Service.selectForUpdate t q) B E :=
  quietOp hA trivial (fun h => same_of_eq (selectForUpdate_step h).2)
    fun W c a W' hi h hst hk hs => by
      rcases (selectForUpdate_step hst).1 with ⟨-, ha⟩ | ⟨-, -, e, he⟩
      · obtain ⟨rfl, hl⟩ := ha a rfl
        exact hB W W' hi h hk hs hl
      · cases he

theorem quiet {φ : Op → Prop} {p : Service α} (hp : p.Straight φ ρ)
    (hφ : ∀ o, φ o → o.Quiet ∧ T.blind o) (hA : Local ρ A E) :
    Triple (callStep admits i) A p (fun _ => A) E :=
  quietAt hp hφ hA.at fun e _ he h => hA.error e (.inl he) h

theorem select {β : Type} {q : Db → β} {B : β → T.outline.Assertion i} (hA : Local ρ A E)
    (hB : ∀ W W', T.outline.inv W → A W → Store.Keeps i W.store W'.store → T.same W W' →
      B (q (W.store.view schema i)) W') :
    Triple (callStep admits i) A (Service.select q) B E := selectAt hA.at hB

theorem selectForUpdate {t : Table} {q : Db → Option t.Row}
    {B : Option t.Row → T.outline.Assertion i} (hA : Local ρ A E)
    (hB : ∀ W W', T.outline.inv W → A W → Store.Keeps i W.store W'.store → T.same W W' →
      (∀ row, q (W.store.view schema i) = some row →
        W'.store.owner (.row t (t.id row)) = some i) → B (q (W.store.view schema i)) W') :
    Triple (callStep admits i) A (Service.selectForUpdate t q) B E := selectForUpdateAt hA.at hB

/-- Reading a row back. -/
theorem refresh {t : Table} {id : UUID} (hA : Local ρ A E) (hρ : ρ .invalidRequest) :
    Triple (callStep admits i) A (Service.refresh t id) (fun row => A.and (.pure (t.id row = id)))
      E := by
  refine Triple.bind (M := fun found => A.and (.pure (∀ row, found = some row → t.id row = id)))
    (select hA fun W W' _ h hk hs => ⟨hA.keeps hk hs h, fun row hr => Db.id_of_get hr⟩)
    fun found => Triple.assume fun hfound => ?_
  rcases found with _ | row
  · exact Triple.raise fun W _ h => hA.error _ (.inl hρ) h
  · exact Triple.ret fun W _ h => ⟨h, hfound row rfl⟩

/-- A write is added to the session's own, or the statement raises: cancelled once it was added, or
with an unusable session. -/
theorem writeAt {w : Write} {B : Unit → T.outline.Assertion i}
    (hB : ∀ W W' t, T.outline.inv W → A W → Store.Wrote schema i t w W.store W'.store →
      T.same W W' → B () W')
    (hE : ∀ W c e W', T.outline.inv W → A W → admits i W (.write w) c →
      opStep i c (.write w) W = some (.error e, W') → T.same W W' →
      (∃ t, Store.Wrote schema i t w W.store W'.store) ∧ e = .cancelled ∨
        (Store.Keeps i W.store W'.store ∨ Store.Dropped i W.store W'.store) ∧
          (W'.store.sessions i).broken = true → E e W') :
    Triple (callStep admits i) A (Lib.Prog.perform (Op.write w)) B E :=
  Triple.op fun W r W' hi h ⟨c, hadm, hst⟩ => by
    obtain ⟨hspec, heq⟩ := write_step hst
    have hs : T.same W W' := same_of_eq heq
    rcases hspec with ⟨⟨t, hw⟩, hr⟩ | ⟨hl, hbr, e, rfl⟩
    · refine ⟨guar_wrote hw hs hi, ?_⟩
      rcases hr with rfl | rfl
      · exact hB W W' t hi h hw hs
      · exact hE W c _ W' hi h hadm hst hs (.inl ⟨⟨t, hw⟩, rfl⟩)
    · refine ⟨?_, hE W c e W' hi h hadm hst hs (.inr ⟨hl, hbr⟩)⟩
      rcases hl with hk | hd
      · exact guar_keeps hk hs hi
      · exact guar_dropped hd hs hi

theorem write {w : Write} {B : Unit → T.outline.Assertion i} (hA : Local (fun _ => True) A E)
    (hB : ∀ W W' t, T.outline.inv W → A W → Store.Wrote schema i t w W.store W'.store →
      T.same W W' → B () W')
    (hE : ∀ e W, B () W → E e W) :
    Triple (callStep admits i) A (Lib.Prog.perform (Op.write w)) B E :=
  writeAt hB fun W c e W' hi h _ _ hs hl => by
    rcases hl with ⟨⟨t, hw⟩, -⟩ | ⟨hk | hd, -⟩
    · exact hE e W' (hB W W' t hi h hw hs)
    · exact hA.error e (.inl trivial) (hA.keeps hk hs h)
    · exact hA.dropped e (.inl trivial) hd hs h

/-- A commit that took effect raises nothing the program knows. -/
theorem raise_outside {B : T.outline.Assertion i} (h : ∀ e W, e.isOutside = true → B W → E e W) :
    ∀ e W c, admits i W .commit c → e = .databaseError ∧ c.fault = some .lostReply ∨
      e = .cancelled ∧ c.fault = some .cancelledAfter → ∀ W', B W' → E e W' := by
  rintro e W c - (⟨rfl, -⟩ | ⟨rfl, -⟩) W' hB
  · exact h _ W' rfl hB
  · exact h _ W' rfl hB

/-- A commit: what has to be shown of it is about the committed rows. A commit that raises may have
taken effect, but then the reply was lost or the task cancelled. -/
theorem commitAt {B : Unit → T.outline.Assertion i}
    (hB : ∀ W c W', T.outline.inv W → A W → admits i W .commit c →
      Store.Committed schema i W.store W'.store → T.same W W' →
      T.inv W' ∧ (∀ j, j ≠ i → T.frame j W W') ∧ B () W')
    (hE : ∀ W c e W', T.outline.inv W → A W → admits i W .commit c →
      opStep i c .commit W = some (.error e, W') → T.same W W' →
      B () W' ∧ (e = .databaseError ∧ c.fault = some .lostReply ∧
          (W'.store.sessions i).broken = true ∨
        e = .cancelled ∧ c.fault = some .cancelledAfter) ∨
      (Store.Keeps i W.store W'.store ∨ Store.Dropped i W.store W'.store) ∧
        (W'.store.sessions i).broken = true → E e W') :
    Triple (callStep admits i) A Service.commit B E :=
  Triple.op fun W r W' hi h ⟨c, hadm, hst⟩ => by
    obtain ⟨hspec, -, heq⟩ := commit_step hst
    have hs : T.same W W' := same_of_eq heq
    rcases hspec with ⟨hc, hr⟩ | ⟨hl, hbr, e, rfl⟩
    · obtain ⟨hI, hF, hq⟩ := hB W c W' hi h hadm hc hs
      refine ⟨⟨⟨hc.locksOk hi.1, hI⟩, fun j hj => ⟨hc.frame hi.1 hj, hF j hj⟩⟩, ?_⟩
      rcases hr with rfl | ⟨rfl, hf, hbr⟩ | ⟨rfl, hf⟩
      · exact hq
      · exact hE W c _ W' hi h hadm hst hs (.inl ⟨hq, .inl ⟨rfl, hf, hbr⟩⟩)
      · exact hE W c _ W' hi h hadm hst hs (.inl ⟨hq, .inr ⟨rfl, hf⟩⟩)
    · refine ⟨?_, hE W c e W' hi h hadm hst hs (.inr ⟨hl, hbr⟩)⟩
      rcases hl with hk | hd
      · exact guar_keeps hk hs hi
      · exact guar_dropped hd hs hi

theorem commit {B : Unit → T.outline.Assertion i} (hA : Local (fun _ => True) A E)
    (hB : ∀ W W', T.outline.inv W → A W → Store.Committed schema i W.store W'.store →
      T.same W W' → T.inv W' ∧ (∀ j, j ≠ i → T.frame j W W') ∧ B () W')
    (hE : ∀ e W c, admits i W .commit c → e = .databaseError ∧ c.fault = some .lostReply ∨
      e = .cancelled ∧ c.fault = some .cancelledAfter → ∀ W', B () W' → E e W') :
    Triple (callStep admits i) A Service.commit B E :=
  commitAt (fun W _ W' hi h _ hc hs => hB W W' hi h hc hs) fun W c e W' hi h hadm _ hs hl => by
    rcases hl with ⟨hq, he⟩ | ⟨hk | hd, -⟩
    · exact hE e W c hadm (he.imp (fun h => ⟨h.1, h.2.1⟩) id) W' hq
    · exact hA.error e (.inl trivial) (hA.keeps hk hs h)
    · exact hA.dropped e (.inl trivial) hd hs h

/-- A rollback, of which a cancelled task may see nothing. -/
theorem rollbackAt {B : Unit → T.outline.Assertion i}
    (hB : ∀ W W', T.outline.inv W → A W → Store.Dropped i W.store W'.store → T.same W W' →
      B () W')
    (hE : ∀ W c e W', T.outline.inv W → A W → admits i W .rollback c →
      opStep i c .rollback W = some (.error e, W') → T.same W W' →
      Store.Keeps i W.store W'.store ∨ Store.Dropped i W.store W'.store → E e W') :
    Triple (callStep admits i) A Service.rollback B E :=
  Triple.op fun W r W' hi h ⟨c, hadm, hst⟩ => by
    rcases (rollback_step hst).1 with rfl | ⟨rfl, e, rfl⟩
    · have hd : Store.Dropped i W.store (W.closeSession i).store := Store.dropped_rollback _ i
      have hs : T.same W (W.closeSession i) := T.same_setStore W _
      refine ⟨guar_dropped hd hs hi, ?_⟩
      cases r with
      | ok u => exact hB W _ hi h hd hs
      | error e => exact hE W c e _ hi h hadm hst hs (.inr hd)
    · have hs : T.same W' W' := same_of_eq rfl
      exact ⟨guar_keeps (.refl i _) hs hi, hE W' c e W' hi h hadm hst hs (.inl (.refl i _))⟩

theorem rollback {B : Unit → T.outline.Assertion i} (hA : Local ρ A E)
    (hB : ∀ W W', T.outline.inv W → A W → Store.Dropped i W.store W'.store → T.same W W' →
      B () W') :
    Triple (callStep admits i) A Service.rollback B E :=
  rollbackAt hB fun W c e W' _ h _ hst hs hl => by
    have hout := opStep_raises hst fun _ h => by cases h
    rcases hl with hk | hd
    · exact hA.error e (.inr hout) (hA.keeps hk hs h)
    · exact hA.dropped e (.inr hout) hd hs h

section Straight

variable {ψ : Write → Prop}

/-- Whatever a statement short of a commit does, the session's own writes satisfy `ψ`. -/
theorem step_writing (hψ : ∀ w τ, ψ w → ψ (w.stamp τ)) {o : Op} (ho : o.Writing ψ)
    (hc : o ≠ .commit) (hb : o.Quiet → T.blind o) {c : Choice} {W W' : World}
    {r : Except Exn o.Res} (hst : opStep i c o W = some (r, W')) (hi : T.outline.inv W)
    (h : ∀ w ∈ (W.store.sessions i).writes, ψ w) :
    T.outline.Guar i W W' ∧ ∀ w ∈ (W'.store.sessions i).writes, ψ w := by
  have keeps (hk : Store.Keeps i W.store W'.store) (hs : T.same W W') :
      T.outline.Guar i W W' ∧ ∀ w ∈ (W'.store.sessions i).writes, ψ w :=
    ⟨guar_keeps hk hs hi, by rw [hk.writes]; exact h⟩
  have dropped (hd : Store.Dropped i W.store W'.store) (hs : T.same W W') :
      T.outline.Guar i W W' ∧ ∀ w ∈ (W'.store.sessions i).writes, ψ w :=
    ⟨guar_dropped hd hs hi, by simp [hd.writes]⟩
  by_cases hw : ∃ w, o = .write w
  · obtain ⟨w, rfl⟩ := hw
    have hψw : ψ w := ho
    obtain ⟨hspec, heq⟩ := write_step hst
    have hs : T.same W W' := same_of_eq heq
    rcases hspec with ⟨⟨τ, hwrote⟩, -⟩ | ⟨hk | hd, -⟩
    · refine ⟨guar_wrote hwrote hs hi, ?_⟩
      rw [hwrote.writes]
      intro w' hw'
      rcases List.mem_append.mp hw' with hw' | hw'
      · exact h w' hw'
      · obtain rfl := List.mem_singleton.mp hw'
        exact hψ w τ hψw
    · exact keeps hk hs
    · exact dropped hd hs
  · have hquiet : o.Quiet := by
      cases o <;> first | trivial | exact absurd ⟨_, rfl⟩ hw
    have hs := T.same_blind (hb hquiet) hst
    rcases opStep_store hst hquiet with hk | ⟨hd, -⟩
    · exact keeps hk hs
    · exact dropped hd hs

/-- The rule of a straight line of reads, writes of `ψ` and commits. -/
theorem straight (hψ : ∀ w τ, ψ w → ψ (w.stamp τ)) (hb : ∀ o, o.Quiet → T.blind o)
    {p : Service α} (hp : p.Straight (Op.Writing ψ) fun _ => True)
    (hcommit : ∀ W W' : World, T.outline.inv W → (∀ w ∈ (W.store.sessions i).writes, ψ w) →
      Store.Committed schema i W.store W'.store → T.same W W' →
      T.inv W' ∧ ∀ j, T.frame j W W') :
    Triple (callStep admits i) (T.Writes i fun ws => ∀ w ∈ ws, ψ w) p
      (fun _ => T.Writes i fun ws => ∀ w ∈ ws, ψ w) (fun _ => .true) := by
  refine Triple.straight hp (fun _ _ _ _ _ => trivial) fun o W r W' ho hi h ⟨c, _, hst⟩ => ?_
  have hout (hg : T.outline.Guar i W W') (hw : ∀ w ∈ (W'.store.sessions i).writes, ψ w) :
      T.outline.Guar i W W' ∧
        post (fun _ => T.Writes i fun ws => ∀ w ∈ ws, ψ w) (fun _ => .true) r W' := by
    rcases r with e | a
    · exact ⟨hg, trivial⟩
    · exact ⟨hg, hw⟩
  by_cases hc : o = .commit
  · subst hc
    obtain ⟨hspec, -, heq⟩ := commit_step hst
    have hs : T.same W W' := same_of_eq heq
    rcases hspec with ⟨hcom, -⟩ | ⟨hk | hd, -⟩
    · obtain ⟨hinv, hframe⟩ := hcommit W W' hi h hcom hs
      exact hout ⟨⟨hcom.locksOk hi.1, hinv⟩, fun j hj => ⟨hcom.frame hi.1 hj, hframe j⟩⟩
        (by simp [hcom.writes])
    · exact hout (guar_keeps hk hs hi) (by rw [hk.writes]; exact h)
    · exact hout (guar_dropped hd hs hi) (by simp [hd.writes])
  · obtain ⟨hg, hw⟩ := step_writing hψ ho hc (hb o) hst hi h
    exact hout hg hw

end Straight

end Rules

/-! ## Calls that commit once

Until its commit a call knows that nothing is committed in its name, what its session has written,
and what its locks protect (`Before`); an exception raised there leaves the first of these. -/

section Once

/-- What a session knows by the locks it holds: nothing it does short of its commit changes it. -/
def Own (X : T.outline.Assertion i) : Prop :=
  ∀ {W W' : World}, Store.Local i W.store W'.store →
    (∀ k, W.store.owner k = some i → W'.store.owner k = some i) → T.same W W' → X W → X W'

theorem own_true : Own (T := T) (i := i) .true := fun _ _ _ _ => trivial

theorem own_reserved (k : Key) : Own (T.Reserved i k) := fun hl ho _ h =>
  ⟨ho k h.1, by rw [hl.db]; exact h.2⟩

theorem Own.and {X Y : T.outline.Assertion i} (hX : Own X) (hY : Own Y) : Own (X.and Y) :=
  fun hl ho hs h => ⟨hX hl ho hs h.1, hY hl ho hs h.2⟩

/-- What a call knows before its commit. -/
def Before (X : T.outline.Assertion i) (φ : List Write → Prop) : T.outline.Assertion i :=
  (T.NoCommit i).and (X.and (T.Writes i φ))

variable {admits : Admission} {ρ : Exn → Prop}
variable {X : T.outline.Assertion i} {φ φ' : List Write → Prop}
variable {E : Exn → T.outline.Assertion i} {α : Type}

/-- Before anything is written a session sees the committed rows. -/
theorem view_eq {W : World} (h : (W.store.sessions i).writes = []) :
    W.store.view schema i = W.store.db := by rw [Store.view, h]; rfl

theorem noCommit_local {W W' : World} (h : Store.Local i W.store W'.store)
    (hn : T.NoCommit i W) : T.NoCommit i W' := fun c hc => hn c (by rwa [← h.wal])

theorem before_keeps (hX : Own X) {W W' : World} (hk : Store.Keeps i W.store W'.store)
    (hs : T.same W W') (h : Before X φ W) : Before X φ W' :=
  ⟨noCommit_local hk.toLocal h.1, hX hk.toLocal hk.own hs h.2.1, by
    have := h.2.2
    simpa only [Writes, hk.writes] using this⟩

theorem local_raising (hX : Own X)
    (hE : ∀ e W, ρ e ∨ e.isOutside = true → T.NoCommit i W → E e W) : Local ρ (Before X φ) E where
  keeps := before_keeps hX
  error e W he h := hE e W he h.1
  dropped e _ _ he hd _ h := hE e _ he (noCommit_local hd.toLocal h.1)

theorem local_before (hX : Own X) (hE : ∀ e W, T.NoCommit i W → E e W) : Local ρ (Before X φ) E :=
  local_raising hX fun e W _ => hE e W

/-- The rule of a write before the commit. -/
theorem addWrite {w : Write} (hX : Own X) (hE : ∀ e W, T.NoCommit i W → E e W)
    (hφ : ∀ ws t, φ ws → φ' (ws ++ [w.stamp t])) :
    Triple (callStep admits i) (Before X φ) (Lib.Prog.perform (Op.write w))
      (fun _ => Before X φ') E :=
  write (local_before hX hE)
    (fun W W' t _ h hw hs => ⟨noCommit_local hw.toLocal h.1, hX hw.toLocal hw.own hs h.2.1, by
      show φ' (W'.store.sessions i).writes
      rw [hw.writes]
      exact hφ _ t h.2.2⟩)
    fun e W h => hE e W h.1

/-- The rule of an insert into a table the transaction has not written to: its keys are now
reserved. -/
theorem addInsert {t : Table} {row : t.Row} {k : Key} (hk : k ∈ t.keys row) (hX : Own X)
    (hφ : ∀ ws, φ ws → ∀ w ∈ ws, t ≠ w.table) (hE : ∀ e W, T.NoCommit i W → E e W) :
    Triple (callStep admits i) (Before X φ) (Service.insert t row)
      (fun _ => Before (X.and (T.Reserved i k)) fun ws => ∃ ws₁ τ, φ ws₁ ∧
        ws = ws₁ ++ [(Write.insert t row).stamp τ]) E :=
  write (local_before hX hE)
    (fun W W' τ _ h hw hs => by
      have habs : Db.present k W'.store.db = false := by
        have hf : Db.present k (W.store.view schema i) = false := hw.fresh k hk
        have htab : k.table = t := Table.table_of_mem_keys hk
        subst htab
        have hview : W.store.view schema i k.table = W.store.db k.table :=
          Write.foldl_other (hφ _ h.2.2) _
        rw [hw.db]
        rwa [Db.present, hview] at hf
      exact ⟨noCommit_local hw.toLocal h.1, ⟨hX hw.toLocal hw.own hs h.2.1, hw.keys k hk, habs⟩,
        _, τ, h.2.2, hw.writes⟩)
    fun e W h => hE e W h.1

/-- The rule of the commit. -/
theorem commitOnce {B : Unit → T.outline.Assertion i} (hX : Own X)
    (hE : ∀ e W, T.NoCommit i W → E e W)
    (hraise : ∀ e W c, admits i W .commit c → e = .databaseError ∧ c.fault = some .lostReply ∨
      e = .cancelled ∧ c.fault = some .cancelledAfter → ∀ W', B () W' → E e W')
    (hB : ∀ W W' : World, T.outline.inv W → X W → φ (W.store.sessions i).writes →
      Store.Committed schema i W.store W'.store → T.same W W' →
      T.inv W' ∧ (∀ j, j ≠ i → T.frame j W W') ∧ B () W') :
    Triple (callStep admits i) (Before X φ) Service.commit B E :=
  commit (local_before hX hE) (fun W W' hi h hc hs => hB W W' hi h.2.1 h.2.2 hc hs) hraise

end Once

/-! ## Adequacy -/

variable {C : Calls} {may : Nat → C.Call → Prop} {admits : Admission}
variable {env : World → World → Prop}
variable {F : Nat → (c : C.Call) → Except Exn (C.Ret c) → World → Prop}

/-- A family of calls meets an outline when each of them does from what is known at its start. -/
theorem adequate (A : ∀ i, C.Call → T.outline.Assertion i)
    (B : ∀ i (c : C.Call), C.Ret c → T.outline.Assertion i)
    (E : ∀ i, C.Call → Exn → T.outline.Assertion i)
    (hstart : ∀ i c W, T.outline.inv W → (C.system may admits env).canStart i c W →
      T.outline.Guar i W (W.accept i (C.message c)) ∧ A i c (W.accept i (C.message c)))
    (hcall : ∀ i c, may i c → Triple (callStep admits i) (A i c) (C.prog c) (B i c) (E i c))
    (hfinish : ∀ i c r W, T.outline.inv W → post (B i c) (E i c) r W →
      T.outline.Guar i W (W.settle i (C.retries c r)) ∧ F i c r (W.settle i (C.retries c r)))
    (hFstable : ∀ i c r W W', F i c r W → T.outline.Moved i W W' → F i c r W')
    (hcrash : ∀ i W, T.outline.inv W → T.outline.Guar i W (W.settle i true))
    (henv : ∀ W W', T.outline.inv W → env W W' →
      T.outline.inv W' ∧ ∀ j, T.outline.frame j W W') :
    T.outline.Ok (C.system may admits env) (fun i c => post (B i c) (E i c)) F where
  start i c W hi hc := by
    obtain ⟨hg, hA⟩ := hstart i c W hi hc
    exact ⟨hg, hcall i c hc.1 _ hg.1 hA⟩
  finish i c r W hi h := hfinish i c r W hi h
  stable i c r W W' := hFstable i c r W W'
  crash i c W hi := hcrash i W hi
  env W W' := henv W W'

/-- Where the outline does not look at the queue, each call starts from a fresh session. -/
theorem sound (hT : Unaware T) (B : ∀ i (c : C.Call), C.Ret c → T.outline.Assertion i)
    (E : ∀ i, C.Call → Exn → T.outline.Assertion i)
    (hcall : ∀ i c, may i c → Triple (callStep admits i) (Before .true (· = [])) (C.prog c)
      (B i c) (E i c))
    (hF : ∀ i c r W again, post (B i c) (E i c) r W → F i c r (W.settle i again))
    (hFstable : ∀ i c r W W', F i c r W → T.outline.Moved i W W' → F i c r W')
    (henv : ∀ W W', T.outline.inv W → env W W' →
      T.outline.inv W' ∧ ∀ j, T.outline.frame j W W') :
    T.outline.Ok (C.system may admits env) (fun i c => post (B i c) (E i c)) F := by
  have hsettle (i : Nat) (W : World) (again : Bool) (hi : T.outline.inv W) :
      T.outline.Guar i W (W.settle i again) := guar_dropped (dropped_settle W i again) (hT ..) hi
  refine adequate (fun i _ => Before .true (· = [])) B E (fun i c W hi hc => ?_) hcall
    (fun i c r W hi h => ⟨hsettle i W _ hi, hF i c r W _ h⟩) hFstable
    (fun i W hi => hsettle i W true hi) henv
  have hd := dropped_accept W i (C.message c)
  exact ⟨guar_dropped hd (hT ..) hi, hc.2.1.1, trivial, hd.writes⟩

/-! ## Calls known by what they write -/

section Writes

variable {T : WorldOutline} {i : Nat} {admits : Admission} {ψ : Write → Prop} {α : Type}

/-- The rule of a program that writes only `ψ`, handlers included. -/
theorem writes (hψ : ∀ w τ, ψ w → ψ (w.stamp τ)) (hb : ∀ o, o.Quiet → T.blind o)
    {p : Service α} {Q : α → Prop} (hp : p.Within (Op.Writes ψ) Q)
    (hcommit : ∀ W W' : World, T.outline.inv W → (∀ w ∈ (W.store.sessions i).writes, ψ w) →
      Store.Committed schema i W.store W'.store → T.same W W' →
      T.inv W' ∧ ∀ j, T.frame j W W') :
    Triple (callStep admits i) (T.Writes i fun ws => ∀ w ∈ ws, ψ w) p
      (fun _ => T.Writes i fun ws => ∀ w ∈ ws, ψ w)
      (fun _ => T.Writes i fun ws => ∀ w ∈ ws, ψ w) := by
  refine Triple.within hp fun o W r W' ho hi h ⟨c, _, hst⟩ => ?_
  by_cases hc : o = .commit
  · subst hc
    obtain ⟨hspec, -, heq⟩ := commit_step hst
    have hs : T.same W W' := same_of_eq heq
    rcases hspec with ⟨hcom, -⟩ | ⟨hk | hd, -⟩
    · obtain ⟨hinv, hframe⟩ := hcommit W W' hi h hcom hs
      refine ⟨⟨⟨hcom.locksOk hi.1, hinv⟩, fun j hj => ⟨hcom.frame hi.1 hj, hframe j⟩⟩, ?_⟩
      simp [WorldOutline.Writes, hcom.writes]
    · refine ⟨guar_keeps hk hs hi, ?_⟩
      simp only [WorldOutline.Writes, hk.writes]
      exact h
    · refine ⟨guar_dropped hd hs hi, ?_⟩
      simp [WorldOutline.Writes, hd.writes]
  · by_cases hr : o = .rollback
    · subst hr
      rcases (rollback_step hst).1 with rfl | ⟨rfl, -⟩
      · refine ⟨guar_close hi, ?_⟩
        simp [WorldOutline.Writes, (Store.dropped_rollback W.store i).writes,
          World.closeSession, World.setStore]
      · exact ⟨guar_keeps (.refl i _) (same_of_eq rfl) hi, h⟩
    · have hw : o.Writing ψ := by
        cases o <;> first | exact ho | trivial
      exact step_writing hψ hw hc (hb o) hst hi h

end Writes

end WorldOutline

/-- The outline of a property of the committed rows. -/
def StoreOutline.keeping (good : Db → Prop) : StoreOutline where
  inv s := good s.db
  frame _ _ _ := True
  refl _ _ := trivial
  trans _ _ _ _ _ _ _ := trivial
  inv_local h hi := by rwa [h.db]
  frame_local _ _ := trivial

/-- **Calls whose every write keeps a property of the committed rows keep it.** -/
theorem Calls.keeps (C : Calls) {may : Nat → C.Call → Prop} {admits : Admission}
    {good : Db → Prop} {ψ : Write → Prop} {tables : List Table}
    (hψ : ∀ w τ, ψ w → ψ (w.stamp τ)) (happly : ∀ w db, ψ w → good db → good (w.apply db))
    (hgood : ∀ db db' : Db, (∀ t ∈ tables, db' t = db t) → good db → good db')
    (hcall : ∀ i c, may i c → (C.prog c).Within (Op.Writes ψ) fun _ => True)
    {W₀ : World} (hq : W₀.Quiet) (h₀ : good W₀.store.db)
    {pool : (C.system may admits (Untouched tables)).Pool} (h : System.Reachable W₀ pool) :
    good pool.shared.store.db := by
  have hfold : ∀ (ws : List Write) db, (∀ w ∈ ws, ψ w) → good db →
      good (ws.foldl (fun db w => w.apply db) db) := by
    intro ws
    induction ws with
    | nil => exact fun _ _ h => h
    | cons w ws ih =>
      intro db hws hdb
      rw [List.forall_mem_cons] at hws
      exact ih _ hws.2 (happly w db hws.1 hdb)
  let T := (StoreOutline.keeping good).world
  have hok : T.outline.Ok (C.system may admits (Untouched tables))
      (fun i _ => post (fun _ => T.Writes i fun ws => ∀ w ∈ ws, ψ w)
        (fun _ => T.Writes i fun ws => ∀ w ∈ ws, ψ w)) fun _ _ _ _ => True :=
    WorldOutline.sound (fun _ _ _ _ => trivial) _ _
      (fun i c hm => (WorldOutline.writes hψ (fun _ _ => trivial) (hcall i c hm)
        fun W W' hi hw hc _ => ⟨by
          show good W'.store.db
          rw [hc.db]
          exact hfold _ _ hw hi.2, fun _ => trivial⟩).pre fun W _ hb w hw => by
        rw [show (W.store.sessions i).writes = [] from hb.2.2] at hw
        cases hw)
      (fun _ _ _ _ _ _ => trivial) (fun _ _ _ _ _ _ _ => trivial)
      fun W W' hi henv => ⟨⟨henv.locksOk hi.1, hgood _ _ henv.rows hi.2⟩,
        fun j => ⟨henv.frame j, trivial⟩⟩
  exact (hok.sound ⟨fun j w hw => by simp [hq.sessions] at hw, h₀⟩ h).inv.2

end Ticketing
