import Mathlib.Data.List.Basic
import Mathlib.Logic.Function.Basic

/-!
# A relational store with READ COMMITTED transactions

The part of a database that concurrency arguments need, over any rows and any writes:

* a session's writes stay private until its commit, and are applied to whatever is committed then;
* a statement sees the rows committed when it runs, under the session's own writes;
* a write takes an exclusive lock on its keys (the row it changes, the unique values it inserts) and
  keeps it to the end of the transaction; a statement that needs a key another transaction holds
  waits, which is `none` here;
* a write that would duplicate a unique value fails, and the failure rolls the transaction back;
* a session whose flush or commit failed refuses everything until it is rolled back.

A `Schema` says what the writes are. `owner` maps a key to the one session that holds it, so two
holders of one key cannot be represented.

`LocksOk` (a session holds the keys of its own uncommitted writes) is kept by every statement, and
`Frame j` (what session `j` may rely on while others work) by every statement of another session:
`select_spec`, `lockRow_spec`, `write_spec`, `commit_spec`.
-/

namespace Ticketing.Lib

/-- The writes a store understands. -/
structure Schema (Db Write Key : Type) where
  apply : Write → Db → Db
  /-- The keys a write locks until its transaction ends. -/
  keys : Write → List Key
  /-- The keys that must be absent for the write to be accepted. -/
  fresh : Write → List Key
  present : Key → Db → Bool
  /-- The columns the server fills in, from the time the transaction began. -/
  stamp : Nat → Write → Write
  keys_stamp : ∀ t w, keys (stamp t w) = keys w
  /-- A write makes no key present but its own. -/
  apply_absent : ∀ w k db, present k db = false → k ∉ keys w → present k (apply w db) = false

/-- One session's open transaction. -/
structure Session (Write : Type) where
  writes : List Write := []
  /-- When the transaction began, `none` while there is none. -/
  begun : Option Nat := none
  /-- How many transactions had been committed by then. -/
  since : Nat := 0
  /-- A flush or commit has failed and no rollback followed. -/
  broken : Bool := false

/-- Committed rows, key locks, open transactions and the history of commits. -/
structure Store (Db Write Key : Type) where
  db : Db
  owner : Key → Option Nat
  sessions : Nat → Session Write
  wal : List (Nat × List Write)

/-- Why a statement raised. -/
inductive Failure
  | integrity
  | database
  | pendingRollback
  | cancelled
  deriving DecidableEq, Repr

/-- What the environment may do to a statement: have the server refuse it, fail to give it a
connection, break the connection (before a commit took effect, or after: `lostReply`), cancel the
awaiting task before or after the statement took effect. -/
inductive Fault
  | database
  | connection
  | disconnect
  | lostReply
  | cancelled
  | cancelledAfter
  deriving DecidableEq, Repr

namespace Store

variable {Db Write Key : Type} (S : Schema Db Write Key)

/-- The rows session `i` sees: the committed ones under its own writes. -/
def view (s : Store Db Write Key) (i : Nat) : Db :=
  (s.sessions i).writes.foldl (fun db w => S.apply w db) s.db

def setSession (s : Store Db Write Key) (i : Nat) (x : Session Write) : Store Db Write Key :=
  { s with sessions := Function.update s.sessions i x }

/-- The keys of session `i` are nobody's. -/
def release (s : Store Db Write Key) (i : Nat) : Store Db Write Key :=
  { s with owner := fun k => if s.owner k = some i then none else s.owner k }

/-- Session `i` may lock `k`. -/
def free (s : Store Db Write Key) (i : Nat) (k : Key) : Bool :=
  s.owner k == none || s.owner k == some i

/-- The first statement of a transaction fixes its timestamp. -/
def begin (s : Store Db Write Key) (i now : Nat) : Store Db Write Key :=
  s.setSession i { s.sessions i with
    begun := some ((s.sessions i).begun.getD now)
    since := if (s.sessions i).begun.isSome then (s.sessions i).since else s.wal.length }

/-- Session `i` is unusable until a rollback; its locks stay. -/
def poison (s : Store Db Write Key) (i : Nat) : Store Db Write Key :=
  s.setSession i { s.sessions i with broken := true }

/-- `ROLLBACK`, also what closing a session does. -/
def rollback (s : Store Db Write Key) (i : Nat) : Store Db Write Key :=
  (s.setSession i {}).release i

/-- A flush or commit failed: rolled back, and unusable until a rollback is asked for. -/
def abort (s : Store Db Write Key) (i : Nat) : Store Db Write Key :=
  (s.setSession i { broken := true }).release i

/-- The writes of session `i` become committed rows. -/
def commitWrites (s : Store Db Write Key) (i : Nat) : Store Db Write Key :=
  (({ s with db := s.view S i, wal := s.wal ++ [(i, (s.sessions i).writes)] } :
    Store Db Write Key).setSession i {}).release i

/-- The statement `run` of session `i` under `fault`. -/
def statement (s : Store Db Write Key) (i now : Nat) (fault : Option Fault) {β : Type}
    (onFault : Store Db Write Key → Store Db Write Key)
    (run : Store Db Write Key → Option (Except Failure β × Store Db Write Key)) :
    Option (Except Failure β × Store Db Write Key) :=
  if (s.sessions i).broken then some (.error .pendingRollback, s)
  else match fault with
    | none => run (s.begin i now)
    | some .database => some (.error .database, onFault s)
    | some .connection => some (.error .database, s)
    | some .disconnect => some (.error .database, s.abort i)
    | some .lostReply => some (.error .database, s.abort i)
    | some .cancelled => some (.error .cancelled, onFault s)
    | some .cancelledAfter => (run (s.begin i now)).map fun rs => (.error .cancelled, rs.2)

/-- A plain `SELECT`. -/
def select (s : Store Db Write Key) (i now : Nat) (fault : Option Fault) {β : Type} (q : Db → β) :
    Option (Except Failure β × Store Db Write Key) :=
  s.statement i now fault (·.poison i) fun s => some (.ok (q (s.view S i)), s)

/-- A flush or commit that gets no connection fails like one the server refuses. -/
def flushFault : Option Fault → Option Fault
  | some .connection => some .database
  | f => f

/-- `COMMIT`. -/
def commit (s : Store Db Write Key) (i now : Nat) (fault : Option Fault) :
    Option (Except Failure Unit × Store Db Write Key) :=
  if (s.sessions i).broken = false ∧ fault = some .lostReply then
    some (.error .database, (s.commitWrites S i).poison i)
  else s.statement i now (flushFault fault) (·.abort i) fun s => some (.ok (), s.commitWrites S i)

section Locks

variable [DecidableEq Key]

def acquire (s : Store Db Write Key) (i : Nat) (ks : List Key) : Store Db Write Key :=
  { s with owner := fun k => if k ∈ ks then some i else s.owner k }

/-- `SELECT ... FOR UPDATE` of at most one row. -/
def lockRow (s : Store Db Write Key) (i now : Nat) (fault : Option Fault) {β : Type}
    (q : Db → Option β) (key : β → Key) :
    Option (Except Failure (Option β) × Store Db Write Key) :=
  s.statement i now fault (·.poison i) fun s =>
    match q (s.view S i) with
    | none => some (.ok none, s)
    | some row =>
      if s.free i (key row) then some (.ok (some row), s.acquire i [key row]) else none

/-- `SELECT ... FOR UPDATE SKIP LOCKED`: the query gets a test for the rows it may lock. -/
def lockRows (s : Store Db Write Key) (i now : Nat) (fault : Option Fault) {β : Type}
    (q : (β → Bool) → Db → List β) (key : β → Key) :
    Option (Except Failure (List β) × Store Db Write Key) :=
  s.statement i now fault (·.poison i) fun s =>
    let rows := q (fun row => s.free i (key row)) (s.view S i)
    some (.ok rows, s.acquire i ((rows.map key).filter (s.free i)))

/-- One row write of a flush. -/
def write (s : Store Db Write Key) (i now : Nat) (fault : Option Fault) (w : Write) :
    Option (Except Failure Unit × Store Db Write Key) :=
  s.statement i now (flushFault fault) (·.abort i) fun s =>
    if (S.keys w).all (s.free i) then
      if (S.fresh w).any (fun k => S.present k (s.view S i)) then
        some (.error .integrity, s.abort i)
      else
        some (.ok (), (s.acquire i (S.keys w)).setSession i
          { s.sessions i with
            writes := (s.sessions i).writes ++
              [S.stamp ((s.sessions i).begun.getD now) w] })
    else none

end Locks

/-! ## What a statement can do -/

variable {S}

/-- A session holds the keys of its own uncommitted writes. -/
def LocksOk (S : Schema Db Write Key) (s : Store Db Write Key) : Prop :=
  ∀ i, ∀ w ∈ (s.sessions i).writes, ∀ k ∈ S.keys w, s.owner k = some i

/-- Session `i` moved, and neither the committed rows nor any other session did. -/
structure Local (i : Nat) (s s' : Store Db Write Key) : Prop where
  db : s'.db = s.db
  wal : s'.wal = s.wal
  session : ∀ j, j ≠ i → s'.sessions j = s.sessions j
  owner : ∀ j, j ≠ i → ∀ k, s'.owner k = some j ↔ s.owner k = some j

theorem Local.refl (i : Nat) (s : Store Db Write Key) : Local i s s :=
  ⟨rfl, rfl, fun _ _ => rfl, fun _ _ _ => Iff.rfl⟩

/-- A `Local` move that keeps the session's own writes and locks. -/
structure Keeps (i : Nat) (s s' : Store Db Write Key) : Prop extends Local i s s' where
  writes : (s'.sessions i).writes = (s.sessions i).writes
  own : ∀ k, s.owner k = some i → s'.owner k = some i

/-- A `Local` move that adds the accepted write `w`, stamped at `t`. -/
structure Wrote (S : Schema Db Write Key) (i t : Nat) (w : Write) (s s' : Store Db Write Key) :
    Prop extends Local i s s' where
  writes : (s'.sessions i).writes = (s.sessions i).writes ++ [S.stamp t w]
  own : ∀ k, s.owner k = some i → s'.owner k = some i
  keys : ∀ k ∈ S.keys w, s'.owner k = some i
  /-- Nobody else held a key of the write. -/
  free : ∀ k ∈ S.keys w, s.owner k = none ∨ s.owner k = some i
  fresh : ∀ k ∈ S.fresh w, S.present k (s.view S i) = false

/-- A move that drops session `i`'s transaction. -/
structure Dropped (i : Nat) (s s' : Store Db Write Key) : Prop extends Local i s s' where
  writes : (s'.sessions i).writes = []

/-- Session `i` committed its writes. -/
structure Committed (S : Schema Db Write Key) (i : Nat) (s s' : Store Db Write Key) : Prop where
  db : s'.db = s.view S i
  wal : s'.wal = s.wal ++ [(i, (s.sessions i).writes)]
  session : ∀ j, j ≠ i → s'.sessions j = s.sessions j
  writes : (s'.sessions i).writes = []
  owner : ∀ j, j ≠ i → ∀ k, s'.owner k = some j ↔ s.owner k = some j

@[simp] theorem setSession_self (s : Store Db Write Key) (i : Nat) (x : Session Write) :
    (s.setSession i x).sessions i = x := Function.update_self ..

theorem setSession_other (s : Store Db Write Key) {i j : Nat} (x : Session Write) (h : j ≠ i) :
    (s.setSession i x).sessions j = s.sessions j := Function.update_of_ne h ..

theorem release_owner (s : Store Db Write Key) {i j : Nat} (h : j ≠ i) (k : Key) :
    (s.release i).owner k = some j ↔ s.owner k = some j := by
  simp only [release]
  split
  · rename_i hk
    rw [hk]
    simp [Ne.symm h]
  · rfl

theorem free_iff {s : Store Db Write Key} {i : Nat} {k : Key} :
    s.free i k = true ↔ s.owner k = none ∨ s.owner k = some i := by
  simp [free]

theorem Keeps.refl (i : Nat) (s : Store Db Write Key) : Keeps i s s :=
  ⟨⟨rfl, rfl, fun _ _ => rfl, fun _ _ _ => Iff.rfl⟩, rfl, fun _ h => h⟩

theorem Keeps.setSession {i : Nat} {s : Store Db Write Key} {x : Session Write}
    (h : x.writes = (s.sessions i).writes) : Keeps i s (s.setSession i x) :=
  ⟨⟨rfl, rfl, fun _ hj => setSession_other s x hj, fun _ _ _ => Iff.rfl⟩, by simp [h],
    fun _ h => h⟩

theorem Keeps.begin (s : Store Db Write Key) (i now : Nat) : Keeps i s (s.begin i now) :=
  Keeps.setSession rfl

theorem Keeps.poison (s : Store Db Write Key) (i : Nat) : Keeps i s (s.poison i) :=
  Keeps.setSession rfl

theorem Keeps.trans {i : Nat} {s s' s'' : Store Db Write Key} (h : Keeps i s s')
    (h' : Keeps i s' s'') : Keeps i s s'' :=
  ⟨⟨h'.db.trans h.db, h'.wal.trans h.wal, fun j hj => (h'.session j hj).trans (h.session j hj),
    fun j hj k => (h'.owner j hj k).trans (h.owner j hj k)⟩, h'.writes.trans h.writes,
    fun k hk => h'.own k (h.own k hk)⟩

theorem dropped_release {i : Nat} {s : Store Db Write Key} {x : Session Write}
    (hx : x.writes = []) : Dropped i s ((s.setSession i x).release i) :=
  ⟨⟨rfl, rfl, fun _ hj => setSession_other s x hj, fun _ hj k => release_owner _ hj k⟩,
    by simp [release, hx]⟩

theorem dropped_abort (s : Store Db Write Key) (i : Nat) : Dropped i s (s.abort i) :=
  dropped_release rfl

theorem dropped_rollback (s : Store Db Write Key) (i : Nat) : Dropped i s (s.rollback i) :=
  dropped_release rfl

theorem rollback_usable (s : Store Db Write Key) (i : Nat) :
    ((s.rollback i).sessions i).broken = false := by simp [rollback, release]

@[simp] theorem begin_view (s : Store Db Write Key) (i now : Nat) :
    (s.begin i now).view S i = s.view S i := by
  simp [view, begin, setSession]

theorem committed_commitWrites (s : Store Db Write Key) (i : Nat) :
    Committed S i s (s.commitWrites S i) :=
  ⟨rfl, rfl, fun _ hj => setSession_other _ _ hj, by simp [commitWrites, release],
    fun _ hj k => release_owner _ hj k⟩

theorem Committed.begin {i now : Nat} {s s' : Store Db Write Key}
    (h : Committed S i (s.begin i now) s') : Committed S i s s' where
  db := by rw [h.db, begin_view]
  wal := by rw [h.wal]; simp [Store.begin, Store.setSession]
  session j hj := (h.session j hj).trans (setSession_other s _ hj)
  writes := h.writes
  owner := h.owner

theorem Wrote.begin {i now t : Nat} {w : Write} {s s' : Store Db Write Key}
    (h : Wrote S i t w (s.begin i now) s') : Wrote S i t w s s' where
  db := h.db
  wal := h.wal
  session j hj := (h.session j hj).trans (setSession_other s _ hj)
  owner := h.owner
  writes := by rw [h.writes]; simp [Store.begin, Store.setSession]
  own := h.own
  keys := h.keys
  free := h.free
  fresh k hk := by simpa using h.fresh k hk

theorem Dropped.begin {i now : Nat} {s s' : Store Db Write Key}
    (h : Dropped i (s.begin i now) s') : Dropped i s s' where
  db := h.db
  wal := h.wal
  session j hj := (h.session j hj).trans (setSession_other s _ hj)
  owner := h.owner
  writes := h.writes

theorem flushFault_ne_connection (fault : Option Fault) : flushFault fault ≠ some .connection := by
  rcases fault with _ | f
  · nofun
  · cases f <;> nofun

@[simp] theorem abort_broken (s : Store Db Write Key) (i : Nat) :
    ((s.abort i).sessions i).broken = true := by simp [abort, release]

@[simp] theorem poison_broken (s : Store Db Write Key) (i : Nat) :
    ((s.poison i).sessions i).broken = true := by simp [poison]

/-- A query answers from what the session sees; one that raises may have ended the transaction. -/
theorem select_spec {s s' : Store Db Write Key} {i now : Nat} {fault : Option Fault} {β : Type}
    {q : Db → β} {r : Except Failure β} (h : s.select S i now fault q = some (r, s')) :
    Keeps i s s' ∧ (∀ b, r = .ok b → b = q (s.view S i)) ∨
      Dropped i s s' ∧ (s'.sessions i).broken = true ∧ ∃ e, r = .error e := by
  unfold select statement at h
  split at h
  · cases h; exact .inl ⟨.refl i s, fun _ h => by cases h⟩
  · split at h <;> simp only [Option.map_some, Option.some.injEq, Prod.mk.injEq] at h <;>
      obtain ⟨rfl, rfl⟩ := h
    · exact .inl ⟨.begin s i now, fun b hb => by simpa using (Except.ok.inj hb).symm⟩
    · exact .inl ⟨.poison s i, fun _ h => by cases h⟩
    · exact .inl ⟨.refl i s, fun _ h => by cases h⟩
    · exact .inr ⟨dropped_abort s i, abort_broken s i, _, rfl⟩
    · exact .inr ⟨dropped_abort s i, abort_broken s i, _, rfl⟩
    · exact .inl ⟨.poison s i, fun _ h => by cases h⟩
    · exact .inl ⟨.begin s i now, fun _ h => by cases h⟩

/-- A query that answers leaves the session as usable as it was. -/
theorem select_ok {s s' : Store Db Write Key} {i now : Nat} {fault : Option Fault} {β : Type}
    {q : Db → β} {b : β} (h : s.select S i now fault q = some (.ok b, s')) :
    (s'.sessions i).broken = (s.sessions i).broken := by
  unfold select statement at h
  split at h
  · cases h
  · split at h <;> cases h
    simp [begin]

/-- Why a query raises. -/
theorem select_error {s s' : Store Db Write Key} {i now : Nat} {fault : Option Fault} {β : Type}
    {q : Db → β} {e : Failure} (h : s.select S i now fault q = some (.error e, s')) :
    e = .pendingRollback ∧ (s.sessions i).broken = true ∨ e = .database ∨ e = .cancelled := by
  unfold select statement at h
  split at h
  · rename_i hb
    cases h
    exact .inl ⟨rfl, hb⟩
  · split at h <;> cases h <;> simp
theorem Committed.poison {i : Nat} {s s' : Store Db Write Key} (h : Committed S i s s') :
    Committed S i s (s'.poison i) :=
  ⟨h.db, h.wal, fun j hj => (setSession_other _ _ hj).trans (h.session j hj), by
    simpa [Store.poison] using h.writes, h.owner⟩

/-- A commit takes effect whole or not at all; one that returns has taken effect, and one that
raises leaves a broken session unless the task was cancelled. -/
theorem commit_spec {s s' : Store Db Write Key} {i now : Nat} {fault : Option Fault}
    {r : Except Failure Unit} (h : s.commit S i now fault = some (r, s')) :
    Committed S i s s' ∧ (r = .ok () ∨
        r = .error .database ∧ fault = some .lostReply ∧ (s'.sessions i).broken = true ∨
        r = .error .cancelled ∧ fault = some .cancelledAfter) ∨
      (Keeps i s s' ∨ Dropped i s s') ∧ (s'.sessions i).broken = true ∧ ∃ e, r = .error e := by
  unfold commit statement at h
  split at h
  · rename_i hf
    cases h
    exact .inl ⟨(committed_commitWrites s i).poison, .inr (.inl ⟨rfl, hf.2, poison_broken _ i⟩)⟩
  · split at h
    · rename_i hb
      cases h
      exact .inr ⟨.inl (.refl i s), hb, _, rfl⟩
    · split at h <;> simp only [Option.map_some, Option.some.injEq, Prod.mk.injEq] at h <;>
        obtain ⟨rfl, rfl⟩ := h
      · exact .inl ⟨(committed_commitWrites _ i).begin, .inl rfl⟩
      · exact .inr ⟨.inr (dropped_abort s i), abort_broken s i, _, rfl⟩
      · rename_i hf
        exact absurd hf (flushFault_ne_connection fault)
      · exact .inr ⟨.inr (dropped_abort s i), abort_broken s i, _, rfl⟩
      · exact .inr ⟨.inr (dropped_abort s i), abort_broken s i, _, rfl⟩
      · exact .inr ⟨.inr (dropped_abort s i), abort_broken s i, _, rfl⟩
      · rename_i hf
        refine .inl ⟨(committed_commitWrites _ i).begin, .inr (.inr ⟨rfl, ?_⟩)⟩
        rcases fault with _ | f
        · cases hf
        · cases f <;> first | rfl | cases hf

theorem select_ne_integrity {s s' : Store Db Write Key} {i now : Nat} {fault : Option Fault}
    {β : Type} {q : Db → β} (h : s.select S i now fault q = some (.error .integrity, s')) :
    False := by
  unfold select statement at h
  split at h
  · cases h
  · split at h <;> cases h

/-- A commit has nothing left to check: what it could violate was refused at the write. -/
theorem commit_ne_integrity {s s' : Store Db Write Key} {i now : Nat} {fault : Option Fault}
    (h : s.commit S i now fault = some (.error .integrity, s')) : False := by
  unfold commit statement at h
  split at h
  · cases h
  · split at h
    · cases h
    · split at h <;> cases h

section Locks

variable [DecidableEq Key]

theorem acquire_own {s : Store Db Write Key} {i : Nat} {ks : List Key} {k : Key}
    (h : s.owner k = some i ∨ k ∈ ks) : (s.acquire i ks).owner k = some i := by
  simp only [acquire]
  split
  · rfl
  · rename_i hk
    exact h.resolve_right hk

/-- Acquiring free keys takes nothing from another session. -/
theorem acquire_other {s : Store Db Write Key} {i j : Nat} {ks : List Key} (h : j ≠ i)
    (hf : ∀ k ∈ ks, s.owner k = none ∨ s.owner k = some i) (k : Key) :
    (s.acquire i ks).owner k = some j ↔ s.owner k = some j := by
  simp only [acquire]
  split
  · rename_i hk
    rcases hf k hk with h0 | h0 <;> simp [h0, Ne.symm h]
  · rfl

theorem Keeps.acquire {s : Store Db Write Key} {i : Nat} {ks : List Key}
    (hf : ∀ k ∈ ks, s.owner k = none ∨ s.owner k = some i) : Keeps i s (s.acquire i ks) :=
  ⟨⟨rfl, rfl, fun _ _ => rfl, fun _ hj k => acquire_other hj hf k⟩, rfl,
    fun _ hk => acquire_own (.inl hk)⟩

/-- The body of `lockRow`: no row, or a row whose key was free. -/
theorem lockRow_body {s s' : Store Db Write Key} {i : Nat} {β : Type} {q : Db → Option β}
    {key : β → Key} {r : Except Failure (Option β)}
    (h : (match q (s.view S i) with
      | none => some (.ok none, s)
      | some row =>
        if s.free i (key row) then some (.ok (some row), s.acquire i [key row]) else none) =
      some (r, s')) :
    Keeps i s s' ∧ r = .ok (q (s.view S i)) ∧
      ∀ row, q (s.view S i) = some row → s'.owner (key row) = some i := by
  split at h
  · rename_i hq
    cases h
    exact ⟨.refl i _, by rw [hq], fun row hr => by rw [hq] at hr; cases hr⟩
  · rename_i row hq
    split at h
    · rename_i hfree
      cases h
      refine ⟨Keeps.acquire fun k hk => ?_, by rw [hq], fun row' hr => ?_⟩
      · rw [List.mem_singleton] at hk
        exact hk ▸ free_iff.mp hfree
      · rw [hq] at hr
        cases hr
        exact acquire_own (.inr (List.mem_singleton.mpr rfl))
    · cases h

/-- A row that is returned is locked. -/
theorem lockRow_spec {s s' : Store Db Write Key} {i now : Nat} {fault : Option Fault} {β : Type}
    {q : Db → Option β} {key : β → Key} {r : Except Failure (Option β)}
    (h : s.lockRow S i now fault q key = some (r, s')) :
    Keeps i s s' ∧ (∀ b, r = .ok b → b = q (s.view S i) ∧
      ∀ row, b = some row → s'.owner (key row) = some i) ∨
      Dropped i s s' ∧ (s'.sessions i).broken = true ∧ ∃ e, r = .error e := by
  unfold lockRow statement at h
  split at h
  · cases h; exact .inl ⟨.refl i s, fun _ h => by cases h⟩
  · split at h
    · obtain ⟨hk, hr, hl⟩ := lockRow_body h
      rw [begin_view] at hr hl
      refine .inl ⟨(Keeps.begin s i now).trans hk, fun b hb => ?_⟩
      obtain rfl := Except.ok.inj (hr.symm.trans hb)
      exact ⟨rfl, hl⟩
    · cases h; exact .inl ⟨.poison s i, fun _ h => by cases h⟩
    · cases h; exact .inl ⟨.refl i s, fun _ h => by cases h⟩
    · cases h; exact .inr ⟨dropped_abort s i, abort_broken s i, _, rfl⟩
    · cases h; exact .inr ⟨dropped_abort s i, abort_broken s i, _, rfl⟩
    · cases h; exact .inl ⟨.poison s i, fun _ h => by cases h⟩
    · rw [Option.map_eq_some_iff] at h
      obtain ⟨⟨r', s''⟩, hrun, he⟩ := h
      cases he
      exact .inl ⟨(Keeps.begin s i now).trans (lockRow_body hrun).1, fun _ h => by cases h⟩

/-- The returned rows that were free are locked. -/
theorem lockRows_spec {s s' : Store Db Write Key} {i now : Nat} {fault : Option Fault} {β : Type}
    {q : (β → Bool) → Db → List β} {key : β → Key} {r : Except Failure (List β)}
    (h : s.lockRows S i now fault q key = some (r, s')) :
    Keeps i s s' ∧ (∀ b, r = .ok b → b = q (fun row => s.free i (key row)) (s.view S i) ∧
      ∀ row ∈ b, s.free i (key row) = true → s'.owner (key row) = some i) ∨
    Dropped i s s' ∧ (s'.sessions i).broken = true ∧ ∃ e, r = .error e := by
  have hacq : ∀ (s : Store Db Write Key) (rows : List β),
      Keeps i s (s.acquire i ((rows.map key).filter (s.free i))) := fun s rows =>
    Keeps.acquire fun k hk => free_iff.mp (List.mem_filter.mp hk).2
  unfold lockRows statement at h
  split at h
  · cases h; exact .inl ⟨.refl i s, fun _ h => by cases h⟩
  · split at h <;> simp only [Option.map_some, Option.some.injEq, Prod.mk.injEq] at h <;>
      obtain ⟨rfl, rfl⟩ := h
    · refine .inl ⟨(Keeps.begin s i now).trans (hacq _ _), fun b hb => ?_⟩
      obtain rfl := Except.ok.inj hb
      refine ⟨by rw [begin_view]; rfl, fun row hrow hf => acquire_own (.inr ?_)⟩
      exact List.mem_filter.mpr ⟨List.mem_map_of_mem hrow, hf⟩
    · exact .inl ⟨.poison s i, fun _ h => by cases h⟩
    · exact .inl ⟨.refl i s, fun _ h => by cases h⟩
    · exact .inr ⟨dropped_abort s i, abort_broken s i, _, rfl⟩
    · exact .inr ⟨dropped_abort s i, abort_broken s i, _, rfl⟩
    · exact .inl ⟨.poison s i, fun _ h => by cases h⟩
    · exact .inl ⟨(Keeps.begin s i now).trans (hacq _ _), fun _ h => by cases h⟩

theorem lockRow_ne_integrity {s s' : Store Db Write Key} {i now : Nat} {fault : Option Fault}
    {β : Type} {q : Db → Option β} {key : β → Key}
    (h : s.lockRow S i now fault q key = some (.error .integrity, s')) : False := by
  unfold lockRow statement at h
  split at h
  · cases h
  · split at h
    · obtain ⟨-, hr, -⟩ := lockRow_body h
      cases hr
    · cases h
    · cases h
    · cases h
    · cases h
    · cases h
    · rw [Option.map_eq_some_iff] at h
      obtain ⟨_, _, he⟩ := h
      cases he

theorem lockRows_ne_integrity {s s' : Store Db Write Key} {i now : Nat} {fault : Option Fault}
    {β : Type} {q : (β → Bool) → Db → List β} {key : β → Key}
    (h : s.lockRows S i now fault q key = some (.error .integrity, s')) : False := by
  unfold lockRows statement at h
  split at h
  · cases h
  · split at h <;> cases h

/-- The body of `write`: accepted with every key free and every fresh key absent, or refused for one
of these. -/
theorem write_body {s s' : Store Db Write Key} {i now : Nat} {w : Write}
    {r : Except Failure Unit}
    (h : (if (S.keys w).all (s.free i) then
        if (S.fresh w).any (fun k => S.present k (s.view S i)) then
          some (.error .integrity, s.abort i)
        else
          some (.ok (), (s.acquire i (S.keys w)).setSession i
            { s.sessions i with
              writes := (s.sessions i).writes ++
                [S.stamp ((s.sessions i).begun.getD now) w] })
      else none) = some (r, s')) :
    Wrote S i ((s.sessions i).begun.getD now) w s s' ∧ r = .ok () ∨
      Dropped i s s' ∧ (s'.sessions i).broken = true ∧ r = .error .integrity ∧
        ∃ k ∈ S.fresh w, S.present k (s.view S i) = true := by
  split at h
  · rename_i hfree
    split at h
    · rename_i hfresh
      cases h
      exact .inr ⟨dropped_abort s i, abort_broken s i, rfl, List.any_eq_true.mp hfresh⟩
    · rename_i hfresh
      cases h
      have hf : ∀ k ∈ S.keys w, s.owner k = none ∨ s.owner k = some i := fun k hk =>
        free_iff.mp (List.all_eq_true.mp hfree k hk)
      refine .inl ⟨⟨⟨rfl, rfl, fun _ hj => setSession_other _ _ hj,
        fun _ hj k => acquire_other hj hf k⟩, by simp, fun _ hk => acquire_own (.inl hk),
        fun _ hk => acquire_own (.inr hk), hf, fun k hk => ?_⟩, rfl⟩
      have := List.any_eq_false.mp (Bool.eq_false_iff.mpr hfresh) k hk
      simpa using this
  · cases h

/-- A write that returns was accepted; one that raises leaves a broken session, unless the task was
cancelled once it had been accepted. -/
theorem write_spec {s s' : Store Db Write Key} {i now : Nat} {fault : Option Fault} {w : Write}
    {r : Except Failure Unit} (h : s.write S i now fault w = some (r, s')) :
    (∃ t, Wrote S i t w s s') ∧ (r = .ok () ∨ r = .error .cancelled) ∨
      (Keeps i s s' ∨ Dropped i s s') ∧ (s'.sessions i).broken = true ∧ ∃ e, r = .error e := by
  have refused : ∀ {s'' : Store Db Write Key}, s'' = s.abort i →
      (Keeps i s s'' ∨ Dropped i s s'') ∧ (s''.sessions i).broken = true := fun h => by
    subst h
    exact ⟨.inr (dropped_abort s i), abort_broken s i⟩
  unfold write statement at h
  split at h
  · rename_i hb
    cases h
    exact .inr ⟨.inl (.refl i s), hb, _, rfl⟩
  · split at h
    · rcases write_body h with ⟨hw, rfl⟩ | ⟨hd, hb, rfl, -⟩
      · exact .inl ⟨⟨_, hw.begin⟩, .inl rfl⟩
      · exact .inr ⟨.inr hd.begin, hb, _, rfl⟩
    · cases h; exact .inr ⟨(refused rfl).1, (refused rfl).2, _, rfl⟩
    · rename_i hf
      exact absurd hf (flushFault_ne_connection fault)
    · cases h; exact .inr ⟨(refused rfl).1, (refused rfl).2, _, rfl⟩
    · cases h; exact .inr ⟨(refused rfl).1, (refused rfl).2, _, rfl⟩
    · cases h; exact .inr ⟨(refused rfl).1, (refused rfl).2, _, rfl⟩
    · rw [Option.map_eq_some_iff] at h
      obtain ⟨⟨r', s''⟩, hrun, he⟩ := h
      cases he
      rcases write_body hrun with ⟨hw, -⟩ | ⟨hd, hb, -⟩
      · exact .inl ⟨⟨_, hw.begin⟩, .inr rfl⟩
      · exact .inr ⟨.inr hd.begin, hb, _, rfl⟩

/-- A write is refused for a key it adds that is there. -/
theorem write_integrity {s s' : Store Db Write Key} {i now : Nat} {fault : Option Fault} {w : Write}
    (h : s.write S i now fault w = some (.error .integrity, s')) :
    ∃ k ∈ S.fresh w, S.present k (s.view S i) = true := by
  unfold write statement at h
  split at h
  · cases h
  · split at h
    · rcases write_body h with ⟨-, hr⟩ | ⟨-, -, -, hk⟩
      · cases hr
      · rwa [begin_view] at hk
    · cases h
    · cases h
    · cases h
    · cases h
    · cases h
    · obtain ⟨_, -, he⟩ := Option.map_eq_some_iff.mp h
      cases he

end Locks

/-! ## What every session may rely on -/

/-- The sessions a statement leaves alone still hold their keys; its own are left to show. -/
theorem LocksOk.of_own {i : Nat} {s s' : Store Db Write Key} (hs : s.LocksOk S)
    (session : ∀ j, j ≠ i → s'.sessions j = s.sessions j)
    (owner : ∀ j, j ≠ i → ∀ k, s'.owner k = some j ↔ s.owner k = some j)
    (own : ∀ w ∈ (s'.sessions i).writes, ∀ k ∈ S.keys w, s'.owner k = some i) :
    s'.LocksOk S := by
  intro j w hw k hk
  by_cases hj : j = i
  · subst hj
    exact own w hw k hk
  · rw [session j hj] at hw
    exact (owner j hj k).mpr (hs j w hw k hk)

theorem Keeps.locksOk {i : Nat} {s s' : Store Db Write Key} (h : Keeps i s s')
    (hs : s.LocksOk S) : s'.LocksOk S := by
  refine hs.of_own h.session h.owner fun w hw k hk => ?_
  rw [h.writes] at hw
  exact h.own k (hs i w hw k hk)

theorem Dropped.locksOk {i : Nat} {s s' : Store Db Write Key} (h : Dropped i s s')
    (hs : s.LocksOk S) : s'.LocksOk S := by
  refine hs.of_own h.session h.owner fun w hw => ?_
  rw [h.writes] at hw
  cases hw

theorem Committed.locksOk {i : Nat} {s s' : Store Db Write Key} (h : Committed S i s s')
    (hs : s.LocksOk S) : s'.LocksOk S := by
  refine hs.of_own h.session h.owner fun w hw => ?_
  rw [h.writes] at hw
  cases hw

theorem Wrote.locksOk {i t : Nat} {w : Write} {s s' : Store Db Write Key}
    (h : Wrote S i t w s s') (hs : s.LocksOk S) : s'.LocksOk S := by
  refine hs.of_own h.session h.owner fun w' hw k hk => ?_
  rw [h.writes, List.mem_append, List.mem_singleton] at hw
  rcases hw with hw | rfl
  · exact h.own k (hs i w' hw k hk)
  · rw [S.keys_stamp] at hk
    exact h.keys k hk

/-- What session `j` may rely on while others work: its transaction and its locks are its own, a
key it holds does not appear among the committed rows, and only it commits in its name. -/
structure Frame (S : Schema Db Write Key) (j : Nat) (s s' : Store Db Write Key) : Prop where
  session : s'.sessions j = s.sessions j
  owner : ∀ k, s'.owner k = some j ↔ s.owner k = some j
  absent : ∀ k, s.owner k = some j → S.present k s.db = false → S.present k s'.db = false
  wal : ∃ more, s'.wal = s.wal ++ more ∧ ∀ c ∈ more, c.1 ≠ j

theorem Frame.refl (j : Nat) (s : Store Db Write Key) : Frame S j s s :=
  ⟨rfl, fun _ => Iff.rfl, fun _ _ h => h, [], by simp, fun _ h => by cases h⟩

theorem Frame.trans {j : Nat} {s s' s'' : Store Db Write Key} (h : Frame S j s s')
    (h' : Frame S j s' s'') : Frame S j s s'' where
  session := h'.session.trans h.session
  owner k := (h'.owner k).trans (h.owner k)
  absent k hk hp := h'.absent k ((h.owner k).mpr hk) (h.absent k hk hp)
  wal := by
    obtain ⟨m, hm, hn⟩ := h.wal
    obtain ⟨m', hm', hn'⟩ := h'.wal
    refine ⟨m ++ m', by rw [hm', hm, List.append_assoc], fun c hc => ?_⟩
    rcases List.mem_append.mp hc with hc | hc
    · exact hn c hc
    · exact hn' c hc

theorem Local.frame {i j : Nat} {s s' : Store Db Write Key} (h : Local i s s') (hj : j ≠ i) :
    Frame S j s s' :=
  ⟨h.session j hj, h.owner j hj, fun k _ hp => by rw [h.db]; exact hp, [], by simp [h.wal],
    fun _ hc => by cases hc⟩

/-- Writes none of whose keys is `k` leave `k` absent. -/
theorem absent_foldl {k : Key} (ws : List Write) {db : Db} (hp : S.present k db = false)
    (hk : ∀ w ∈ ws, k ∉ S.keys w) :
    S.present k (ws.foldl (fun db w => S.apply w db) db) = false := by
  induction ws generalizing db with
  | nil => exact hp
  | cons w ws ih =>
    exact ih (S.apply_absent w k db hp (hk w List.mem_cons_self))
      fun w' hw' => hk w' (List.mem_cons_of_mem w hw')

theorem Committed.frame {i j : Nat} {s s' : Store Db Write Key} (h : Committed S i s s')
    (hs : s.LocksOk S) (hj : j ≠ i) : Frame S j s s' where
  session := h.session j hj
  owner := h.owner j hj
  absent k hk hp := by
    rw [h.db]
    refine absent_foldl _ hp fun w hw hkw => ?_
    have := (hs i w hw k hkw).symm.trans hk
    exact hj (Option.some.inj this).symm
  wal := ⟨_, h.wal, fun c hc => by rw [List.mem_singleton.mp hc]; exact hj.symm⟩

/-! ## When a transaction began -/

/-- Session `i` is in a transaction that began when at most `n` had been committed. -/
def BegunBy (n i : Nat) (s : Store Db Write Key) : Prop :=
  (s.sessions i).begun.isSome = true ∧ (s.sessions i).since ≤ n

/-- No transaction of session `i` began after the last commit. -/
def Dated (i : Nat) (s : Store Db Write Key) : Prop := (s.sessions i).since ≤ s.wal.length

section Begun

variable {s s' : Store Db Write Key} {i n now : Nat} {fault : Option Fault}

theorem BegunBy.begin (h : s.BegunBy n i) : (s.begin i now).BegunBy n i := by
  simp [BegunBy, Store.begin, h.1, h.2]

theorem BegunBy.setSession {x : Session Write} (h : s.BegunBy n i)
    (hx : x.begun = (s.sessions i).begun ∧ x.since = (s.sessions i).since) :
    (s.setSession i x).BegunBy n i := by
  simpa only [BegunBy, setSession_self, hx] using h

theorem Dated.begin (h : s.Dated i) : (s.begin i now).Dated i := by
  simp only [Dated, Store.begin, setSession_self]
  split
  · exact h
  · exact Nat.le_refl _

theorem Dated.reset {x : Session Write} (hx : x.since = 0) :
    ((s.setSession i x).release i).Dated i := by
  simp [Dated, release, hx]

theorem Dated.poison (h : s.Dated i) : (s.poison i).Dated i := by
  rw [Dated, Store.poison, setSession_self]
  exact h

/-- What a statement does: its body in the transaction it has begun, or one of the faults. -/
theorem statement_cases {β : Type} {onFault : Store Db Write Key → Store Db Write Key}
    {run : Store Db Write Key → Option (Except Failure β × Store Db Write Key)}
    {r : Except Failure β} (h : s.statement i now fault onFault run = some (r, s')) :
    (∃ r', run (s.begin i now) = some (r', s') ∧ (r = r' ∨ r = .error .cancelled)) ∨
      (s' = s ∨ s' = onFault s ∨ s' = s.abort i) ∧ ∃ e, r = .error e := by
  unfold statement at h
  split at h
  · cases h
    exact .inr ⟨.inl rfl, _, rfl⟩
  · split at h
    · exact .inl ⟨r, h, .inl rfl⟩
    · cases h
      exact .inr ⟨.inr (.inl rfl), _, rfl⟩
    · cases h
      exact .inr ⟨.inl rfl, _, rfl⟩
    · cases h
      exact .inr ⟨.inr (.inr rfl), _, rfl⟩
    · cases h
      exact .inr ⟨.inr (.inr rfl), _, rfl⟩
    · cases h
      exact .inr ⟨.inr (.inl rfl), _, rfl⟩
    · rw [Option.map_eq_some_iff] at h
      obtain ⟨⟨r', s''⟩, hrun, he⟩ := h
      cases he
      exact .inl ⟨r', hrun, .inr rfl⟩

/-- A statement that returns goes on with the transaction it found. -/
theorem statement_begun {β : Type} {onFault : Store Db Write Key → Store Db Write Key}
    {run : Store Db Write Key → Option (Except Failure β × Store Db Write Key)} {b : β}
    (hrun : ∀ {s s' : Store Db Write Key}, run s = some (.ok b, s') → s.BegunBy n i →
      s'.BegunBy n i)
    (h : s.statement i now fault onFault run = some (.ok b, s')) (hs : s.BegunBy n i) :
    s'.BegunBy n i := by
  rcases statement_cases h with ⟨r', hr, rfl | he⟩ | ⟨-, e, he⟩
  · exact hrun hr hs.begin
  · cases he
  · cases he

theorem statement_dated {β : Type} {onFault : Store Db Write Key → Store Db Write Key}
    {run : Store Db Write Key → Option (Except Failure β × Store Db Write Key)}
    {r : Except Failure β}
    (hrun : ∀ {s s' : Store Db Write Key} {r}, run s = some (r, s') → s.Dated i → s'.Dated i)
    (hfault : (onFault s).Dated i) (h : s.statement i now fault onFault run = some (r, s'))
    (hs : s.Dated i) : s'.Dated i := by
  rcases statement_cases h with ⟨r', hr, -⟩ | ⟨rfl | rfl | rfl, -⟩
  · exact hrun hr hs.begin
  · exact hs
  · exact hfault
  · exact .reset rfl

theorem select_begun {β : Type} {q : Db → β} {b : β}
    (h : s.select S i now fault q = some (.ok b, s')) (hs : s.BegunBy n i) : s'.BegunBy n i :=
  statement_begun (fun h hs => by cases h; exact hs) h hs

theorem select_dated {β : Type} {q : Db → β} {r : Except Failure β}
    (h : s.select S i now fault q = some (r, s')) (hs : s.Dated i) : s'.Dated i :=
  statement_dated (fun h hs => by cases h; exact hs) hs.poison h hs

theorem commit_dated {r : Except Failure Unit} (h : s.commit S i now fault = some (r, s'))
    (hs : s.Dated i) : s'.Dated i := by
  unfold commit at h
  split at h
  · cases h
    exact Dated.poison (.reset rfl)
  · exact statement_dated (fun h _ => by cases h; exact .reset rfl) (.reset rfl) h hs

variable [DecidableEq Key]

theorem lockRow_sessions {β : Type} {q : Db → Option β} {key : β → Key}
    {r : Except Failure (Option β)}
    (h : (match q (s.view S i) with
      | none => some (.ok none, s)
      | some row =>
        if s.free i (key row) then some (.ok (some row), s.acquire i [key row]) else none) =
      some (r, s')) : s'.sessions = s.sessions ∧ s'.wal = s.wal := by
  split at h
  · cases h
    exact ⟨rfl, rfl⟩
  · split at h
    · cases h
      exact ⟨rfl, rfl⟩
    · cases h

theorem lockRow_begun {β : Type} {q : Db → Option β} {key : β → Key} {b : Option β}
    (h : s.lockRow S i now fault q key = some (.ok b, s')) (hs : s.BegunBy n i) :
    s'.BegunBy n i :=
  statement_begun (fun h hs => by rwa [BegunBy, (lockRow_sessions h).1]) h hs

theorem lockRow_dated {β : Type} {q : Db → Option β} {key : β → Key}
    {r : Except Failure (Option β)} (h : s.lockRow S i now fault q key = some (r, s'))
    (hs : s.Dated i) : s'.Dated i :=
  statement_dated (fun h hs => by rwa [Dated, (lockRow_sessions h).1, (lockRow_sessions h).2])
    hs.poison h hs

theorem write_begun {w : Write} (h : s.write S i now fault w = some (.ok (), s'))
    (hs : s.BegunBy n i) : s'.BegunBy n i := by
  refine statement_begun (fun h hs => ?_) h hs
  split at h
  · split at h
    · cases h
    · cases h
      exact BegunBy.setSession (s := Store.acquire _ i _) hs ⟨rfl, rfl⟩
  · cases h

theorem write_dated {w : Write} {r : Except Failure Unit}
    (h : s.write S i now fault w = some (r, s')) (hs : s.Dated i) : s'.Dated i := by
  refine statement_dated (fun h hs => ?_) (.reset rfl) h hs
  split at h
  · split at h
    · cases h
      exact .reset rfl
    · cases h
      rw [Dated, setSession_self]
      exact hs
  · cases h

end Begun

end Store

end Ticketing.Lib
