import Ticketing.Concurrency.System

/-!
# What the commits of a run say

The history of commits, `wal` of the store, decides what the calls have made of the database.

* `Db.after db wal`: the rows that the commits of `wal` make of `db`.
* `Stamped`: a session's writes are the ones its thread has performed, each with the time of its
  transaction filled in.
* `Write.updates` is what `Service.update` sends: one write, or none where nothing changed.

Results:
* `opStep_local`, `opStep_writes`, `opStep_commits`: what one operation makes of its own session,
  of the others and of the history.
* `committed`: a table the environment leaves alone holds what the commits so far left there.
* `idle_noCommit`: a thread that is idle has committed nothing.
* `exists_between`: every number of commits a run passes through is the history of some pool on
  the way.
-/

namespace Ticketing

open Lib (Prog Store System Outline)

/-- The database after a history of commits. -/
def Db.after (db : Db) (wal : List (Nat × List Write)) : Db :=
  wal.foldl (fun db c => c.2.foldl (fun db w => w.apply db) db) db

theorem Db.after_append (db : Db) (wal : List (Nat × List Write)) (c : Nat × List Write) :
    db.after (wal ++ [c]) = c.2.foldl (fun db w => w.apply db) (db.after wal) := by
  simp [Db.after]

namespace Write

/-- What a write does to a table depends on that table alone. -/
theorem apply_congr (w : Write) {db db' : Db} {t : Table} (h : db t = db' t) :
    w.apply db t = w.apply db' t := by
  by_cases ht : t = w.table
  · subst ht
    cases w <;> simp only [apply_insert, apply_update, apply_delete, apply_revokeAllActive,
      table] at h ⊢ <;> rw [h]
  · rw [apply_other w db ht, apply_other w db' ht, h]

theorem foldl_congr (ws : List Write) {db db' : Db} {t : Table} (h : db t = db' t) :
    ws.foldl (fun db w => w.apply db) db t = ws.foldl (fun db w => w.apply db) db' t := by
  induction ws generalizing db db' with
  | nil => exact h
  | cons w ws ih => exact ih (apply_congr w h)

end Write

/-! ## What a session sends -/

/-- What a flush sends for an object. -/
def Write.updates (t : Table) (loaded current : t.Row) : List Write :=
  if loaded = current then [] else [.update t loaded current]

/-- An object that changed is written. -/
theorem Write.updates_of_ne {α : Type} {t : Table} {l c : t.Row} (f : t.Row → α) (h : f l ≠ f c) :
    Write.updates t l c = [.update t l c] := if_neg fun he => h (congrArg f he)

/-- `ws'` are the writes `ws`, stamped. -/
def Stamped (ws ws' : List Write) : Prop := List.Forall₂ (fun w w' => ∃ τ, w' = w.stamp τ) ws ws'

@[simp] theorem stamped_nil {ws : List Write} : Stamped [] ws ↔ ws = [] := by
  simp [Stamped]

theorem stamped_singleton {w : Write} {ws : List Write} :
    Stamped [w] ws ↔ ∃ τ, ws = [w.stamp τ] := by
  constructor
  · rintro (_ | ⟨⟨τ, rfl⟩, _ | _⟩)
    exact ⟨τ, rfl⟩
  · rintro ⟨τ, rfl⟩
    exact .cons ⟨τ, rfl⟩ .nil

theorem stamped_append (us : List Write) {vs ws : List Write} :
    Stamped (us ++ vs) ws ↔ ∃ us' vs', ws = us' ++ vs' ∧ Stamped us us' ∧ Stamped vs vs' := by
  constructor
  · intro h
    induction us generalizing ws with
    | nil => exact ⟨[], ws, rfl, .nil, h⟩
    | cons u us ih =>
      cases h with
      | cons hu h =>
        obtain ⟨us', vs', rfl, hus, hvs⟩ := ih h
        exact ⟨_ :: us', vs', rfl, .cons hu hus, hvs⟩
  · rintro ⟨us', vs', rfl, hus, hvs⟩
    exact List.rel_append hus hvs

theorem Stamped.table {ws ws' : List Write} (h : Stamped ws ws') {t : Table}
    (ht : ∀ w ∈ ws, t ≠ w.table) : ∀ w ∈ ws', t ≠ w.table := by
  induction h with
  | nil => exact ht
  | cons hw _ ih =>
    obtain ⟨τ, rfl⟩ := hw
    rw [List.forall_mem_cons] at ht ⊢
    exact ⟨by rw [Write.table_stamp]; exact ht.1, ih ht.2⟩

theorem Stamped.any {ws ws' : List Write} (h : Stamped ws ws') {f : Write → Bool}
    (hf : ∀ τ w, f (w.stamp τ) = f w) : ws'.any f = ws.any f := by
  induction h with
  | nil => rfl
  | cons hw _ ih =>
    obtain ⟨τ, rfl⟩ := hw
    rw [List.any_cons, List.any_cons, hf, ih]

/-- What a stamped write is the stamp of. -/
theorem Stamped.mem {ws ws' : List Write} (h : Stamped ws ws') {w' : Write} (hw : w' ∈ ws') :
    ∃ w ∈ ws, ∃ τ, w' = w.stamp τ := by
  induction h with
  | nil => cases hw
  | @cons w w'' _ _ hs _ ih =>
    rcases List.mem_cons.mp hw with rfl | hw
    · exact ⟨w, .head _, hs⟩
    · obtain ⟨w, hmem, hτ⟩ := ih hw
      exact ⟨w, .tail _ hmem, hτ⟩

theorem Stamped.mem_stamp {ws ws' : List Write} (h : Stamped ws ws') {w : Write} (hw : w ∈ ws) :
    ∃ τ, w.stamp τ ∈ ws' := by
  induction h with
  | nil => cases hw
  | cons hs _ ih =>
    rcases List.mem_cons.mp hw with rfl | hw
    · obtain ⟨τ, rfl⟩ := hs
      exact ⟨τ, .head _⟩
    · obtain ⟨τ, hmem⟩ := ih hw
      exact ⟨τ, .tail _ hmem⟩

theorem Stamped.snoc {ws ws' : List Write} (h : Stamped ws ws') (w : Write) (τ : Time) :
    Stamped (ws ++ [w]) (ws' ++ [w.stamp τ]) := List.rel_append h (.cons ⟨τ, rfl⟩ .nil)

section Step

variable {i : Nat} {c : Choice} {o : Op} {W W' : World} {r : Except Exn o.Res}

/-- One operation of thread `i` stays within its session, or commits its transaction. -/
theorem opStep_local (h : opStep i c o W = some (r, W')) :
    Store.Local i W.store W'.store ∨ o = .commit ∧ Store.Committed schema i W.store W'.store := by
  cases o with
  | write w =>
    rcases (write_step h).1 with ⟨⟨t, hw⟩, -⟩ | ⟨hk | hd, -⟩
    · exact .inl hw.toLocal
    · exact .inl hk.toLocal
    · exact .inl hd.toLocal
  | commit =>
    rcases (commit_step h).1 with ⟨hc, -⟩ | ⟨hk | hd, -⟩
    · exact .inr ⟨rfl, hc⟩
    · exact .inl hk.toLocal
    · exact .inl hd.toLocal
  | rollback =>
    rcases (rollback_step h).1 with rfl | ⟨rfl, -⟩
    · exact .inl (Store.dropped_rollback _ i).toLocal
    · exact .inl (.refl i _)
  | _ =>
    rcases opStep_store h trivial with hk | ⟨hd, -⟩
    · exact .inl hk.toLocal
    · exact .inl hd.toLocal

/-- One operation of thread `i` commits nothing, or one transaction of its session. -/
theorem opStep_commits (h : opStep i c o W = some (r, W')) :
    W'.store.db = W.store.db ∧ W'.store.wal = W.store.wal ∨
      o = .commit ∧ Store.Committed schema i W.store W'.store :=
  (opStep_local h).imp_left fun hl => ⟨hl.db, hl.wal⟩

/-- No operation of thread `i` is about another session. -/
theorem opStep_session (h : opStep i c o W = some (r, W')) {j : Nat} (hj : j ≠ i) :
    W'.store.sessions j = W.store.sessions j := by
  rcases opStep_local h with hl | ⟨-, hc⟩
  · exact hl.session j hj
  · exact hc.session j hj

/-- Only a write adds to what a session is going to commit. -/
theorem opStep_writes (h : opStep i c o W = some (r, W')) (ho : ∀ w, o ≠ .write w) :
    (W'.store.sessions i).writes = (W.store.sessions i).writes ∨
      (W'.store.sessions i).writes = [] := by
  cases o with
  | write w => exact absurd rfl (ho w)
  | commit =>
    rcases (commit_step h).1 with ⟨hc, -⟩ | ⟨hk | hd, -⟩
    · exact .inr hc.writes
    · exact .inl hk.writes
    · exact .inr hd.writes
  | rollback =>
    rcases (rollback_step h).1 with rfl | ⟨rfl, -⟩
    · exact .inr (Store.dropped_rollback _ i).writes
    · exact .inl rfl
  | _ =>
    rcases opStep_store h trivial with hk | ⟨hd, -⟩
    · exact .inl hk.writes
    · exact .inr hd.writes

/-- A write that returns is one the session is going to commit. -/
theorem write_accepted {w : Write} (h : opStep i c (.write w) W = some (.ok (), W')) :
    ∃ τ, (W'.store.sessions i).writes = (W.store.sessions i).writes ++ [w.stamp τ] := by
  rcases (write_step h).1 with ⟨⟨τ, hw⟩, -⟩ | ⟨-, -, e, he⟩
  · exact ⟨τ, hw.writes⟩
  · cases he

end Step

namespace Calls

variable {C : Calls} {may : Nat → C.Call → Prop} {admits : Admission}
variable {env : World → World → Prop} {P P' : (C.system may admits env).Pool}

/-- A step commits nothing, or one transaction of a running thread that goes on running. -/
theorem step_commits (henv : ∀ W W', env W W' → W'.store.wal = W.store.wal)
    (h : System.Step P P') : P'.shared.store.wal = P.shared.store.wal ∨
      ∃ i ws c p, P'.shared.store.wal = P.shared.store.wal ++ [(i, ws)] ∧
        P'.threads i = .running c p := by
  cases h with
  | exec i c o k hi r W hst =>
    obtain ⟨ch, -, hst⟩ := hst
    rcases opStep_commits hst with ⟨-, hw⟩ | ⟨-, hc⟩
    · exact .inl hw
    · exact .inr ⟨i, _, c, k r, hc.wal, P.set_self W i _⟩
  | env W hs => exact .inl (henv _ _ hs)
  | _ => exact .inl rfl

/-- A step leaves an idle thread idle, or starts it. -/
theorem idle_of_step {j : Nat} (h : System.Step P P') (hj : P'.threads j = .idle) :
    P.threads j = .idle := by
  rcases h.call? j with hc | ⟨hi, -⟩
  · rw [hj] at hc
    rcases ht : P.threads j with _ | _ | _ | _
    · rfl
    all_goals rw [ht] at hc; cases hc
  · exact hi

/-- Nothing is committed in the name of a thread that has not started. -/
theorem idle_noCommit {W₀ : World} (hq : W₀.Quiet)
    (henv : ∀ W W', env W W' → W'.store.wal = W.store.wal) (h : System.Reachable W₀ P) {j : Nat}
    (hj : P.threads j = .idle) : ∀ c ∈ P.shared.store.wal, c.1 ≠ j := by
  induction h with
  | refl =>
    show ∀ c ∈ W₀.store.wal, c.1 ≠ j
    rw [hq.wal]
    nofun
  | tail _ hstep ih =>
    have hold := ih (idle_of_step hstep hj)
    rcases step_commits henv hstep with hw | ⟨i, ws, c, p, hw, hi⟩
    · rwa [hw]
    · rw [hw]
      intro x hx
      rcases List.mem_append.mp hx with hx | hx
      · exact hold x hx
      · rw [List.mem_singleton.mp hx]
        rintro rfl
        rw [hi] at hj
        cases hj

/-- A thread runs a call it may run. -/
theorem may_of_reachable {W₀ : World} (h : System.Reachable W₀ P) {j : Nat} {c : C.Call}
    (hj : (P.threads j).call? = some c) : may j c := by
  induction h with
  | refl => cases hj
  | tail _ hstep ih =>
    rcases hstep.call? j with hc | ⟨-, c', hc', he⟩
    · exact ih (hc ▸ hj)
    · obtain rfl := Option.some.inj (he.symm.trans hj)
      exact hc'.1

/-- The history only grows. -/
theorem wal_prefix (henv : ∀ W W', env W W' → W'.store.wal = W.store.wal)
    (h : System.Steps P P') : P.shared.store.wal <+: P'.shared.store.wal := by
  induction h with
  | refl => exact List.prefix_rfl
  | tail _ hstep ih =>
    rcases step_commits henv hstep with hw | ⟨i, ws, c, p, hw, -⟩
    · rwa [hw]
    · rw [hw]
      exact ih.trans (List.prefix_append _ _)

/-- Every number of commits between two pools of a run is that of a pool between them. -/
theorem exists_between (henv : ∀ W W', env W W' → W'.store.wal = W.store.wal)
    (h : System.Steps P P') {n : Nat} (hn : P.shared.store.wal.length ≤ n)
    (hn' : n ≤ P'.shared.store.wal.length) :
    ∃ Q, System.Steps P Q ∧ System.Steps Q P' ∧
      Q.shared.store.wal = P'.shared.store.wal.take n := by
  induction h with
  | refl => exact ⟨P, .refl, .refl, (List.take_of_length_le hn).symm⟩
  | @tail Q Q' hsteps hstep ih =>
    by_cases hlen : n ≤ Q.shared.store.wal.length
    · obtain ⟨R, hPR, hRQ, hR⟩ := ih hlen
      refine ⟨R, hPR, hRQ.tail hstep, ?_⟩
      obtain ⟨more, hmore⟩ := wal_prefix henv (.single hstep : System.Steps Q Q')
      rw [hR, ← hmore, List.take_append_of_le_length hlen]
    · refine ⟨Q', hsteps.tail hstep, .refl, (List.take_of_length_le ?_).symm⟩
      rcases step_commits henv hstep with hw | ⟨i, ws, c, p, hw, -⟩
      · rw [hw] at hn' ⊢
        omega
      · rw [hw, List.length_append, List.length_singleton]
        omega

/-- A step leaves a table as the commits so far make it. -/
theorem committed_step {t : Table} (henv : ∀ W W', env W W' → W'.store.wal = W.store.wal ∧
    W'.store.db t = W.store.db t) (h : System.Step P P') {db : Db}
    (hP : P.shared.store.db t = db.after P.shared.store.wal t) :
    P'.shared.store.db t = db.after P'.shared.store.wal t := by
  cases h with
  | exec i c o k hi r W hst =>
    obtain ⟨ch, -, hst⟩ := hst
    rcases opStep_commits hst with ⟨hdb, hw⟩ | ⟨-, hc⟩
    · show W.store.db t = db.after W.store.wal t
      rw [hdb, hw]
      exact hP
    · show W.store.db t = db.after W.store.wal t
      rw [hc.db, hc.wal, Db.after_append]
      exact Write.foldl_congr _ hP
  | env W hs =>
    show W.store.db t = db.after W.store.wal t
    rw [(henv _ _ hs).2, (henv _ _ hs).1]
    exact hP
  | _ => exact hP

/-- **A table the environment leaves alone holds what the commits left there.** -/
theorem committed {W₀ : World} (hq : W₀.Quiet) {t : Table}
    (henv : ∀ W W', env W W' → W'.store.wal = W.store.wal ∧ W'.store.db t = W.store.db t)
    (h : System.Reachable W₀ P) :
    P.shared.store.db t = W₀.store.db.after P.shared.store.wal t := by
  induction h with
  | refl =>
    show W₀.store.db t = W₀.store.db.after W₀.store.wal t
    rw [hq.wal]
    rfl
  | tail _ hstep ih => exact committed_step henv hstep ih

end Calls

end Ticketing
