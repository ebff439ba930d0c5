import Ticketing.Concurrency.Records

/-!
# What a session holds

Until a session ends its transaction, the rows it has locked are as it has found them, and no
committed row has a key of what it has inserted: others may commit, but nothing that touches a key
it holds. `Spares t` is what this asks of the rest of the system: it leaves the table `t` and the
locks alone.

Results:
* `locksOk`: every uncommitted write holds its keys, in every reachable pool.
* `held`: what a session has locked is as it has found it while its transaction goes on
  (`GoesOn`).
* `reserves`: what it has inserted is new to the committed rows.
* `exists_committing`: each commit of a history was made in a pool on the way, of what its thread
  had done (`MadeBy`). With the two before, this says what a transaction finds when it is
  committed.
-/

namespace Ticketing

open Lib (Prog Store System)

/-- The rest of the system moves, the sessions of the calls and the table `t` apart. -/
structure Spares (t : Table) (W W' : World) : Prop where
  rows : W'.store.db t = W.store.db t
  sessions : W'.store.sessions = W.store.sessions
  owner : W'.store.owner = W.store.owner
  wal : W'.store.wal = W.store.wal

section Step

variable {i : Nat} {c : Choice} {o : Op} {W W' : World} {r : Except Exn o.Res}

theorem opStep_locksOk (h : opStep i c o W = some (r, W')) (hl : W.store.LocksOk schema) :
    W'.store.LocksOk schema := by
  cases o with
  | write w =>
    rcases (write_step h).1 with ⟨⟨τ, hw⟩, -⟩ | ⟨hk | hd, -⟩
    · exact hw.locksOk hl
    · exact hk.locksOk hl
    · exact hd.locksOk hl
  | commit =>
    rcases (commit_step h).1 with ⟨hc, -⟩ | ⟨hk | hd, -⟩
    · exact hc.locksOk hl
    · exact hk.locksOk hl
    · exact hd.locksOk hl
  | rollback =>
    rcases (rollback_step h).1 with rfl | ⟨rfl, -⟩
    · exact (Store.dropped_rollback _ i).locksOk hl
    · exact hl
  | _ =>
    rcases opStep_store h trivial with hk | ⟨hd, -⟩
    · exact hk.locksOk hl
    · exact hd.locksOk hl

/-- What is performed neither ends the transaction nor fails. -/
def GoesOn : (Σ o : Op, Except Exn o.Res) → Prop
  | ⟨.commit, _⟩ | ⟨.rollback, _⟩ => False
  | ⟨.publish _, _⟩ => True
  | ⟨_, r⟩ => ∃ a, r = .ok a

theorem publish_store {message : TaskMessage} {r : Except Exn Unit}
    (h : opStep i c (.publish message) W = some (r, W')) : W'.store = W.store := by
  have same {V : World} (hor : W' = W ∨ W' = V) (hV : V.store = W.store) :
      W'.store = W.store := by
    rcases hor with rfl | rfl
    · rfl
    · exact hV
  simp only [opStep] at h
  split at h
  · exact same (awaiting_or h) rfl
  · split at h
    · exact same (awaiting_or h) rfl
    · exact same (awaiting_or h) rfl

/-- A transaction that goes on keeps its locks. -/
theorem opStep_goesOn (h : opStep i c o W = some (r, W')) (ho : GoesOn ⟨o, r⟩) :
    W'.store.db = W.store.db ∧ ∀ k, W.store.owner k = some i → W'.store.owner k = some i := by
  cases o with
  | commit => exact ho.elim
  | rollback => exact ho.elim
  | publish message =>
    rw [publish_store h]
    exact ⟨rfl, fun _ hk => hk⟩
  | write w =>
    obtain ⟨a, rfl⟩ := ho
    rcases (write_step h).1 with ⟨⟨τ, hw⟩, -⟩ | ⟨-, -, e, he⟩
    · exact ⟨hw.db, hw.own⟩
    · cases he
  | _ =>
    obtain ⟨a, rfl⟩ := ho
    rcases opStep_store h trivial with hk | ⟨-, -, e, he⟩
    · exact ⟨hk.db, hk.own⟩
    · cases he

end Step

namespace Calls

variable {C : Calls} {may : Nat → C.Call → Prop} {admits : Admission}
variable {env : World → World → Prop} {P P' : (C.system may admits env).Pool}
variable {T : Nat → Trace} {W₀ : World} {t : Table}

theorem step_locksOk (henv : ∀ W W', env W W' → Spares t W W') (h : System.Step P P')
    (hl : P.shared.store.LocksOk schema) : P'.shared.store.LocksOk schema := by
  cases h with
  | start i c hi hc => exact (WorldOutline.dropped_accept P.shared i _).locksOk hl
  | exec i c o k hi r W hs =>
    obtain ⟨ch, -, hs⟩ := hs
    exact opStep_locksOk hs hl
  | finish i c p hi r hr => exact (WorldOutline.dropped_settle P.shared i _).locksOk hl
  | crash i c p hi => exact (WorldOutline.dropped_settle P.shared i true).locksOk hl
  | env W hs =>
    intro j w hw k hk
    replace hw : w ∈ (W.store.sessions j).writes := hw
    rw [(henv _ _ hs).sessions] at hw
    show W.store.owner k = some j
    rw [(henv _ _ hs).owner]
    exact hl j w hw k hk

/-- Every session holds the keys of what it has written. -/
theorem locksOk (hq : W₀.Quiet) (henv : ∀ W W', env W W' → Spares t W W')
    (h : System.Reachable W₀ P) : P.shared.store.LocksOk schema := by
  induction h with
  | refl =>
    intro j w hw
    replace hw : w ∈ (W₀.store.sessions j).writes := hw
    rw [hq.sessions] at hw
    cases hw
  | tail _ hstep ih => exact step_locksOk henv hstep ih

/-- A session has locked a committed row. -/
def Holds (i : Nat) (row : t.Row) (W : World) : Prop :=
  W.store.owner (.row t (t.id row)) = some i ∧ row ∈ W.store.db t

theorem Holds.of_local {i j : Nat} {row : t.Row} {W W' : World} (h : Holds i row W)
    (hl : Store.Local j W.store W'.store) (hj : i ≠ j) : Holds i row W' :=
  ⟨(hl.owner i hj _).mpr h.1, by rw [hl.db]; exact h.2⟩

/-- **What a session has locked is as it has found it** while its transaction goes on. -/
theorem held (hq : W₀.Quiet) (henv : ∀ W W', env W W' → Spares t W W')
    (h : System.Records W₀ P T) {i : Nat} {c : C.Call} {p : Service (C.Ret c)}
    (hi : P.threads i = .running c p) {u v : Trace} {q : (t.Row → Bool) → Db → List t.Row}
    {rows : List t.Row} (ht : T i = u ++ ⟨.selectSkipLocked t q, .ok rows⟩ :: v)
    (hu : written u = []) (hv : ∀ x ∈ v, GoesOn x)
    (hfound : ∀ mayLock db, ∀ row ∈ q mayLock db, mayLock row = true ∧ row ∈ db t) :
    ∀ row ∈ rows, Holds i row P.shared := by
  induction h generalizing c v with
  | init => exact absurd ht (by simp)
  | @start P T h j d hj hc ih =>
    have hij : i ≠ j := by
      rintro rfl
      have hf := h.followed i
      rw [hj] at hf
      rw [show T i = [] from hf] at ht
      exact absurd ht (by simp)
    rw [System.Pool.set_other P _ _ hij] at hi
    exact fun row hrow => (ih hi ht hv row hrow).of_local
      (WorldOutline.dropped_accept P.shared j _).toLocal hij
  | @exec P T h j d o k hj r W hs ih =>
    obtain ⟨ch, -, hs⟩ := hs
    by_cases hij : i = j
    · subst hij
      rw [Function.update_self] at ht
      rcases List.eq_nil_or_concat' v with rfl | ⟨v, x, rfl⟩
      · obtain ⟨hT, hx⟩ := List.append_inj' ht rfl
        cases hx
        have hwrites : (P.shared.store.sessions i).writes = [] := stamped_nil.mp
          (pending (fun _ _ hW => (henv _ _ hW).sessions) h hj (hT ▸ flushed_nil_iff.mpr hu))
        rcases (selectSkipLocked_step hs).1 with ⟨hk, hrows⟩ | ⟨-, -, e, he⟩
        · obtain ⟨hq', hlocked⟩ := hrows _ rfl
          intro row hrow
          obtain ⟨hfree, hmem⟩ := hfound _ _ row (hq' ▸ hrow)
          rw [Store.view, hwrites] at hmem
          refine ⟨hlocked row hrow hfree, ?_⟩
          show row ∈ W.store.db t
          rw [hk.db]
          exact hmem
        · cases he
      · rw [← List.cons_append, ← List.append_assoc] at ht
        obtain ⟨hT, hx⟩ := List.append_inj' ht rfl
        obtain rfl : ⟨o, r⟩ = x := List.singleton_inj.mp hx
        have hgo := opStep_goesOn hs (hv _ (List.mem_append_right v (List.mem_singleton.mpr rfl)))
        intro row hrow
        have hold := ih hj hT (fun y hy => hv y (List.mem_append_left _ hy)) row hrow
        refine ⟨hgo.2 _ hold.1, ?_⟩
        show row ∈ W.store.db t
        rw [hgo.1]
        exact hold.2
    · rw [System.Pool.set_other P _ _ hij] at hi
      rw [Function.update_of_ne hij] at ht
      intro row hrow
      have hold := ih hi ht hv row hrow
      rcases opStep_local hs with hl | ⟨-, hc⟩
      · exact hold.of_local hl hij
      · have hlocks := locksOk hq henv h.reachable
        exact ⟨(hc.owner i hij _).mpr hold.1,
          (World.Locks.of_committed hc hlocks hij _ _ hold.1 row rfl).mpr hold.2⟩
  | @finish P T h j d p hj r hr ih =>
    have hij : i ≠ j := by
      rintro rfl
      rw [System.Pool.set_self] at hi
      cases hi
    rw [System.Pool.set_other P _ _ hij] at hi
    exact fun row hrow => (ih hi ht hv row hrow).of_local
      (WorldOutline.dropped_settle P.shared j _).toLocal hij
  | @crash P T h j d p hj ih =>
    have hij : i ≠ j := by
      rintro rfl
      rw [System.Pool.set_self] at hi
      cases hi
    rw [System.Pool.set_other P _ _ hij] at hi
    exact fun row hrow => (ih hi ht hv row hrow).of_local
      (WorldOutline.dropped_settle P.shared j true).toLocal hij
  | @env P T h W hs ih =>
    intro row hrow
    have hold := ih hi ht hv row hrow
    have hspares := henv _ _ hs
    refine ⟨?_, ?_⟩
    · show W.store.owner _ = some i
      rw [hspares.owner]
      exact hold.1
    · show row ∈ W.store.db t
      rw [hspares.rows]
      exact hold.2

/-- No committed row has a key of what a session is going to insert, where it has written nothing
else to that table before. -/
def Reserves (t : Table) (W : World) : Prop :=
  ∀ i ws row ws', (W.store.sessions i).writes = ws ++ .insert t row :: ws' →
    (∀ w ∈ ws, t ≠ w.table) → ∀ k ∈ t.keys row, W.store.db.present k = false

theorem present_congr {W W' : World} {k : Key} (h : W'.store.db k.table = W.store.db k.table) :
    W'.store.db.present k = W.store.db.present k := by
  unfold Db.present
  rw [h]

theorem Reserves.of_local {i : Nat} {W W' : World} (h : Reserves t W)
    (hl : Store.Local i W.store W'.store)
    (hw : (W'.store.sessions i).writes = (W.store.sessions i).writes ∨
      (W'.store.sessions i).writes = []) : Reserves t W' := by
  intro j ws row ws' hws hother k hk
  rw [hl.db]
  by_cases hj : j = i
  · subst hj
    rcases hw with hw | hw
    · exact h j ws row ws' (hw ▸ hws) hother k hk
    · rw [hw] at hws
      exact absurd hws (by simp)
  · rw [hl.session j hj] at hws
    exact h j ws row ws' hws hother k hk

theorem Reserves.of_wrote {i τ : Nat} {w : Write} {W W' : World} (h : Reserves t W)
    (hw : Store.Wrote schema i τ w W.store W'.store) : Reserves t W' := by
  intro j ws row ws' hws hother k hk
  rw [hw.db]
  by_cases hj : j = i
  · subst hj
    rw [hw.writes] at hws
    rcases List.eq_nil_or_concat' ws' with rfl | ⟨ws', x, rfl⟩
    · obtain ⟨hpast, hlast⟩ := List.append_inj' hws rfl
      have hkey : k ∈ w.fresh := by
        cases w with
        | insert t' row' =>
          obtain ⟨rfl, hrow⟩ := Write.insert.inj (List.singleton_inj.mp hlast)
          rw [← eq_of_heq hrow, Table.keys_stampInsert] at hk
          exact hk
        | _ => cases List.singleton_inj.mp hlast
      have hf : Db.present k (W.store.view schema j) = false := hw.fresh k hkey
      have htab : k.table = t := Table.table_of_mem_keys hk
      subst htab
      have hview : W.store.view schema j k.table = W.store.db k.table := by
        rw [Store.view, hpast]
        exact Write.foldl_other hother _
      rwa [Db.present, hview] at hf
    · rw [← List.cons_append, ← List.append_assoc] at hws
      exact h j ws row ws' (List.append_inj' hws rfl).1 hother k hk
  · rw [hw.session j hj] at hws
    exact h j ws row ws' hws hother k hk

theorem Reserves.of_committed {i : Nat} {W W' : World} (h : Reserves t W)
    (hl : W.store.LocksOk schema) (hc : Store.Committed schema i W.store W'.store) :
    Reserves t W' := by
  intro j ws row ws' hws hother k hk
  by_cases hj : j = i
  · subst hj
    rw [hc.writes] at hws
    exact absurd hws (by simp)
  · rw [hc.session j hj] at hws
    have howner := hl j (.insert t row) (by rw [hws]; simp) k hk
    exact (hc.frame hl hj).absent k howner (h j ws row ws' hws hother k hk)

theorem reserves (hq : W₀.Quiet) (henv : ∀ W W', env W W' → Spares t W W')
    (h : System.Reachable W₀ P) : Reserves t P.shared := by
  induction h with
  | refl =>
    intro i ws row ws' hws
    have hnone : (W₀.store.sessions i).writes = [] := by rw [hq.sessions i]
    rw [show (System.Pool.init W₀ : (C.system may admits env).Pool).shared = W₀ from rfl,
      hnone] at hws
    exact absurd hws (by simp)
  | @tail P P' hsteps hstep ih =>
    cases hstep with
    | start i c hi hc =>
      have hd := WorldOutline.dropped_accept P.shared i (C.message c)
      exact ih.of_local hd.toLocal (.inr hd.writes)
    | exec i c o k hi r W hs =>
      obtain ⟨ch, -, hs⟩ := hs
      by_cases hwrite : ∃ w, o = .write w
      · obtain ⟨w, rfl⟩ := hwrite
        rcases (write_step hs).1 with ⟨⟨τ, hw⟩, -⟩ | ⟨hk | hd, -⟩
        · exact ih.of_wrote hw
        · exact ih.of_local hk.toLocal (.inl hk.writes)
        · exact ih.of_local hd.toLocal (.inr hd.writes)
      · rcases opStep_local hs with hl | ⟨-, hc⟩
        · exact ih.of_local hl (opStep_writes hs fun w he => hwrite ⟨w, he⟩)
        · exact ih.of_committed (locksOk hq henv hsteps) hc
    | finish i c p hi r hr =>
      have hd := WorldOutline.dropped_settle P.shared i (C.retries c r)
      exact ih.of_local hd.toLocal (.inr hd.writes)
    | crash i c p hi =>
      have hd := WorldOutline.dropped_settle P.shared i true
      exact ih.of_local hd.toLocal (.inr hd.writes)
    | env W hs =>
      intro i ws row ws' hws hother k hk
      replace hws : (W.store.sessions i).writes = ws ++ .insert t row :: ws' := hws
      rw [(henv _ _ hs).sessions] at hws
      have htab : k.table = t := Table.table_of_mem_keys hk
      exact (present_congr (htab ▸ (henv _ _ hs).rows)).trans (ih i ws row ws' hws hother k hk)

/-- A commit that returns is in the history. -/
theorem committed_of_ok (henv : ∀ W W', env W W' → W'.store.wal = W.store.wal)
    (h : System.Records W₀ P T) {i : Nat} (hi : ⟨.commit, .ok ()⟩ ∈ T i) :
    ∃ ws, (i, ws) ∈ P.shared.store.wal := by
  induction h with
  | init => cases hi
  | start h j d hj hc ih => exact ih hi
  | @exec P T h j d o k hj r W hs ih =>
    have hstep := System.Step.exec P j d o k hj r W hs
    have old (hi : ⟨.commit, .ok ()⟩ ∈ T i) : ∃ ws, (i, ws) ∈ W.store.wal := by
      obtain ⟨ws, hws⟩ := ih hi
      have hgrows := Calls.wal_prefix henv (.single hstep)
      exact ⟨ws, hgrows.subset hws⟩
    by_cases hij : i = j
    · subst hij
      rw [Function.update_self, List.mem_append, List.mem_singleton] at hi
      rcases hi with hi | hi
      · exact old hi
      · cases hi
        obtain ⟨ch, -, hs⟩ := hs
        rcases (commit_step hs).1 with ⟨hc, -⟩ | ⟨-, -, e, he⟩
        · refine ⟨(P.shared.store.sessions i).writes, ?_⟩
          show (i, (P.shared.store.sessions i).writes) ∈ W.store.wal
          rw [hc.wal]
          exact List.mem_append_right _ (List.mem_singleton.mpr rfl)
        · cases he
    · rw [Function.update_of_ne hij] at hi
      exact old hi
  | finish h j d p hj r hr ih => exact ih hi
  | crash h j d p hj ih => exact ih hi
  | env h W hs ih =>
    obtain ⟨ws, hws⟩ := ih hi
    refine ⟨ws, ?_⟩
    show (i, ws) ∈ W.store.wal
    rwa [henv _ _ hs]

/-- Thread `i`, whose trace is `t`, has committed `ws` when the history was `past`. -/
def MadeBy (W₀ : World) (P : (C.system may admits env).Pool) (past : List (Nat × List Write))
    (i : Nat) (ws : List Write) (t : Trace) : Prop :=
  ∃ (Q : (C.system may admits env).Pool) (U : Nat → Trace) (c : C.Call)
    (k : Except Exn Unit → Service (C.Ret c)) (r : Except Exn Unit) (v : Trace),
    System.Records W₀ Q U ∧ System.Steps Q P ∧ Q.shared.store.wal = past ∧
    Q.threads i = .running c (.op .commit k) ∧ (Q.shared.store.sessions i).writes = ws ∧
    t = U i ++ ⟨.commit, r⟩ :: v

theorem MadeBy.next {past : List (Nat × List Write)} {i : Nat} {ws : List Write} {t t' : Trace}
    (h : MadeBy W₀ P past i ws t) (hstep : System.Step P P') (ht : t <+: t') :
    MadeBy W₀ P' past i ws t' := by
  obtain ⟨Q, U, c, k, r, v, hQ, hsteps, hwal, hi, hws, rfl⟩ := h
  obtain ⟨v', rfl⟩ := ht
  exact ⟨Q, U, c, k, r, v ++ v', hQ, hsteps.tail hstep, hwal, hi, hws, by simp⟩

/-- **Each commit of a history was made in a pool on the way**, of what its thread had done. -/
theorem exists_committing (hq : W₀.Quiet) (henv : ∀ W W', env W W' → W'.store.wal = W.store.wal)
    (h : System.Records W₀ P T) {past : List (Nat × List Write)} {i : Nat} {ws : List Write}
    (hw : past ++ [(i, ws)] <+: P.shared.store.wal) : MadeBy W₀ P past i ws (T i) := by
  induction h with
  | init =>
    rw [show (System.Pool.init W₀ : (C.system may admits env).Pool).shared.store.wal = [] from
      hq.wal] at hw
    exact absurd hw (by simp)
  | start h j d hj hc ih => exact (ih hw).next (.start _ j d hj hc) List.prefix_rfl
  | @exec P T h j d o k hj r W hs ih =>
    have hstep := System.Step.exec P j d o k hj r W hs
    have hT : T i <+: Function.update T j (T j ++ [⟨o, r⟩]) i := by
      by_cases he : i = j
      · subst he
        rw [Function.update_self]
        exact List.prefix_append _ _
      · rw [Function.update_of_ne he]
    obtain ⟨ch, -, hs⟩ := hs
    rcases opStep_commits hs with ⟨-, hwal⟩ | ⟨rfl, hc⟩
    · exact (ih (hwal ▸ hw)).next hstep hT
    · replace hw : past ++ [(i, ws)] <+: W.store.wal := hw
      rw [hc.wal] at hw
      rcases List.prefix_concat_iff.mp hw with he | hw
      · obtain ⟨hpast, he⟩ := List.append_inj' he rfl
        obtain ⟨rfl, rfl⟩ := Prod.mk.inj (List.singleton_inj.mp he)
        exact ⟨P, T, d, k, r, [], h, .single hstep, hpast.symm, hj, rfl, Function.update_self ..⟩
      · exact (ih hw).next hstep hT
  | finish h j d p hj r hr ih => exact (ih hw).next (.finish _ j d p hj r hr) List.prefix_rfl
  | crash h j d p hj ih => exact (ih hw).next (.crash _ j d p hj) List.prefix_rfl
  | env h W hs ih => exact (ih (henv _ _ hs ▸ hw)).next (.env _ W hs) List.prefix_rfl

end Calls

end Ticketing
