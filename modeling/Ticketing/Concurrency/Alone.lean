import Ticketing.Concurrency.System

/-!
# A call alone

A call whose operations are not refused, while nobody else moves.

* `alone i` is one operation of thread `i` then, given the ids that `uuid4` is going to draw;
  `Prog.run (alone i _)` is the whole call.
* `Ready i ws W`: the session can be used and has written `ws`. `Alone i ws W`: besides, nobody
  else holds a lock.
* `Same q W W'`: the rows and everything but the part `q` of the world are as they were.

Results:
* `Ready.run_select`, `Alone.run_write`, `Alone.run_commit`, `run_refresh`: what one operation
  leaves.
* `Ready.run_reading`: what a call reads leaves the rows, the files and the queues as they were.
  `run_reading` adds that it stays alone.

Assumed: no fault and no cancellation. That is the meaning of `alone`, not a premise on runs.
-/

namespace Ticketing

open Lib (Prog Store)

/-- One operation of thread `i` that nothing refuses; `draws` are the ids still to be drawn. -/
def alone (i random : Nat) : (o : Op) → World × List UUID →
    Option (Except Exn o.Res × (World × List UUID))
  | .uuid4, (W, draws) =>
    match draws with
    | [] => none
    | id :: draws => some (.ok id, (W, draws))
  | o, (W, draws) => (opStep i { random } o W).map fun (r, W) => (r, (W, draws))

theorem alone_eq {i random : Nat} {o : Op} {r : Except Exn o.Res} {W W' : World}
    (draws : List UUID) (h : opStep i { random } o W = some (r, W')) (ho : o ≠ .uuid4) :
    alone i random o (W, draws) = some (r, (W', draws)) := by
  have : alone i random o (W, draws) =
      (opStep i { random } o W).map fun (r, W) => (r, (W, draws)) := by
    cases o <;> first | exact absurd rfl ho | rfl
  rw [this, h]
  rfl

theorem alone_some {i random : Nat} {o : Op} {r : Except Exn o.Res} {W : World}
    {draws : List UUID} {s' : World × List UUID} (h : alone i random o (W, draws) = some (r, s'))
    (ho : o ≠ .uuid4) : ∃ W', opStep i { random } o W = some (r, W') ∧ s' = (W', draws) := by
  have hstep : (opStep i { random } o W).map (fun (r, W) => (r, (W, draws))) = some (r, s') := by
    cases o <;> first | exact absurd rfl ho | exact h
  obtain ⟨⟨r', W'⟩, hst, he⟩ := Option.map_eq_some_iff.mp hstep
  cases he
  exact ⟨W', hst, rfl⟩

/-- Session `i` is usable and has written `ws`. -/
structure Ready (i : Nat) (ws : List Write) (W : World) : Prop where
  usable : (W.store.sessions i).broken = false
  writes : (W.store.sessions i).writes = ws

/-- Session `i` is usable, has written `ws`, and has the store to itself. -/
structure Alone (i : Nat) (ws : List Write) (W : World) : Prop extends Ready i ws W where
  free : ∀ k, W.store.free i k = true

/-- The same rows, and outside the database the same but for the part `q`. -/
structure Same (q : Option Part) (W W' : World) : Prop where
  db : W'.store.db = W.store.db
  beside : Beside q W W'

namespace Ready

variable {i : Nat} {c : Choice} {ws : List Write} {W W' : World}

theorem view (h : Ready i ws W) :
    W.store.view schema i = ws.foldl (fun db w => w.apply db) W.store.db := by
  rw [Store.view, h.writes]
  rfl

/-- The state the first statement of a transaction starts from. -/
theorem begin (h : Ready i ws W) (now : Time) :
    ((W.store.begin i now).sessions i).broken = false ∧
      ((W.store.begin i now).sessions i).writes = ws :=
  ⟨by simp [Store.begin, h.usable], by simp [Store.begin, h.writes]⟩

/-- A query. -/
theorem select (h : Ready i ws W) (hc : c.fault = none) {β : Type} (q : Db → β) :
    ∃ W', opStep i c (.select q) W =
        some (.ok (q (ws.foldl (fun db w => w.apply db) W.store.db)), W') ∧
      Ready i ws W' ∧ Same none W W' ∧ ∀ k, W'.store.free i k = W.store.free i k := by
  obtain ⟨hb, hw⟩ := h.begin W.clock
  refine ⟨W.setStore (W.store.begin i W.clock), ?_, ⟨hb, hw⟩, ⟨rfl, .store rfl⟩, fun _ => rfl⟩
  simp [opStep, World.ofStore, Store.select, Store.statement, h.usable, hc, ← h.view,
    Except.mapError]

/-- An operation that reads; what it locks is the session's own. -/
theorem reading (h : Ready i ws W) (hc : c.fault = none) {o : Op} (ho : o.Reading)
    {r : Except Exn o.Res} (hst : opStep i c o W = some (r, W')) :
    Ready i ws W' ∧ Same (some .cache) W W' ∧
      ∀ k, W.store.free i k = true → W'.store.free i k = true := by
  obtain ⟨hb, hws⟩ := h.begin W.clock
  have kept {s : Store Db Write Key} (hdb : s.db = W.store.db)
      (hsess : s.sessions i = (W.store.begin i W.clock).sessions i)
      (hfree : ∀ k, W.store.free i k = true → s.free i k = true) :
      Ready i ws (W.setStore s) ∧ Same (some .cache) W (W.setStore s) ∧
        ∀ k, W.store.free i k = true → (W.setStore s).store.free i k = true :=
    ⟨⟨by rw [← hb, ← hsess]; rfl, by rw [← hws, ← hsess]; rfl⟩, ⟨hdb, .store rfl⟩, hfree⟩
  have acquired (ks : List Key) (k : Key) (hf : W.store.free i k = true) :
      ((W.store.begin i W.clock).acquire i ks).free i k = true := by
    rw [Store.free_iff]
    show (if k ∈ ks then some i else _) = none ∨ (if k ∈ ks then some i else _) = some i
    split
    · exact .inr rfl
    · exact Store.free_iff.mp hf
  have still (hW : W'.store = W.store) (hbeside : Beside (some .cache) W W') :
      Ready i ws W' ∧ Same (some .cache) W W' ∧
        ∀ k, W.store.free i k = true → W'.store.free i k = true :=
    ⟨⟨by rw [hW]; exact h.usable, by rw [hW]; exact h.writes⟩, ⟨by rw [hW], hbeside⟩,
      by rw [hW]; exact fun _ => id⟩
  cases o with
  | select q =>
    obtain ⟨b, s, hs, -, rfl⟩ := ofStore_eq hst
    simp only [Store.select, Store.statement, h.usable, hc] at hs
    cases hs
    exact kept rfl rfl fun _ => id
  | selectForUpdate t q =>
    obtain ⟨b, s, hs, -, rfl⟩ := ofStore_eq hst
    simp only [Store.lockRow, Store.statement, h.usable, hc, Bool.false_eq_true, if_false] at hs
    split at hs
    · cases hs
      exact kept rfl rfl fun _ => id
    · split at hs <;> cases hs
      exact kept rfl rfl (acquired _)
  | selectSkipLocked t q =>
    obtain ⟨b, s, hs, -, rfl⟩ := ofStore_eq hst
    simp only [Store.lockRows, Store.statement, h.usable, hc] at hs
    cases hs
    exact kept rfl rfl (acquired _)
  | uuid4 => cases hst; exact still rfl .refl
  | now => cases hst; exact still rfl .refl
  | randint hi => cases hst; exact still rfl .refl
  | cacheGet key =>
    simp only [opStep, hc, World.redis, World.awaiting] at hst
    cases hst
    exact still rfl .refl
  | cacheSet key value ttl =>
    simp only [opStep, hc, World.redis, World.awaiting] at hst
    cases hst
    exact still rfl (.cache _)
  | cacheDelete key =>
    simp only [opStep, hc, World.redis, World.awaiting] at hst
    cases hst
    exact still rfl (.cache _)
  | _ => exact ho.elim

end Ready

namespace Alone

variable {i : Nat} {c : Choice} {ws : List Write} {W W' : World}

theorem setStore {s : Store Db Write Key} (hb : (s.sessions i).broken = false)
    (hw : (s.sessions i).writes = ws) (hf : ∀ k, s.free i k = true) : Alone i ws (W.setStore s) :=
  ⟨⟨hb, hw⟩, hf⟩

theorem free_of_owner {s s' : Store Db Write Key}
    (ho : ∀ j, j ≠ i → ∀ k, s'.owner k = some j ↔ s.owner k = some j)
    (hf : ∀ k, s.free i k = true) (k : Key) : s'.free i k = true := by
  rw [Store.free_iff]
  cases hk : s'.owner k with
  | none => exact .inl rfl
  | some j =>
    by_cases hj : j = i
    · exact .inr (by rw [hj])
    · have := (ho j hj k).mp hk
      rcases Store.free_iff.mp (hf k) with h | h
      · rw [h] at this; cases this
      · rw [h] at this
        exact absurd (Option.some.inj this).symm hj

/-- The state the first statement of a transaction starts from. -/
theorem begin (h : Alone i ws W) (now : Time) :
    ((W.store.begin i now).sessions i).broken = false ∧
      ((W.store.begin i now).sessions i).writes = ws ∧ ∀ k, (W.store.begin i now).free i k = true :=
  ⟨(h.toReady.begin now).1, (h.toReady.begin now).2, h.free⟩

/-- A query. -/
theorem select (h : Alone i ws W) (hc : c.fault = none) {β : Type} (q : Db → β) :
    ∃ W', opStep i c (.select q) W =
        some (.ok (q (ws.foldl (fun db w => w.apply db) W.store.db)), W') ∧
      Alone i ws W' ∧ Same none W W' := by
  obtain ⟨W', hst, hr, hs, hf⟩ := h.toReady.select hc q
  exact ⟨W', hst, ⟨hr, fun k => (hf k).trans (h.free k)⟩, hs⟩

/-- A write whose unique values are new. -/
theorem write (h : Alone i ws W) (hc : c.fault = none) {w : Write}
    (hw : ∀ k ∈ w.fresh, Db.present k (ws.foldl (fun db w => w.apply db) W.store.db) = false) :
    ∃ τ W', opStep i c (.write w) W = some (.ok (), W') ∧
      Alone i (ws ++ [w.stamp τ]) W' ∧ Same none W W' := by
  obtain ⟨hb, hws, hf⟩ := h.begin W.clock
  have hkeys : (schema.keys w).all ((W.store.begin i W.clock).free i) = true :=
    List.all_eq_true.mpr fun k _ => hf k
  have hfresh : (schema.fresh w).any (fun k => schema.present k
      ((W.store.begin i W.clock).view schema i)) = false := by
    rw [List.any_eq_false]
    intro k hk
    rw [Store.begin_view, h.view]
    exact Bool.eq_false_iff.mp (hw k hk)
  obtain ⟨s, hs⟩ : ∃ s, W.store.write schema i W.clock none w = some (.ok (), s) ∧
      (s.sessions i).broken = false := by
    simp only [Store.write, Store.statement, h.usable, Store.flushFault, hkeys, hfresh]
    refine ⟨_, rfl, ?_⟩
    simp [hb]
  obtain ⟨⟨τ, hwrote⟩, -⟩ := (Store.write_spec hs.1).resolve_right (by
    rintro ⟨-, -, e, he⟩
    cases he)
  refine ⟨τ, W.setStore s, ?_, setStore hs.2 ?_ (free_of_owner hwrote.owner h.free), hwrote.db,
    .store rfl⟩
  · simp [opStep, World.ofStore, hc, hs.1, Except.mapError]
  · rw [hwrote.writes, h.writes]
    rfl

/-- A write that was not refused. -/
theorem write_ok (h : Alone i ws W) (hc : c.fault = none) {w : Write}
    (hst : opStep i c (.write w) W = some (.ok (), W')) :
    (∃ τ, Alone i (ws ++ [w.stamp τ]) W') ∧ Same none W W' ∧
      ∀ k ∈ w.fresh, Db.present k (ws.foldl (fun db w => w.apply db) W.store.db) = false := by
  have hfresh : ∀ k ∈ w.fresh,
      Db.present k (ws.foldl (fun db w => w.apply db) W.store.db) = false := by
    obtain ⟨b, s, hs, hr, -⟩ := ofStore_eq hst
    rcases Store.write_spec hs with ⟨⟨τ, hwrote⟩, -⟩ | ⟨-, -, e, rfl⟩
    · rw [← h.view]
      exact hwrote.fresh
    · cases hr
  obtain ⟨τ, W'', hst', hW, hs⟩ := h.write hc hfresh
  cases hst.symm.trans hst'
  exact ⟨⟨τ, hW⟩, hs, hfresh⟩

/-- A commit. -/
theorem commit (h : Alone i ws W) (hc : c.fault = none) :
    ∃ W', opStep i c .commit W = some (.ok (), W') ∧ Alone i [] W' ∧
      W'.store.db = ws.foldl (fun db w => w.apply db) W.store.db ∧ Beside none W W' := by
  obtain ⟨hb, hws, hf⟩ := h.begin W.clock
  have hs : W.store.commit schema i W.clock none =
      some (.ok (), (W.store.begin i W.clock).commitWrites schema i) := by
    simp [Store.commit, Store.statement, h.usable, Store.flushFault]
  have hcom := (Store.committed_commitWrites (S := schema) (W.store.begin i W.clock) i).begin
  refine ⟨W.setStore ((W.store.begin i W.clock).commitWrites schema i), ?_,
    setStore ?_ hcom.writes (free_of_owner hcom.owner h.free), ?_, .store rfl⟩
  · simp [opStep, World.ofStore, hc, hs, Except.mapError]
  · simp [Store.commitWrites, Store.release]
  · exact hcom.db.trans h.view

/-- An operation that reads. -/
theorem reading (h : Alone i ws W) (hc : c.fault = none) {o : Op} (ho : o.Reading)
    {r : Except Exn o.Res} (hst : opStep i c o W = some (r, W')) :
    Alone i ws W' ∧ Same (some .cache) W W' := by
  obtain ⟨hr, hs, hf⟩ := h.toReady.reading hc ho hst
  exact ⟨⟨hr, fun k => hf k (h.free k)⟩, hs⟩

/-- A row that is locked. -/
theorem selectForUpdate (h : Alone i ws W) (hc : c.fault = none) (t : Table)
    (q : Db → Option t.Row) :
    ∃ W', opStep i c (.selectForUpdate t q) W =
        some (.ok (q (ws.foldl (fun db w => w.apply db) W.store.db)), W') ∧
      Alone i ws W' ∧ Same (some .cache) W W' := by
  obtain ⟨W', hst⟩ : ∃ W', opStep i c (.selectForUpdate t q) W =
      some (.ok (q (ws.foldl (fun db w => w.apply db) W.store.db)), W') := by
    obtain ⟨-, -, hf⟩ := h.begin W.clock
    rw [← h.view]
    simp only [opStep, World.ofStore, Store.lockRow, Store.statement, h.usable, hc,
      Bool.false_eq_true, if_false, Store.begin_view]
    cases q (W.store.view schema i) with
    | none => exact ⟨_, rfl⟩
    | some row => exact ⟨_, by simp only [hf, if_true]; rfl⟩
  exact ⟨W', hst, h.reading hc (show Op.Reading (.selectForUpdate t q) from trivial) hst⟩

end Alone

theorem Same.trans {q : Option Part} {W W' W'' : World} (h : Same q W W') (h' : Same q W' W'') :
    Same q W W'' := ⟨h'.db.trans h.db, h.beside.trans h'.beside⟩

/-- More ids to draw make no difference. -/
theorem run_moreDraws {i random : Nat} {α : Type} {p : Service α} {W W' : World}
    {draws draws' : List UUID} {r : Except Exn α}
    (h : p.run (alone i random) (W, draws) = some (r, (W', draws'))) (more : List UUID) :
    p.run (alone i random) (W, draws ++ more) = some (r, (W', draws' ++ more)) := by
  induction p generalizing W draws with
  | ret a => cases h; rfl
  | raise e => cases h; rfl
  | op o k ih =>
    simp only [Prog.run] at h ⊢
    split at h
    · rename_i x s hx
      have hmore : ∃ V rest, s = (V, rest) ∧
          alone i random o (W, draws ++ more) = some (x, (V, rest ++ more)) := by
        by_cases hu : o = .uuid4
        · subst hu
          cases draws with
          | nil => cases hx
          | cons id draws => cases hx; exact ⟨W, draws, rfl, rfl⟩
        · obtain ⟨V, hst, rfl⟩ := alone_some hx hu
          exact ⟨V, draws, rfl, alone_eq _ hst hu⟩
      obtain ⟨V, rest, rfl, hx'⟩ := hmore
      rw [hx']
      exact ih x h
    · cases h

/-- A write of a call that runs alone. -/
theorem Alone.run_write {i : Nat} {ws : List Write} {W : World} (h : Alone i ws W) (random : Nat)
    (draws : List UUID) {w : Write}
    (hw : ∀ k ∈ w.fresh, Db.present k (ws.foldl (fun db w => w.apply db) W.store.db) = false) :
    ∃ τ W', Prog.run (alone i random) (Prog.perform (Op.write w)) (W, draws) =
        some (.ok (), (W', draws)) ∧ Alone i (ws ++ [w.stamp τ]) W' ∧ Same none W W' := by
  obtain ⟨τ, W', hst, hW, hs⟩ := h.write (c := { random }) rfl hw
  exact ⟨τ, W', by rw [Prog.run_perform, alone_eq draws hst (by simp)], hW, hs⟩

/-- A commit of a call that runs alone. -/
theorem Alone.run_commit {i : Nat} {ws : List Write} {W : World} (h : Alone i ws W) (random : Nat)
    (draws : List UUID) :
    ∃ W', Service.commit.run (alone i random) (W, draws) = some (.ok (), (W', draws)) ∧
      Alone i [] W' ∧ W'.store.db = ws.foldl (fun db w => w.apply db) W.store.db ∧
      Beside none W W' := by
  obtain ⟨W', hst, hW⟩ := h.commit (c := { random }) rfl
  refine ⟨W', ?_, hW⟩
  show Prog.run _ (Prog.perform _) _ = _
  rw [Prog.run_perform, alone_eq draws hst (by simp)]

/-- A write of a call that runs alone, where it was not refused. -/
theorem Alone.write_of_run {i random : Nat} {ws : List Write} {W : World} (h : Alone i ws W)
    {draws : List UUID} {w : Write} {s' : World × List UUID}
    (hr : Prog.run (alone i random) (Prog.perform (Op.write w)) (W, draws) = some (.ok (), s')) :
    ∃ τ W', s' = (W', draws) ∧ Alone i (ws ++ [w.stamp τ]) W' ∧ Same none W W' ∧
      ∀ k ∈ w.fresh, Db.present k (ws.foldl (fun db w => w.apply db) W.store.db) = false := by
  rw [Prog.run_perform] at hr
  obtain ⟨W', hst, rfl⟩ := alone_some hr nofun
  obtain ⟨⟨τ, hW⟩, hs, hfresh⟩ := h.write_ok rfl hst
  exact ⟨τ, W', rfl, hW, hs, hfresh⟩

/-- **What a call reads** leaves everything but the cache as it was, and locks for itself. -/
theorem Ready.run_reading {i random : Nat} {ρ : Exn → Prop} {α : Type} {p : Service α}
    (hp : Service.Quiet ρ p) {ws : List Write} {W W' : World} {draws draws' : List UUID}
    {r : Except Exn α} (h : Ready i ws W)
    (hr : p.run (alone i random) (W, draws) = some (r, (W', draws'))) :
    Ready i ws W' ∧ Same (some .cache) W W' ∧
      ∀ k, W.store.free i k = true → W'.store.free i k = true := by
  induction p generalizing W draws with
  | ret a => cases hr; exact ⟨h, ⟨rfl, .refl⟩, fun _ => id⟩
  | raise e => cases hr; exact ⟨h, ⟨rfl, .refl⟩, fun _ => id⟩
  | op o k ih =>
    obtain ⟨ho, he, hok⟩ := hp
    have next {x : Except Exn o.Res} {V : World} {draws₁ : List UUID} (hV : Ready i ws V)
        (hsame : Same (some .cache) W V)
        (hfree : ∀ k, W.store.free i k = true → V.store.free i k = true)
        (hr : (k x).run (alone i random) (V, draws₁) = some (r, (W', draws'))) :
        Ready i ws W' ∧ Same (some .cache) W W' ∧
          ∀ k, W.store.free i k = true → W'.store.free i k = true := by
      cases x with
      | error e =>
        rw [he] at hr
        cases hr
        exact ⟨hV, hsame, hfree⟩
      | ok a =>
        obtain ⟨hW', hs', hf'⟩ := ih _ (hok a) hV hr
        exact ⟨hW', hsame.trans hs', fun k hk => hf' k (hfree k hk)⟩
    simp only [Prog.run] at hr
    split at hr
    · rename_i x s hx
      by_cases hu : o = .uuid4
      · subst hu
        cases draws with
        | nil => cases hx
        | cons id draws => cases hx; exact next h ⟨rfl, .refl⟩ (fun _ hk => hk) hr
      · obtain ⟨V, hst, rfl⟩ := alone_some hx hu
        obtain ⟨hV, hsame, hfree⟩ := h.reading rfl ho hst
        exact next hV hsame hfree hr
    · cases hr

theorem run_reading {i random : Nat} {ρ : Exn → Prop} {α : Type} {p : Service α}
    (hp : Service.Quiet ρ p) {ws : List Write} {W W' : World} {draws draws' : List UUID}
    {r : Except Exn α} (h : Alone i ws W)
    (hr : p.run (alone i random) (W, draws) = some (r, (W', draws'))) :
    Alone i ws W' ∧ Same (some .cache) W W' := by
  obtain ⟨hR, hs, hf⟩ := h.toReady.run_reading hp hr
  exact ⟨⟨hR, fun k => hf k (h.free k)⟩, hs⟩

/-- A query of a call. -/
theorem Ready.run_select {i : Nat} {ws : List Write} {W : World} (h : Ready i ws W) (random : Nat)
    (draws : List UUID) {β : Type} (q : Db → β) :
    ∃ W', (Service.select q).run (alone i random) (W, draws) =
        some (.ok (q (ws.foldl (fun db w => w.apply db) W.store.db)), (W', draws)) ∧
      Ready i ws W' ∧ Same none W W' ∧ ∀ k, W'.store.free i k = W.store.free i k := by
  obtain ⟨W', hst, hW⟩ := h.select (c := { random }) rfl q
  refine ⟨W', ?_, hW⟩
  show Prog.run _ (Prog.perform _) _ = _
  rw [Prog.run_perform, alone_eq draws hst (by simp)]

theorem Alone.run_select {i : Nat} {ws : List Write} {W : World} (h : Alone i ws W) (random : Nat)
    (draws : List UUID) {β : Type} (q : Db → β) :
    ∃ W', (Service.select q).run (alone i random) (W, draws) =
        some (.ok (q (ws.foldl (fun db w => w.apply db) W.store.db)), (W', draws)) ∧
      Alone i ws W' ∧ Same none W W' := by
  obtain ⟨W', hrun, hR, hs, hf⟩ := h.toReady.run_select random draws q
  exact ⟨W', hrun, ⟨hR, fun k => (hf k).trans (h.free k)⟩, hs⟩

/-- The row that a refresh finds. -/
theorem run_refresh {i random : Nat} {W : World} {draws : List UUID} (h : Alone i [] W) {t : Table}
    {rows : List t.Row} {row : t.Row} (hrows : W.store.db t = rows ++ [row])
    (hfresh : ∀ r ∈ rows, t.id r ≠ t.id row) :
    ∃ W', (Service.refresh t (t.id row)).run (alone i random) (W, draws) =
      some (.ok row, (W', draws)) ∧ Same none W W' := by
  obtain ⟨W', hselect, -, hs⟩ := h.select (c := { random }) rfl fun db => db.get t (t.id row)
  refine ⟨W', ?_, hs⟩
  have hget : W.store.db.get t (t.id row) = some row := by
    rw [Db.get, hrows, List.find?_append, List.find?_eq_none.mpr fun r hr => by
      simpa using hfresh r hr]
    simp
  rw [List.foldl_nil, hget] at hselect
  show Prog.run _ (Prog.bind (Prog.perform _) _) _ = _
  rw [Prog.run_bind, Prog.run_perform, alone_eq draws hselect (by simp)]
  rfl

end Ticketing
