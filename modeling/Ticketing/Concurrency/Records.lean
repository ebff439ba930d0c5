import Ticketing.Concurrency.History
import Ticketing.Lib.Trace

/-!
# What a call commits is what it has done

A session commits the writes its thread has performed. Where a call writes only right before it
commits, and nothing of that is refused, its trace says exactly what the commit consists of. So
what a call commits can be looked at one thread at a time, together with whatever else the call
has read or been answered before.

* `written` are the writes of a trace; `Flushed t ws`: those of `t` are `ws`, and none was
  refused.
* A `Fact` is something known of the trace, which lasts whatever follows. `done o r` is that an
  operation was answered so, `answered p a` that a whole piece of program returned `a`.
* `Walks ψ` and `Ends ψ` are the rules for a call, piece by piece and to its end: `ψ` is what has
  to be true of the trace and the writes of a commit. They are for calls that commit at most once
  (`Guarded`).

Results:
* `pending_written`: what a session has not committed yet is what its thread has written.
* `committed_of_ends`: the commits of a run are as the walk of their calls says.
  `committing_of_ends` is about a thread that is going to commit.
* `locked_of_ends`: a call has written nothing when it locks a row, so what it finds is committed.
-/

namespace Ticketing

open Lib (Prog Store System)

/-- What a thread has done. -/
abbrev Trace := Lib.Trace Op.Res Exn

/-- The write an operation sends. -/
def Op.write? : Op → Option Write
  | .write w => some w
  | _ => none

/-- The writes a thread has sent, those refused as well. -/
def written (t : Trace) : List Write := t.filterMap fun x => x.1.write?

/-- A write that is not refused. -/
abbrev Write.sent (w : Write) : Σ o : Op, Except Exn o.Res := ⟨.write w, .ok ()⟩

/-- The trace ends with the writes `ws`, none of them refused, and they are all it has. -/
def Flushed (t : Trace) (ws : List Write) : Prop :=
  ∃ u, t = u ++ ws.map Write.sent ∧ written u = []

section Flushed

variable {t u : Trace} {ws : List Write}

theorem written_append : written (t ++ u) = written t ++ written u := List.filterMap_append

theorem flushed_nil_iff : Flushed t [] ↔ written t = [] := by
  simp [Flushed]

theorem Flushed.snoc (h : Flushed t ws) (w : Write) : Flushed (t ++ [w.sent]) (ws ++ [w]) := by
  obtain ⟨u, rfl, hu⟩ := h
  exact ⟨u, by simp, hu⟩

/-- What the last operation of a flushed trace is, and what was there before it. -/
theorem Flushed.init {x : Σ o : Op, Except Exn o.Res} (h : Flushed (t ++ [x]) ws) :
    x.1.write? = none ∧ ws = [] ∧ Flushed t [] ∨
      ∃ ws' w, x = w.sent ∧ ws = ws' ++ [w] ∧ Flushed t ws' := by
  obtain ⟨u, ht, hu⟩ := h
  rcases List.eq_nil_or_concat' ws with rfl | ⟨ws, w, rfl⟩
  · rw [List.map_nil, List.append_nil] at ht
    subst ht
    rw [written_append, List.append_eq_nil_iff] at hu
    refine .inl ⟨?_, rfl, flushed_nil_iff.mpr hu.1⟩
    simpa [written] using hu.2
  · rw [List.map_append, ← List.append_assoc] at ht
    obtain ⟨rfl, hx⟩ := List.append_inj' ht rfl
    exact .inr ⟨ws, w, List.singleton_inj.mp hx, rfl, u, rfl, hu⟩

end Flushed

namespace Traced

/-! ## Walks -/

/-- What an operation answers: a query what it finds in some database. -/
def Answers : (o : Op) → Except Exn o.Res → Prop
  | .select q, r => ∀ a, r = .ok a → ∃ db, a = q db
  | .selectForUpdate _ q, r => ∀ a, r = .ok a → ∃ db, a = q db
  | _, _ => True

/-- Something known of a trace that lasts. -/
structure Fact where
  holds : Trace → Prop
  lasting : ∀ {t : Trace} (u : Trace), holds t → holds (t ++ u)

namespace Fact

instance instCoeFun : CoeFun Fact fun _ => Trace → Prop := ⟨Fact.holds⟩

/-- What does not depend on the trace. -/
def pure (p : Prop) : Fact := ⟨fun _ => p, fun _ h => h⟩

def and (K L : Fact) : Fact :=
  ⟨fun t => K t ∧ L t, fun u h => ⟨K.lasting u h.1, L.lasting u h.2⟩⟩

def or (K L : Fact) : Fact :=
  ⟨fun t => K t ∨ L t, fun u h => h.imp (K.lasting u) (L.lasting u)⟩

/-- The operation was performed and answered. -/
def done (o : Op) (r : Except Exn o.Res) : Fact :=
  ⟨fun t => ⟨o, r⟩ ∈ t, fun _ h => List.mem_append_left _ h⟩

/-- The program was run and returned `a`. -/
def answered {α : Type} (p : Service α) (a : α) : Fact where
  holds t := ∃ u w v, t = u ++ w ++ v ∧ p.Goes w (.ret a)
  lasting := by
    rintro _ x ⟨u, w, v, rfl, hw⟩
    exact ⟨u, w, v ++ x, by simp, hw⟩

end Fact

section Walks

variable (ψ : Trace → List Write → Prop)

/-- Rows are locked before anything is written, and a commit is as `ψ` says. -/
def Guarded : Trace → Op → Prop
  | t, .commit => ∃ ws, Flushed t ws ∧ ψ t ws
  | t, .selectForUpdate .. => written t = []
  | _, _ => True

/-- An operation `Guarded` says nothing about. -/
def Unguarded : Op → Prop
  | .commit | .selectForUpdate .. => False
  | _ => True

variable {α β : Type}

/-- What `p` does after a trace with the writes `ws` of which `K` is known. -/
def Walks (K : Fact) (ws : List Write) (p : Service α) (B : α → Fact) (ws' : List Write) : Prop :=
  ∀ t, Flushed t ws → K t →
    p.Safe Answers (Guarded ψ) (fun a v => Flushed v ws' ∧ B a v) (fun _ _ => True) t

/-- The same for the last part of a call. -/
def Ends (K : Fact) (ws : List Write) (p : Service α) : Prop :=
  ∀ t, Flushed t ws → K t →
    p.Safe Answers (Guarded ψ) (fun _ _ => True) (fun _ _ => True) t

variable {ψ} {K : Fact} {ws : List Write}

theorem Walks.bind {p : Service α} {f : α → Service β} {B : α → Fact} {C : β → Fact}
    {ws' ws'' : List Write} (hp : Walks ψ K ws p B ws') (hf : ∀ a, Walks ψ (B a) ws' (f a) C ws'') :
    Walks ψ K ws (p.bind f) C ws'' := fun t ht hK =>
  .bind ((hp t ht hK).mono (fun a v h => hf a v h.1 h.2) fun _ _ h => h)

theorem Ends.bind {p : Service α} {f : α → Service β} {B : α → Fact} {ws' : List Write}
    (hp : Walks ψ K ws p B ws') (hf : ∀ a, Ends ψ (B a) ws' (f a)) :
    Ends ψ K ws (p.bind f) := fun t ht hK =>
  .bind ((hp t ht hK).mono (fun a v h => hf a v h.1 h.2) fun _ _ h => h)

theorem Walks.ret {a : α} {B : α → Fact} (h : ∀ t, K t → B a t) :
    Walks ψ K ws (pure a) B ws := fun t ht hK => ⟨ht, h t hK⟩

theorem Walks.raise {e : Exn} {B : α → Fact} {ws' : List Write} :
    Walks ψ K ws (throw e) B ws' := fun _ _ _ => trivial

theorem Ends.raise {e : Exn} : Ends ψ K ws (throw e : Service α) := fun _ _ _ => trivial

theorem Walks.mono {p : Service α} {B B' : α → Fact} {ws' : List Write}
    (h : Walks ψ K ws p B ws') (hB : ∀ a t, B a t → B' a t) : Walks ψ K ws p B' ws' :=
  fun t ht hK => (h t ht hK).mono (fun a v hv => ⟨hv.1, hB a v hv.2⟩) fun _ _ h => h

theorem Ends.mono {ψ' : Trace → List Write → Prop} {p : Service α} (h : Ends ψ K ws p)
    (hψ : ∀ t ws, ψ t ws → ψ' t ws) : Ends ψ' K ws p := fun t ht hK =>
  (h t ht hK).imp fun v o ho => by
    cases o <;> first | trivial | exact ho.imp fun ws h => ⟨h.1, hψ v ws h.2⟩

theorem Ends.pre {K' : Fact} {p : Service α} (h : Ends ψ K' ws p) (hK : ∀ t, K t → K' t) :
    Ends ψ K ws p := fun t ht hKt => h t ht (hK t hKt)

theorem written_reading {t : Trace} (h : ∀ x ∈ t, x.1.Reading) : written t = [] := by
  rw [written, List.filterMap_eq_nil_iff]
  intro x hx
  have hx := h x hx
  generalize x.1 = o at hx
  cases o <;> first | exact hx.elim | rfl

/-- Reading, before anything is written. -/
theorem Walks.quiet {p : Service α} {ρ : Exn → Prop} (hp : Service.Quiet ρ p) :
    Walks ψ K [] p (fun a => K.and (.answered p a)) [] := by
  intro t ht hK
  have hw := flushed_nil_iff.mp ht
  refine (Prog.Within.safe (hp.within fun _ ho => ho) fun v o htv hv ho => ?_).mono ?_
    fun _ _ _ => trivial
  · cases o with
    | selectForUpdate =>
      obtain ⟨u, rfl⟩ := htv
      rw [List.drop_left] at hv
      show written (t ++ u) = []
      rw [written_append, hw, written_reading hv, List.append_nil]
    | _ => trivial
  · rintro a v ⟨-, u, rfl, hu, hread⟩
    refine ⟨flushed_nil_iff.mpr ?_, K.lasting u hK, t, u, [], by simp, hu⟩
    rw [written_append, hw, written_reading hread, List.append_nil]

/-- A query, before anything is written. -/
theorem Walks.select (q : Db → β) :
    Walks ψ K [] (Service.select q)
      (fun a => (K.and (.done (.select q) (.ok a))).and (.pure (∃ db, a = q db))) [] := by
  intro t ht hK
  refine .perform trivial (fun a ha => ⟨?_, ⟨K.lasting _ hK, ?_⟩, ha a rfl⟩) fun _ => trivial
  · rw [flushed_nil_iff, written_append, flushed_nil_iff.mp ht]
    rfl
  · exact List.mem_append_right _ (List.mem_singleton.mpr rfl)

theorem Walks.selectForUpdate (t : Table) (q : Db → Option t.Row) :
    Walks ψ K [] (Service.selectForUpdate t q)
      (fun a => (K.and (.done (.selectForUpdate t q) (.ok a))).and
        (.pure (∃ db, a = q db))) [] := by
  intro u hu hK
  have hw := flushed_nil_iff.mp hu
  refine .perform hw (fun a ha => ⟨?_, ⟨K.lasting _ hK, ?_⟩, ha a rfl⟩) fun _ => trivial
  · rw [flushed_nil_iff, written_append, hw]
    rfl
  · exact List.mem_append_right _ (List.mem_singleton.mpr rfl)

theorem Walks.write (w : Write) :
    Walks ψ K ws (Prog.perform (Op.write w)) (fun _ => K) (ws ++ [w]) := fun _ ht hK =>
  .perform trivial (fun _ _ => ⟨ht.snoc w, K.lasting _ hK⟩) fun _ => trivial

theorem Walks.update {t : Table} (loaded current : t.Row) :
    Walks ψ K ws (Service.update t loaded current) (fun _ => K)
      (ws ++ Write.updates t loaded current) := by
  unfold Service.update Write.updates
  split
  · rw [List.append_nil]
    exact .ret fun _ h => h
  · exact .write _

/-- A part that neither locks nor commits. -/
theorem safe_unguarded {p : Service α} (hp : p.Within Unguarded fun _ => True) (t : Trace) :
    p.Safe Answers (Guarded ψ) (fun _ _ => True) (fun _ _ => True) t :=
  (hp.safe fun _ o _ _ ho => by cases o <;> trivial).mono (fun _ _ _ => trivial)
    fun _ _ _ => trivial

/-- The commit, and what follows it. -/
theorem Ends.commit {f : Unit → Service α} (hψ : ∀ t, K t → ψ t ws)
    (hf : (f ()).Within Unguarded fun _ => True) : Ends ψ K ws (Service.commit.bind f) := by
  intro t ht hK
  exact .bind (.perform ⟨ws, ht, hψ t hK⟩ (fun _ _ => safe_unguarded hf _) fun _ => trivial)

theorem Ends.quiet {p : Service α} {ρ : Exn → Prop} (hp : Service.Quiet ρ p) : Ends ψ K [] p :=
  fun t ht hK => (Walks.quiet hp t ht hK).mono (fun _ _ _ => trivial) fun _ _ h => h

/-- The last part of a call that may go on where it raises. -/
theorem Ends.handle {p : Service α} {f : Exn → Service α} {g : α → Service β}
    (hp : Ends ψ K ws p) (hf : ∀ e, (f e).Within Unguarded fun _ => True)
    (hg : ∀ a, (g a).Within Unguarded fun _ => True) :
    Ends ψ K ws ((p.handle f).bind g) := by
  refine fun t ht hK => .bind (.handle ((hp t ht hK).mono (fun a v _ => safe_unguarded (hg a) v)
    fun e v _ => ?_))
  exact (safe_unguarded (hf e) v).mono (fun a v _ => safe_unguarded (hg a) v) fun _ _ h => h

theorem Ends.ite {c : Prop} [Decidable c] {p q : Service α} (hp : Ends ψ K ws p)
    (hq : Ends ψ K ws q) : Ends ψ K ws (if c then p else q) := by
  split
  · exact hp
  · exact hq

end Walks

end Traced

open Traced

namespace Calls

variable {C : Calls} {may : Nat → C.Call → Prop} {admits : Admission}
variable {env : World → World → Prop} {P : (C.system may admits env).Pool}
variable {T : Nat → Trace} {W₀ : World}

/-- A session is going to commit what its thread has written. -/
theorem pending (henv : ∀ W W', env W W' → W'.store.sessions = W.store.sessions)
    (h : System.Records W₀ P T) {i : Nat} {c : C.Call} {p : Service (C.Ret c)}
    (hi : P.threads i = .running c p) {ws : List Write} (ht : Flushed (T i) ws) :
    Stamped ws (P.shared.store.sessions i).writes := by
  have closed (W : World) {j : Nat} (hj : i ≠ j) :
      (W.closeSession j).store.sessions i = W.store.sessions i :=
    (Store.dropped_rollback W.store j).session i hj
  induction h generalizing c ws with
  | init => cases hi
  | @start P T h j d hj hc ih =>
    by_cases he : i = j
    · subst he
      have hnil : T i = [] := by
        have hf := h.followed i
        rwa [hj] at hf
      obtain ⟨u, hu, -⟩ := ht
      rw [hnil] at hu
      obtain ⟨rfl, rfl⟩ : u = [] ∧ ws = [] := by simpa using hu.symm
      exact stamped_nil.mpr (Store.dropped_rollback _ i).writes
    · rw [System.Pool.set_other P _ _ he] at hi
      exact (closed P.shared he) ▸ ih hi ht
  | @exec P T h j d o k hj r W hs ih =>
    obtain ⟨ch, -, hs⟩ := hs
    by_cases he : i = j
    · subst he
      rw [Function.update_self] at ht
      rcases ht.init with ⟨hw, rfl, ht'⟩ | ⟨ws, w, hx, rfl, ht'⟩
      · have hwrites := stamped_nil.mp (ih hj ht')
        refine stamped_nil.mpr ?_
        rcases opStep_writes hs (by rintro w rfl; cases hw) with hold | hold
        · exact hold.trans hwrites
        · exact hold
      · cases hx
        obtain ⟨τ, hτ⟩ := write_accepted hs
        exact hτ ▸ (ih hj ht').snoc w τ
    · rw [System.Pool.set_other P _ _ he] at hi
      rw [Function.update_of_ne he] at ht
      show Stamped ws (W.store.sessions i).writes
      rw [opStep_session hs he]
      exact ih hi ht
  | @finish P T h j d p hj r hr ih =>
    by_cases he : i = j
    · subst he
      rw [System.Pool.set_self] at hi
      cases hi
    · rw [System.Pool.set_other P _ _ he] at hi
      exact (closed P.shared he) ▸ ih hi ht
  | @crash P T h j d p hj ih =>
    by_cases he : i = j
    · subst he
      rw [System.Pool.set_self] at hi
      cases hi
    · rw [System.Pool.set_other P _ _ he] at hi
      exact (closed P.shared he) ▸ ih hi ht
  | env h W hs ih =>
    show Stamped ws (W.store.sessions i).writes
    rw [henv _ _ hs]
    exact ih hi ht

/-- A session is going to commit nothing but what its thread has sent. -/
theorem pending_written (hq : W₀.Quiet)
    (henv : ∀ W W', env W W' → W'.store.sessions = W.store.sessions) (h : System.Records W₀ P T)
    (i : Nat) : ∀ w ∈ (P.shared.store.sessions i).writes, ∃ w₀ ∈ written (T i), ∃ τ,
      w = w₀.stamp τ := by
  have closed {W : World} {j : Nat} {t : Trace} (hold : ∀ w ∈ (W.store.sessions i).writes,
      ∃ w₀ ∈ written t, ∃ τ, w = w₀.stamp τ) : ∀ w ∈ ((W.closeSession j).store.sessions i).writes,
      ∃ w₀ ∈ written t, ∃ τ, w = w₀.stamp τ := by
    by_cases he : i = j
    · subst he
      rw [show ((W.closeSession i).store.sessions i).writes = [] from
        (Store.dropped_rollback W.store i).writes]
      simp
    · rwa [show (W.closeSession j).store.sessions i = W.store.sessions i from
        (Store.dropped_rollback W.store j).session i he]
  induction h with
  | init =>
    rw [show (System.Pool.init W₀ : (C.system may admits env).Pool).shared.store.sessions i = {}
      from hq.sessions i]
    simp
  | start h j d hj hc ih => exact closed ih
  | @exec P T h j d o k hj r W hs ih =>
    obtain ⟨ch, -, hs⟩ := hs
    by_cases he : i = j
    · subst he
      rw [Function.update_self]
      have old (hw : (W.store.sessions i).writes = (P.shared.store.sessions i).writes ∨
          (W.store.sessions i).writes = []) : ∀ w ∈ (W.store.sessions i).writes,
          ∃ w₀ ∈ written (T i ++ [⟨o, r⟩]), ∃ τ, w = w₀.stamp τ := by
        intro w hmem
        rcases hw with hw | hw
        · obtain ⟨w₀, hw₀, hτ⟩ := ih w (hw ▸ hmem)
          exact ⟨w₀, written_append ▸ List.mem_append_left _ hw₀, hτ⟩
        · rw [hw] at hmem
          cases hmem
      by_cases hwrite : ∃ w, o = .write w
      · obtain ⟨w, rfl⟩ := hwrite
        rcases (write_step hs).1 with ⟨⟨τ, hwrote⟩, -⟩ | ⟨hk | hd, -⟩
        · intro w' hmem
          replace hmem : w' ∈ (W.store.sessions i).writes := hmem
          rw [hwrote.writes, List.mem_append, List.mem_singleton] at hmem
          rcases hmem with hmem | rfl
          · obtain ⟨w₀, hw₀, hτ⟩ := ih w' hmem
            exact ⟨w₀, written_append ▸ List.mem_append_left _ hw₀, hτ⟩
          · exact ⟨w, written_append ▸ List.mem_append_right _ (List.mem_singleton.mpr rfl), τ, rfl⟩
        · exact old (.inl hk.writes)
        · exact old (.inr hd.writes)
      · exact old (opStep_writes hs fun w he => hwrite ⟨w, he⟩)
    · rw [Function.update_of_ne he]
      show ∀ w ∈ (W.store.sessions i).writes, _
      rw [opStep_session hs he]
      exact ih
  | finish h j d p hj r hr ih => exact closed ih
  | crash h j d p hj ih => exact closed ih
  | env h W hs ih =>
    show ∀ w ∈ (W.store.sessions i).writes, _
    rw [henv _ _ hs]
    exact ih

/-- **What every write keeps is kept.** -/
theorem kept_of_written (hq : W₀.Quiet) {ψ : Write → Prop} {K : Db → Prop}
    (happly : ∀ w τ db, ψ w → K db → K ((w.stamp τ).apply db))
    (henv : ∀ W W', env W W' →
      W'.store.sessions = W.store.sessions ∧ (K W.store.db → K W'.store.db))
    (hwritten : ∀ {P : (C.system may admits env).Pool} {T : Nat → Trace}, System.Records W₀ P T →
      ∀ i, ∀ w ∈ written (T i), ψ w)
    (h : System.Records W₀ P T) {P' : (C.system may admits env).Pool} (hs : System.Steps P P')
    (hK : K P.shared.store.db) : K P'.shared.store.db := by
  suffices hgen : (∃ T', System.Records W₀ P' T') ∧ K P'.shared.store.db from hgen.2
  induction hs with
  | refl => exact ⟨⟨T, h⟩, hK⟩
  | tail _ hstep ih =>
    obtain ⟨⟨T, hT⟩, hK⟩ := ih
    refine ⟨hT.next hstep, ?_⟩
    cases hstep with
    | start i c hi hc => exact hK
    | @exec i c o k hi r W hs =>
      obtain ⟨ch, -, hs⟩ := hs
      rcases opStep_commits hs with ⟨hdb, -⟩ | ⟨-, hc⟩
      · show K W.store.db
        rwa [hdb]
      · show K W.store.db
        rw [hc.db, Store.view]
        refine List.foldlRecOn _ _ hK fun db hdb w hmem => ?_
        obtain ⟨w₀, hw₀, τ, rfl⟩ :=
          pending_written hq (fun W W' hW => (henv W W' hW).1) hT i w hmem
        exact happly w₀ τ db (hwritten hT i w₀ hw₀) hdb
    | finish i c p hi r hr => exact hK
    | crash i c p hi => exact hK
    | env W hs => exact (henv _ _ hs).2 hK

/-- Each commit is one its thread has done, of what it had written by then. -/
theorem performed_of_committed (hq : W₀.Quiet)
    (henv : ∀ W W', env W W' → W'.store.sessions = W.store.sessions ∧ W'.store.wal = W.store.wal)
    (h : System.Records W₀ P T) {i : Nat} {ws' : List Write}
    (hmem : (i, ws') ∈ P.shared.store.wal) :
    ∃ u r v, T i = u ++ ⟨.commit, r⟩ :: v ∧ ∀ ws, Flushed u ws → Stamped ws ws' := by
  induction h with
  | init =>
    rw [show (System.Pool.init W₀ : (C.system may admits env).Pool).shared.store.wal = [] from
      hq.wal] at hmem
    cases hmem
  | start h j d hj hc ih => exact ih hmem
  | @exec P T h j d o k hj r W hs ih =>
    obtain ⟨ch, -, hs⟩ := hs
    have old (hmem : (i, ws') ∈ P.shared.store.wal) : ∃ u r' v,
        Function.update T j (T j ++ [⟨o, r⟩]) i = u ++ ⟨.commit, r'⟩ :: v ∧
          ∀ ws, Flushed u ws → Stamped ws ws' := by
      obtain ⟨u, r', v, ht, hws⟩ := ih hmem
      by_cases he : i = j
      · subst he
        exact ⟨u, r', v ++ [⟨o, r⟩], by rw [Function.update_self, ht]; simp, hws⟩
      · exact ⟨u, r', v, by rw [Function.update_of_ne he, ht], hws⟩
    rcases opStep_commits hs with ⟨-, hw⟩ | ⟨rfl, hc⟩
    · exact old (hw ▸ hmem)
    · replace hmem : (i, ws') ∈ W.store.wal := hmem
      rw [hc.wal, List.mem_append, List.mem_singleton] at hmem
      rcases hmem with hmem | he
      · exact old hmem
      · obtain ⟨rfl, rfl⟩ := Prod.mk.inj he
        exact ⟨T i, r, [], Function.update_self .., fun ws ht =>
          pending (fun W W' hW => (henv W W' hW).1) h hj ht⟩
  | finish h j d p hj r hr ih => exact ih hmem
  | crash h j d p hj ih => exact ih hmem
  | env h W hs ih => exact ih ((henv _ _ hs).2 ▸ hmem)

theorem answers {i : Nat} {c : C.Call} {o : Op} {W W' : World} {r : Except Exn o.Res}
    (h : (C.system may admits env).step i c o W r W') : Answers o r := by
  obtain ⟨ch, -, h⟩ := h
  cases o with
  | select q =>
    intro a ha
    rcases (select_step h).1 with ⟨-, hq⟩ | ⟨-, -, e, he⟩
    · exact ⟨_, hq a ha⟩
    · rw [ha] at he
      cases he
  | selectForUpdate t q =>
    intro a ha
    rcases (selectForUpdate_step h).1 with ⟨-, hq⟩ | ⟨-, -, e, he⟩
    · exact ⟨_, (hq a ha).1⟩
    · rw [ha] at he
      cases he
  | _ => trivial

/-- What a call is about to commit is as its walk says. -/
theorem committing_of_ends
    (henv : ∀ W W', env W W' → W'.store.sessions = W.store.sessions)
    {ψ : C.Call → Trace → List Write → Prop}
    (hends : ∀ c, Ends (ψ c) (.pure True) [] (C.prog c)) (h : System.Records W₀ P T) {i : Nat}
    {c : C.Call} {k : Except Exn Unit → Service (C.Ret c)}
    (hi : P.threads i = .running c (.op .commit k)) :
    ∃ ws, ψ c (T i) ws ∧ Stamped ws (P.shared.store.sessions i).writes := by
  obtain ⟨ws, hflush, hψ⟩ := h.performs hi (fun _ _ _ _ _ _ => answers)
    (hends c [] (flushed_nil_iff.mpr rfl) trivial)
  exact ⟨ws, hψ, pending henv h hi hflush⟩

/-- **The commits of a run are as the walk of their calls says.** -/
theorem committed_of_ends (hq : W₀.Quiet)
    (henv : ∀ W W', env W W' → W'.store.sessions = W.store.sessions ∧ W'.store.wal = W.store.wal)
    {ψ : C.Call → Trace → List Write → Prop}
    (hends : ∀ c, Ends (ψ c) (.pure True) [] (C.prog c)) (h : System.Records W₀ P T) {i : Nat}
    {ws' : List Write} (hmem : (i, ws') ∈ P.shared.store.wal) :
    ∃ c u v ws, (P.threads i).call? = some c ∧ T i = u ++ v ∧ ψ c u ws ∧ Stamped ws ws' := by
  obtain ⟨u, r, v, ht, hws⟩ := performed_of_committed hq henv h hmem
  obtain ⟨c, hc⟩ := h.call (by simp [ht] : T i ≠ [])
  obtain ⟨ws, hflush, hψ⟩ := h.performed hc (fun _ _ _ _ _ _ => answers)
    (hends c [] (flushed_nil_iff.mpr rfl) trivial) ht
  exact ⟨c, u, _, ws, hc, ht, hψ, hws ws hflush⟩

/-- A row is locked before its thread has written anything. -/
theorem locked_of_ends {ψ : C.Call → Trace → List Write → Prop}
    (hends : ∀ c, Ends (ψ c) (.pure True) [] (C.prog c)) (h : System.Records W₀ P T) {i : Nat}
    {t : Table} {q : Db → Option t.Row} {r : Except Exn (Option t.Row)} {u v : Trace}
    (ht : T i = u ++ ⟨.selectForUpdate t q, r⟩ :: v) : written u = [] := by
  obtain ⟨c, hc⟩ := h.call (by simp [ht] : T i ≠ [])
  exact h.performed hc (fun _ _ _ _ _ _ => answers)
    (hends c [] (flushed_nil_iff.mpr rfl) trivial) ht

end Calls

end Ticketing
