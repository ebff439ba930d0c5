import Ticketing.Concurrency.History
import Ticketing.Concurrency.RowRules

/-!
# Calls that commit once

`CommitRules` says what each call of a family may commit, as a relation between the committed rows
of some tables and the writes, and which of these tables the rest of the system leaves alone.

* `Legal` histories: each commit is one that the rows left by the commits before it allow, and no
  thread commits twice (`commitsOf`).
* A call is walked once, from a fresh session to its commit, with what it has read, locked and
  written so far: the rules of `RowRules.lean` at `rowRules R`, with `committed` after the commit.

Results:
* `ok`: programs that are walked so keep every history legal.
* `reached`: in every reachable pool the history is legal, and a call that has returned committed
  what it says it did.

What is true of every run of such a family is then a fact about legal histories.
-/

namespace Ticketing

open Lib (Prog Store System Outline)
open Lib.Outline (Triple Assertion post)

/-- What the calls of a family may commit. -/
structure CommitRules (Call : Type) where
  /-- The tables the rules are about. -/
  tables : List Table
  /-- What nobody takes from the rows. -/
  kept : Db → Db → Prop
  commits : Call → Db → List Write → Prop
  trans : ∀ {db db' db''}, kept db db' → kept db' db'' → kept db db''
  kept_of_rows : ∀ {db db' : Db}, (∀ t ∈ tables, db' t = db t) → kept db db'
  kept_of_commits : ∀ {c db ws}, commits c db ws → kept db (ws.foldl (fun db w => w.apply db) db)
  congr : ∀ {c ws} {db db' : Db}, (∀ t ∈ tables, db' t = db t) → commits c db ws → commits c db' ws

/-- What thread `i` has committed, transaction by transaction. -/
def commitsOf (i : Nat) (wal : List (Nat × List Write)) : List (List Write) :=
  (wal.filter (·.1 = i)).map (·.2)

theorem commitsOf_append_other {i : Nat} (wal : List (Nat × List Write))
    {more : List (Nat × List Write)} (h : ∀ c ∈ more, c.1 ≠ i) :
    commitsOf i (wal ++ more) = commitsOf i wal := by
  have hnone : more.filter (fun c => decide (c.1 = i)) = [] :=
    List.filter_eq_nil_iff.mpr fun c hc he => h c hc (of_decide_eq_true he)
  rw [commitsOf, List.filter_append, hnone, List.append_nil, commitsOf]

theorem commitsOf_nil {i : Nat} {wal : List (Nat × List Write)} (h : ∀ c ∈ wal, c.1 ≠ i) :
    commitsOf i wal = [] := by
  have := commitsOf_append_other [] h
  rwa [List.nil_append] at this

theorem commitsOf_concat (i : Nat) (wal : List (Nat × List Write)) (ws : List Write)
    (h : ∀ c ∈ wal, c.1 ≠ i) : commitsOf i (wal ++ [(i, ws)]) = [ws] := by
  have hnone : wal.filter (fun c => decide (c.1 = i)) = [] :=
    List.filter_eq_nil_iff.mpr fun c hc he => h c hc (of_decide_eq_true he)
  rw [commitsOf, List.filter_append, hnone]
  simp

theorem mem_of_commitsOf {i : Nat} {wal : List (Nat × List Write)} {ws : List Write}
    (h : ws ∈ commitsOf i wal) : (i, ws) ∈ wal := by
  obtain ⟨c, hc, rfl⟩ := List.mem_map.mp h
  obtain ⟨hc, hi⟩ := List.mem_filter.mp hc
  rwa [← of_decide_eq_true hi]

namespace CommitRules

variable {Call : Type} (R : CommitRules Call)

/-- The history `wal` and what it has made of `db₀`. -/
structure Legal (may : Nat → Call → Prop) (db₀ db : Db) (wal : List (Nat × List Write)) : Prop where
  rows : ∀ t ∈ R.tables, db t = db₀.after wal t
  once : (wal.map (·.1)).Nodup
  allowed : ∀ past i ws, past ++ [(i, ws)] <+: wal →
    ∃ c, may i c ∧ R.commits c (db₀.after past) ws

variable {R} {may : Nat → Call → Prop} {db₀ : Db}

theorem Legal.nil (db : Db) : R.Legal may db db [] :=
  ⟨fun _ _ => rfl, List.nodup_nil, fun past i ws h => by simp at h⟩

/-- A commit the rules allow. -/
theorem Legal.commit {db : Db} {wal : List (Nat × List Write)} (h : R.Legal may db₀ db wal)
    {i : Nat} {c : Call} {ws : List Write} (hmay : may i c) (hnew : ∀ x ∈ wal, x.1 ≠ i)
    (hc : R.commits c db ws) :
    R.Legal may db₀ (ws.foldl (fun db w => w.apply db) db) (wal ++ [(i, ws)]) where
  rows t ht := by
    rw [Db.after_append]
    exact Write.foldl_congr _ (h.rows t ht)
  once := by
    rw [List.map_append, List.map_singleton, List.nodup_append]
    refine ⟨h.once, List.nodup_singleton _, fun a ha b hb => ?_⟩
    obtain ⟨x, hx, rfl⟩ := List.mem_map.mp ha
    rw [List.mem_singleton.mp hb]
    exact hnew x hx
  allowed past j us hx := by
    rcases List.prefix_concat_iff.mp hx with he | hx
    · obtain ⟨rfl, rfl, rfl⟩ : past = wal ∧ j = i ∧ us = ws := by
        simpa using List.append_inj' he rfl
      exact ⟨c, hmay, R.congr (fun t ht => (h.rows t ht).symm) hc⟩
    · exact h.allowed past j us hx

variable (R may db₀) in
/-- Every history is legal, and what the rules keep is kept. -/
abbrev rowRules : RowRules where
  inv := R.Legal may db₀
  kept := R.kept
  refl _ := R.kept_of_rows fun _ _ => rfl
  trans := R.trans

variable {i : Nat} {admits : Admission} {α β : Type}

variable (R may db₀ i) in
abbrev Knows := (rowRules R may db₀).Knows i

/-- What the thread has committed. -/
def committed (ψ : List (List Write) → Prop) : Knows R may db₀ i where
  holds W := ψ (commitsOf i W.store.wal)
  stable _ _ h hm := by
    obtain ⟨more, hw, hn⟩ := hm.2.1.wal
    rwa [hw, commitsOf_append_other _ hn]

open RowRules (Walks reserved silent)
open WorldOutline (Before Own local_before)

variable {X : Knows R may db₀ i} {φ ψ : List Write → Prop}

/-- An insert into a table the transaction has not written to: its keys are now reserved. -/
theorem inserting {t : Table} {row : t.Row} (hX : Own X)
    (hφ : ∀ ws, φ ws → ∀ w ∈ ws, t ≠ w.table)
    (hψ : ∀ ws τ, φ ws → ψ (ws ++ [(Write.insert t row).stamp τ])) :
    Walks admits X φ (Service.insert t row) fun _ => Before (X.and (reserved (t.keys row))) ψ :=
  WorldOutline.write (local_before hX fun _ _ _ => trivial)
    (fun W W' τ _ h hw hs => by
      refine ⟨WorldOutline.noCommit_local hw.toLocal h.1, ⟨hX hw.toLocal hw.own hs h.2.1,
        fun k hk => ⟨hw.keys k hk, ?_⟩⟩, ?_⟩
      · have hf : Db.present k (W.store.view schema i) = false := hw.fresh k hk
        have htab : k.table = t := Table.table_of_mem_keys hk
        subst htab
        have hview : W.store.view schema i k.table = W.store.db k.table :=
          Write.foldl_other (hφ _ h.2.2) _
        rw [hw.db]
        rwa [Db.present, hview] at hf
      · show ψ (W'.store.sessions i).writes
        rw [hw.writes]
        exact hψ _ τ h.2.2)
    fun _ _ _ => trivial

/-- The commit of a call. -/
theorem committing {c : Call} (hmay : may i c) {χ : List (List Write) → Prop}
    (hready : ∀ W ch, (rowRules R may db₀).outline.outline.inv W → X W →
      φ (W.store.sessions i).writes → admits i W .commit ch →
      R.commits c W.store.db (W.store.sessions i).writes)
    (hχ : ∀ ws, φ ws → χ [ws]) :
    Walks admits X φ Service.commit fun _ => committed χ :=
  RowRules.committing
    (fun W ch hi h hadm =>
      have hc := hready W ch hi h.2.1 h.2.2 hadm
      ⟨R.kept_of_commits hc, hi.2.commit hmay h.1 hc⟩)
    fun W W' h hwal => by
      show χ (commitsOf i W'.store.wal)
      rw [hwal, commitsOf_concat i _ _ h.1]
      exact hχ _ h.2.2

/-- A call that ends without a commit. -/
theorem walks_pure {a : α} {χ : List (List Write) → Prop} (h : χ []) :
    Walks admits X φ (pure a) fun _ => committed χ :=
  Triple.ret fun W _ hb => by
    show χ (commitsOf i W.store.wal)
    rw [commitsOf_nil hb.1]
    exact h

/-! ## The pool -/

theorem elsewhere {W W' : World} (h : Untouched R.tables W W')
    (hi : (rowRules R may db₀).outline.outline.inv W) :
    (rowRules R may db₀).outline.outline.inv W' ∧
      ∀ j, (rowRules R may db₀).outline.outline.frame j W W' :=
  RowRules.elsewhere h (R.kept_of_rows h.rows)
    (fun hl => ⟨fun t ht => (h.rows t ht).trans (hl.rows t ht), hl.once, hl.allowed⟩) hi

variable {C : Calls}

/-- What is said of a thread that has returned: what it has committed. -/
def Answered (χ : (c : C.Call) → C.Ret c → List (List Write) → Prop) (i : Nat) (c : C.Call)
    (r : Except Exn (C.Ret c)) (W : World) : Prop :=
  ∀ a, r = .ok a → χ c a (commitsOf i W.store.wal)

/-- **The programs keep every history legal.** -/
theorem ok {R : CommitRules C.Call} {may : Nat → C.Call → Prop}
    {χ : (c : C.Call) → C.Ret c → List (List Write) → Prop}
    (hcall : ∀ i c, may i c → Walks admits (.true : Knows R may db₀ i) (· = []) (C.prog c)
      fun a => committed (χ c a)) :
    (rowRules R may db₀).outline.outline.Ok (C.system may admits (Untouched R.tables))
      (fun i c => post (fun a => (committed (χ c a) : Knows R may db₀ i)) silent)
      (Answered χ) :=
  WorldOutline.sound (C := C) (fun _ _ _ _ => trivial)
    (fun i c a => committed (χ c a)) (fun _ _ => silent) hcall
    (fun i c r W again h a ha => by
      subst ha
      exact h)
    (fun i c r W W' h hm a ha => by
      obtain ⟨more, hw, hn⟩ := hm.2.1.wal
      rw [hw, commitsOf_append_other _ hn]
      exact h a ha)
    fun _ _ hi henv => elsewhere henv hi

theorem inv_start {R : CommitRules C.Call} {may : Nat → C.Call → Prop} {W₀ : World}
    (hq : W₀.Quiet) : (rowRules R may W₀.store.db).outline.outline.inv W₀ :=
  RowRules.inv_start hq (.nil _)

/-- What holds in every reachable state. -/
theorem reached {R : CommitRules C.Call} {may : Nat → C.Call → Prop}
    {χ : (c : C.Call) → C.Ret c → List (List Write) → Prop} {W₀ : World} (hq : W₀.Quiet)
    (hcall : ∀ i c, may i c →
      Walks admits (.true : Knows R may W₀.store.db i) (· = []) (C.prog c)
        fun a => committed (χ c a))
    {pool : (C.system may admits (Untouched R.tables)).Pool} (h : System.Reachable W₀ pool) :
    R.Legal may W₀.store.db pool.shared.store.db pool.shared.store.wal ∧
      ∀ i c a, pool.threads i = .finished c (.ok a) →
        χ c a (commitsOf i pool.shared.store.wal) := by
  have hok := (ok hcall).sound (inv_start hq) h
  exact ⟨hok.inv.2, fun i c a hi => hok.finished hi a rfl⟩

end CommitRules

end Ticketing
