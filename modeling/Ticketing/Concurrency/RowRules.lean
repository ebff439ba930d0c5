import Ticketing.Concurrency.System

/-!
# What a session knows of the rows

Calls that read, lock and write rows and then commit. A `RowRules` is an invariant of the
committed rows and the history of commits, with what nobody takes from the rows (`kept`); beside
that a session may rely on the rows it has locked and on the keys it has reserved. The rules of
`Commits.lean` and those of `Administration.lean` are of this kind.

* `fact`, `locked`, `reserved` are what a session knows, and `own_fact`, `own_locked` and
  `own_reserved` say that it does not forget it by what it does itself.
* `Walks X φ p B`: from a session that knows `X`, has committed nothing and has written `φ`, `p`
  keeps the rules and ends with `B`. There is a rule for each kind of operation: `reading`,
  `finding`, `locking`, `writing`, `committing`.
* `elsewhere`: what the rest of the system does to other tables keeps the rules.

Left out: what a call leaves behind that raises (`silent`).
-/

namespace Ticketing

open Lib (Store System Outline)
open Lib.Outline (Triple Assertion)

/-- An invariant of the committed rows and the history, and what nobody takes from the rows. -/
structure RowRules where
  inv : Db → List (Nat × List Write) → Prop
  kept : Db → Db → Prop
  refl : ∀ db, kept db db
  trans : ∀ {db db' db''}, kept db db' → kept db' db'' → kept db db''

namespace RowRules

/-- A session may rely on what nobody takes away, and on the rows it has locked. -/
def outline (K : RowRules) : WorldOutline where
  inv W := K.inv W.store.db W.store.wal
  frame j W W' := K.kept W.store.db W'.store.db ∧ World.Locks j W W'
  same _ _ := True
  blind _ := True
  refl j W := ⟨K.refl _, .refl j W⟩
  trans j _ _ _ hf h h' := ⟨K.trans h.1 h'.1, h.2.trans hf h'.2⟩
  same_setStore _ _ := trivial
  same_blind _ _ := trivial
  inv_local h _ hi := by
    rw [h.db, h.wal]
    exact hi
  frame_local {i j W W'} _ h _ := ⟨by rw [h.db]; exact K.refl _, .of_db h.db⟩

variable {K : RowRules} {i : Nat} {admits : Admission} {α : Type}

variable (K i) in
abbrev Knows := K.outline.outline.Assertion i

/-! ## What a session knows -/

/-- A fact about the committed rows that nobody takes away. -/
def fact (φ : Db → Prop) (hφ : ∀ db db', K.kept db db' → φ db → φ db') : K.Knows i where
  holds W := φ W.store.db
  stable _ _ h hm := hφ _ _ hm.2.2.1 h

/-- The session has locked a committed row. -/
def locked (t : Table) (row : t.Row) : K.Knows i where
  holds W := row ∈ W.store.db t ∧ W.store.owner (.row t (t.id row)) = some i
  stable _ _ h hm := ⟨(hm.2.2.2 t (t.id row) h.2 row rfl).mpr h.1, (hm.2.1.owner _).mpr h.2⟩

/-- The committed row a session has locked, if it found one. -/
def lockedIf (t : Table) : Option t.Row → K.Knows i
  | none => .true
  | some row => locked t row

/-- The session holds keys no committed row has. -/
def reserved (ks : List Key) : K.Knows i where
  holds W := ∀ k ∈ ks, W.store.owner k = some i ∧ W.store.db.present k = false
  stable _ _ h hm k hk := ⟨(hm.2.1.owner k).mpr (h k hk).1, hm.2.1.absent k (h k hk).1 (h k hk).2⟩

/-- Nothing is said of a call that raises. -/
def silent : Exn → K.Knows i := fun _ => .true

open WorldOutline (Before Own local_before)

theorem own_fact (φ : Db → Prop) (hφ : ∀ db db', K.kept db db' → φ db → φ db') :
    Own (fact φ hφ : K.Knows i) := fun {W W'} hl _ _ h => by
  show φ W'.store.db
  rw [hl.db]
  exact h

theorem own_locked (t : Table) (row : t.Row) : Own (locked t row : K.Knows i) :=
  fun hl ho _ h => ⟨by rw [hl.db]; exact h.1, ho _ h.2⟩

theorem own_lockedIf (t : Table) (found : Option t.Row) : Own (lockedIf t found : K.Knows i) := by
  cases found with
  | none => exact WorldOutline.own_true
  | some row => exact own_locked t row

theorem own_reserved (ks : List Key) : Own (reserved ks : K.Knows i) :=
  fun hl ho _ h k hk => ⟨ho k (h k hk).1, by rw [hl.db]; exact (h k hk).2⟩

theorem own_pure {ψ : Prop} : Own (.pure ψ : K.Knows i) := fun _ _ _ h => h

/-! ## The walk of a call -/

/-- From a session that knows `X` and has written `φ`, `p` keeps the rules and leaves behind `B`. -/
abbrev Walks (admits : Admission) (X : K.Knows i) (φ : List Write → Prop) (p : Service α)
    (B : α → K.Knows i) : Prop :=
  Triple (callStep admits i) (Before X φ) p B silent

variable {X : K.Knows i} {φ ψ : List Write → Prop} {ρ : Exn → Prop} {B : α → K.Knows i}

theorem walks_raise {e : Exn} : Walks admits X φ (throw e : Service α) B :=
  Triple.raise fun _ _ _ => trivial

/-- The rest of a call after a check that may raise. -/
theorem walks_check {c : Prop} [Decidable c] {e : Exn} {k : Service α}
    (h : ¬c → Walks admits X φ k B) : Walks admits X φ (if c then throw e else k) B := by
  split
  · exact walks_raise
  · rename_i hc
    exact h hc

/-- What a session knows by itself may be used in the proof. -/
theorem assuming {χ : Prop} {p : Service α} (h : χ → Walks admits X φ p B) :
    Walks admits (X.and (.pure χ)) φ p B :=
  fun W hi hb => h hb.2.1.2 W hi ⟨hb.1, hb.2.1.1, hb.2.2⟩

/-- Reads and draws of which nothing is remembered. -/
theorem reading (hX : Own X) {p : Service α} (hp : Service.Quiet ρ p) :
    Walks admits X φ p fun _ => Before X φ :=
  WorldOutline.quiet hp (fun _ ho => ⟨ho.quiet, trivial⟩) (local_before hX fun _ _ _ => trivial)

/-- One read or draw of which nothing is remembered. -/
theorem passing (hX : Own X) {o : Op} (ho : o.Reading) :
    Walks admits X φ (Lib.Prog.perform o) fun _ => Before X φ :=
  reading (ρ := fun _ => True) hX (.perform ho)

/-- What a query finds. -/
theorem finding {q : Db → α} {Y : α → K.Knows i} (hX : Own X) (hY : ∀ a, Own (Y a))
    (hq : ∀ W, K.outline.outline.inv W → X W → φ (W.store.sessions i).writes →
      Y (q (W.store.view schema i)) W) :
    Walks admits X φ (Service.select q) fun a => Before (X.and (Y a)) φ :=
  WorldOutline.select (ρ := fun _ => True) (local_before hX fun _ _ _ => trivial)
    fun _ _ hi h hk hs =>
      have hb := WorldOutline.before_keeps hX hk hs h
      ⟨hb.1, ⟨hb.2.1, hY _ hk.toLocal hk.own hs (hq _ hi h.2.1 h.2.2)⟩, hb.2.2⟩

/-- A row is read and locked before anything is written. -/
theorem locking {t : Table} {q : Db → Option t.Row} {χ : t.Row → Prop} (hX : Own X)
    (hq : ∀ db row, q db = some row → row ∈ db t ∧ χ row) :
    Walks admits X (· = []) (Service.selectForUpdate t q) fun found =>
      Before ((X.and (lockedIf t found)).and (.pure (∀ row, found = some row → χ row)))
        (· = []) :=
  WorldOutline.selectForUpdate (ρ := fun _ => True) (local_before hX fun _ _ _ => trivial)
    fun W W' _ h hk hs hl => by
      have hb := WorldOutline.before_keeps hX hk hs h
      refine ⟨hb.1, ⟨⟨hb.2.1, ?_⟩, fun row hrow => (hq _ row hrow).2⟩, hb.2.2⟩
      rcases hrow : q (W.store.view schema i) with _ | row
      · trivial
      · rw [WorldOutline.view_eq h.2.2] at hrow hl
        exact ⟨by rw [hk.db]; exact (hq _ _ hrow).1, hl row hrow⟩

theorem writing {w : Write} (hX : Own X) (hφ : ∀ ws t, φ ws → ψ (ws ++ [w.stamp t])) :
    Walks admits X φ (Lib.Prog.perform (Op.write w)) fun _ => Before X ψ :=
  WorldOutline.addWrite hX (fun _ _ _ => trivial) hφ

/-- The commit of what the session has written. -/
theorem committing {Y : K.Knows i}
    (hready : ∀ W ch, K.outline.outline.inv W → Before X φ W → admits i W .commit ch →
      K.kept W.store.db ((W.store.sessions i).writes.foldl (fun db w => w.apply db) W.store.db) ∧
        K.inv ((W.store.sessions i).writes.foldl (fun db w => w.apply db) W.store.db)
          (W.store.wal ++ [(i, (W.store.sessions i).writes)]))
    (hY : ∀ W W', Before X φ W →
      W'.store.wal = W.store.wal ++ [(i, (W.store.sessions i).writes)] → Y W') :
    Walks admits X φ Service.commit fun _ => Y :=
  WorldOutline.commitAt
    (fun W ch W' hi h hadm hcom _ => by
      obtain ⟨hkept, hinv⟩ := hready W ch hi h hadm
      have hdb : W'.store.db =
          (W.store.sessions i).writes.foldl (fun db w => w.apply db) W.store.db := hcom.db
      refine ⟨?_, fun j hj => ⟨?_, .of_committed hcom hi.1 hj⟩, hY W W' h hcom.wal⟩
      · show K.inv W'.store.db W'.store.wal
        rw [hdb, hcom.wal]
        exact hinv
      · show K.kept W.store.db W'.store.db
        rw [hdb]
        exact hkept)
    fun _ _ _ _ _ _ _ _ _ _ => trivial

/-! ## The start and the rest of the system -/

theorem inv_start {W₀ : World} (hq : W₀.Quiet) (h : K.inv W₀.store.db []) :
    K.outline.outline.inv W₀ :=
  ⟨fun j w hw => by simp [hq.sessions] at hw, by
    show K.inv W₀.store.db W₀.store.wal
    rwa [hq.wal]⟩

/-- What happens in other tables keeps the rules, if these are not about them. -/
theorem elsewhere {tables : List Table} {W W' : World} (h : Untouched tables W W')
    (hkept : K.kept W.store.db W'.store.db)
    (hinv : K.inv W.store.db W.store.wal → K.inv W'.store.db W.store.wal)
    (hi : K.outline.outline.inv W) :
    K.outline.outline.inv W' ∧ ∀ j, K.outline.outline.frame j W W' := by
  refine ⟨⟨h.locksOk hi.1, ?_⟩, fun j => ⟨h.frame j, hkept, h.locked j⟩⟩
  show K.inv W'.store.db W'.store.wal
  rw [h.wal]
  exact hinv hi.2

end RowRules

end Ticketing
