import Ticketing.Lib.Pool

/-!
# Triples over a pool

`Triple A p B E`: from a state where thread `i` knows `A`, the program `p` keeps every promise of
the outline; if it returns, the thread knows `B`; if it raises, `E`. An `Assertion` carries the
proof that others cannot invalidate it, so no rule has a side condition of stability.

The rules follow the program: `ret`, `raise`, `bind`, `handle`, `op`, `straight` for a piece
without handlers all of whose operations keep what the thread knows, and `within` for one with
handlers.
-/

namespace Ticketing.Lib.Outline

universe u v

variable {Op : Type u} {Res : Op → Type} {ε : Type} {σ : Type v} {O : Outline σ} {i : Nat}
variable {α β : Type}

variable (O i) in
/-- What thread `i` knows of the shared state whatever others do. -/
structure Assertion where
  holds : σ → Prop
  stable : ∀ s s', holds s → O.Moved i s s' → holds s'

namespace Assertion

instance : CoeFun (O.Assertion i) fun _ => σ → Prop := ⟨holds⟩

/-- Nothing. -/
def true : O.Assertion i := ⟨fun _ => True, fun _ _ _ _ => trivial⟩

/-- A fact that is not about the state. -/
def pure (φ : Prop) : O.Assertion i := ⟨fun _ => φ, fun _ _ h _ => h⟩

def and (A B : O.Assertion i) : O.Assertion i :=
  ⟨fun s => A s ∧ B s, fun s s' h hm => ⟨A.stable s s' h.1 hm, B.stable s s' h.2 hm⟩⟩

def or (A B : O.Assertion i) : O.Assertion i :=
  ⟨fun s => A s ∨ B s, fun s s' h hm => h.imp (A.stable s s' · hm) (B.stable s s' · hm)⟩

def ex {X : Type} (A : X → O.Assertion i) : O.Assertion i :=
  ⟨fun s => ∃ x, A x s, fun s s' ⟨x, h⟩ hm => ⟨x, (A x).stable s s' h hm⟩⟩

end Assertion

variable (step : (o : Op) → σ → Except ε (Res o) → σ → Prop)

/-- What holds of an outcome. -/
def post (B : α → O.Assertion i) (E : ε → O.Assertion i) (r : Except ε α) (s : σ) : Prop :=
  match r with
  | .ok a => B a s
  | .error e => E e s

/-- **A triple** (module doc). -/
def Triple (A : O.Assertion i) (p : Prog Res ε α) (B : α → O.Assertion i)
    (E : ε → O.Assertion i) : Prop :=
  ∀ s, O.inv s → A s → O.wp i step p (post B E) s

namespace Triple

variable {step} {A A' : O.Assertion i} {B B' : α → O.Assertion i} {E E' : ε → O.Assertion i}
variable {p : Prog Res ε α}

theorem ret {a : α} (h : ∀ s, O.inv s → A s → B a s) :
    Triple step A (.ret a : Prog Res ε α) B E :=
  fun s hs hA s' hm => (B a).stable s s' (h s hs hA) hm

theorem raise {e : ε} (h : ∀ s, O.inv s → A s → E e s) :
    Triple step A (.raise e : Prog Res ε α) B E :=
  fun s hs hA s' hm => (E e).stable s s' (h s hs hA) hm

/-- The rule of consequence. -/
theorem conseq (h : Triple step A p B E) (hA : ∀ s, O.inv s → A' s → A s)
    (hB : ∀ a s, O.inv s → B a s → B' a s) (hE : ∀ e s, O.inv s → E e s → E' e s) :
    Triple step A' p B' E' := fun s hs hA' =>
  wp_mono (fun r s hi hr => by
    cases r with
    | ok a => exact hB a s hi hr
    | error e => exact hE e s hi hr) (h s hs (hA s hs hA'))

theorem pre (h : Triple step A p B E) (hA : ∀ s, O.inv s → A' s → A s) : Triple step A' p B E :=
  h.conseq hA (fun _ _ _ h => h) fun _ _ _ h => h

theorem ex {X : Type} {A : X → O.Assertion i} (h : ∀ x, Triple step (A x) p B E) :
    Triple step (.ex A) p B E := fun s hs ⟨x, hA⟩ => h x s hs hA

theorem or (h : Triple step A p B E) (h' : Triple step A' p B E) :
    Triple step (A.or A') p B E := fun s hs hA => hA.elim (h s hs) (h' s hs)

/-- A fact that is not about the state may be used in the proof. -/
theorem assume {φ : Prop} (h : φ → Triple step A p B E) : Triple step (A.and (.pure φ)) p B E :=
  fun s hs hA => h hA.2 s hs hA.1

theorem bind {M : α → O.Assertion i} {f : α → Prog Res ε β} {B : β → O.Assertion i}
    (hp : Triple step A p M E) (hf : ∀ a, Triple step (M a) (f a) B E) :
    Triple step A (p.bind f) B E := fun s hs hA => by
  refine wp_bind (wp_mono (fun r s' hi hr => ?_) (hp s hs hA)) hs
  cases r with
  | ok a => exact hf a s' hi hr
  | error e => exact fun t ht => (E e).stable s' t hr ht

theorem handle {M : ε → O.Assertion i} {h : ε → Prog Res ε α} (hp : Triple step A p B M)
    (hh : ∀ e, Triple step (M e) (h e) B E) : Triple step A (p.handle h) B E := fun s hs hA => by
  refine wp_handle (wp_mono (fun r s' hi hr => ?_) (hp s hs hA)) hs
  cases r with
  | ok a => exact fun t ht => (B a).stable s' t hr ht
  | error e => exact hh e s' hi hr

/-- The rule of one operation. -/
theorem op {o : Op} {B : Res o → O.Assertion i}
    (h : ∀ s r s', O.inv s → A s → step o s r s' → O.Guar i s s' ∧ post B E r s') :
    Triple step A (Prog.perform o) B E := fun s _ hA s' hm r s'' hst => by
  obtain ⟨hg, hq⟩ := h s' r s'' hm.1 (A.stable s s' hA hm) hst
  refine ⟨hg, ?_⟩
  cases r with
  | ok a => exact fun t ht => (B a).stable s'' t hq ht
  | error e => exact fun t ht => (E e).stable s'' t hq ht

/-- A piece without handlers whose operations keep `A`, and leave `E` where they raise. -/
theorem straight {φ : Op → Prop} {ρ : ε → Prop} (hp : p.Straight φ ρ)
    (hE : ∀ e s, O.inv s → ρ e → A s → E e s)
    (h : ∀ o s r s', φ o → O.inv s → A s → step o s r s' →
      O.Guar i s s' ∧ post (fun _ => A) E r s') : Triple step A p (fun _ => A) E := by
  induction p with
  | ret a => exact fun s hs hA s' hm => A.stable s s' hA hm
  | raise e => exact fun s hs hA s' hm => (E e).stable s s' (hE e s hs hp hA) hm
  | op o k ih =>
    intro s hs hA s' hm r s'' hst
    obtain ⟨hg, hq⟩ := h o s' r s'' hp.1 hm.1 (A.stable s s' hA hm) hst
    refine ⟨hg, ?_⟩
    cases r with
    | ok a => exact ih _ (hp.2.2 a) s'' hg.1 hq
    | error e => rw [hp.2.1 e]; exact fun t ht => (E e).stable s'' t hq ht

/-- A program all of whose operations keep `A`, whether they answer or raise. -/
theorem within {φ : Op → Prop} {Q : α → Prop} (hp : p.Within φ Q)
    (h : ∀ o s r s', φ o → O.inv s → A s → step o s r s' → O.Guar i s s' ∧ A s') :
    Triple step A p (fun _ => A) (fun _ => A) := by
  induction p with
  | ret a => exact fun s hs hA s' hm => A.stable s s' hA hm
  | raise e => exact fun s hs hA s' hm => A.stable s s' hA hm
  | op o k ih =>
    intro s hs hA s' hm r s'' hst
    obtain ⟨hg, hA'⟩ := h o s' r s'' hp.1 hm.1 (A.stable s s' hA hm) hst
    exact ⟨hg, ih r (hp.2 r) s'' hg.1 hA'⟩

end Triple

end Ticketing.Lib.Outline
