import Ticketing.Lib.Trace

/-!
# Monitors

A monitor reads what a thread does, operation by operation with the answers, and keeps a state of
its own: `δ` is how the state moves on.

`Watched δ A φ B E p m` is about what `p` does while the monitor is in the state `m`, whatever its
operations answer that `A` allows: it comes to an operation only as `φ` allows it in the state of
that moment, and it returns and raises in states as `B` and `E` say. It is `Safe` of
`Lib/Trace.lean` with a state in place of the whole trace, for what a program owes to the last
thing it saw.

* `Watched.bind`, `Watched.handle`, `Watched.perform`: the rules follow the program.
* `Records.watched`: a thread of a pool goes on as its program is watched, in the state the
  monitor has reached along its trace.
-/

namespace Ticketing.Lib

universe u v w

variable {Op : Type u} {Res : Op → Type} {ε α β : Type} {M : Type w}

namespace Prog

section Watched

variable (δ : M → (Σ o : Op, Except ε (Res o)) → M)
variable (A : (o : Op) → Except ε (Res o) → Prop) (φ : M → Op → Prop)
variable (B : α → M → Prop) (E : ε → M → Prop)

/-- What `p` does under the monitor (module doc). -/
def Watched : Prog Res ε α → M → Prop
  | ret a, m => B a m
  | raise e, m => E e m
  | op o k, m => φ m o ∧ ∀ r, A o r → Watched (k r) (δ m ⟨o, r⟩)

variable {δ A φ B E} {p q : Prog Res ε α} {m : M}

theorem Watched.mono {B' : α → M → Prop} {E' : ε → M → Prop} (h : Watched δ A φ B E p m)
    (hB : ∀ a m, B a m → B' a m) (hE : ∀ e m, E e m → E' e m) : Watched δ A φ B' E' p m := by
  induction p generalizing m with
  | ret a => exact hB a m h
  | raise e => exact hE e m h
  | op o k ih => exact ⟨h.1, fun r hr => ih r (h.2 r hr)⟩

/-- The rule of sequencing. -/
theorem Watched.bind {C : β → M → Prop} {f : α → Prog Res ε β}
    (h : Watched δ A φ (fun a => Watched δ A φ C E (f a)) E p m) :
    Watched δ A φ C E (p.bind f) m := by
  induction p generalizing m with
  | ret a => exact h
  | raise e => exact h
  | op o k ih => exact ⟨h.1, fun r hr => ih r (h.2 r hr)⟩

/-- The rule of handlers. -/
theorem Watched.handle {f : ε → Prog Res ε α}
    (h : Watched δ A φ B (fun e => Watched δ A φ B E (f e)) p m) :
    Watched δ A φ B E (p.handle f) m := by
  induction p generalizing m with
  | ret a => exact h
  | raise e => exact h
  | op o k ih => exact ⟨h.1, fun r hr => ih r (h.2 r hr)⟩

theorem Watched.perform {o : Op} {B : Res o → M → Prop} (ho : φ m o)
    (hB : ∀ a, A o (.ok a) → B a (δ m ⟨o, .ok a⟩))
    (hE : ∀ e, A o (.error e) → E e (δ m ⟨o, .error e⟩)) :
    Watched δ A φ B E (perform o : Prog Res ε (Res o)) m := by
  refine ⟨ho, fun r hr => ?_⟩
  rcases r with e | a
  · exact hE e hr
  · exact hB a hr

/-- What is left of a program after a trace is watched from where the trace has left the monitor. -/
theorem Watched.goes {t : Trace Res ε} (h : Watched δ A φ B E p m) (hg : Goes p t q)
    (ht : ∀ x ∈ t, A x.1 x.2) : Watched δ A φ B E q (t.foldl δ m) := by
  induction hg generalizing m with
  | refl p => exact h
  | @op o k r t q hg ih =>
    rw [List.forall_mem_cons] at ht
    exact ih (h.2 r ht.1) ht.2

end Watched

end Prog

namespace System

variable {σ : Type v} {S : System Res ε σ} {s : σ} {P : S.Pool} {T : Nat → Trace Res ε}
variable {δ : M → (Σ o : Op, Except ε (Res o)) → M} {A : (o : Op) → Except ε (Res o) → Prop}
variable {φ : M → Op → Prop}

/-- **A thread goes on as its program is watched.** -/
theorem Records.watched (h : Records s P T) {i : Nat} {c : S.Call} {p : Prog Res ε (S.Ret c)}
    (hi : P.threads i = .running c p) {B : S.Ret c → M → Prop} {E : ε → M → Prop} {m : M}
    (hp : (S.prog c).Watched δ A φ B E m) (hA : ∀ x ∈ T i, A x.1 x.2) :
    p.Watched δ A φ B E ((T i).foldl δ m) := by
  have hgoes := h.followed i
  rw [hi] at hgoes
  exact hp.goes hgoes hA

end System

end Ticketing.Lib
