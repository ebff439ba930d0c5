import Mathlib.Logic.Basic

/-!
# Programs over a signature of operations

A `Prog Res ε α` is a program that performs operations, each of which may itself raise an
exception of `ε`, and ends by returning an `α` or by raising. It is syntax: the meaning of an
operation is supplied by whoever runs the program.

* `run exec p s`: the program alone, from state `s`, with a deterministic meaning of each
  operation (`none` where an operation is blocked).
* `Straight φ ρ p`: the program handles no exception, performs only operations of `φ` and raises
  only exceptions of `ρ` by itself.
* `Within φ Q p`: whatever its operations answer, the program, its handlers included, performs only
  operations of `φ` and returns only values of `Q`.

The interleaved meaning, many programs over one state, is `Lib/Pool.lean`.
-/

namespace Ticketing.Lib

universe u v

/-- A program over operations with results `Res`. The continuation of an operation also gets the
exception the operation raised, so a handler can be attached to it. -/
inductive Prog {Op : Type u} (Res : Op → Type) (ε : Type) (α : Type) : Type u
  | ret (a : α)
  | raise (e : ε)
  | op (o : Op) (k : Except ε (Res o) → Prog Res ε α)

namespace Prog

variable {Op : Type u} {Res : Op → Type} {ε α β γ : Type}

/-- Sequencing; an exception skips the rest. -/
def bind : Prog Res ε α → (α → Prog Res ε β) → Prog Res ε β
  | ret a, f => f a
  | raise e, _ => raise e
  | op o k, f => op o fun r => (k r).bind f

/-- `try p except h`: the handler gets every exception of `p`. -/
def handle : Prog Res ε α → (ε → Prog Res ε α) → Prog Res ε α
  | ret a, _ => ret a
  | raise e, h => h e
  | op o k, h => op o fun r => (k r).handle h

instance : Monad (Prog Res ε) where
  pure := ret
  bind := bind

instance : MonadExceptOf ε (Prog Res ε) where
  throw := raise
  tryCatch := handle

/-- The program that performs one operation and passes its outcome on. -/
def perform (o : Op) : Prog Res ε (Res o) :=
  op o fun
    | .ok r => ret r
    | .error e => raise e

@[simp] theorem pure_eq (a : α) : (pure a : Prog Res ε α) = ret a := rfl

@[simp] theorem bind_eq (p : Prog Res ε α) (f : α → Prog Res ε β) : (p >>= f) = p.bind f := rfl

@[simp] theorem throw_eq (e : ε) : (throw e : Prog Res ε α) = raise e := rfl

@[simp] theorem tryCatch_eq (p : Prog Res ε α) (h : ε → Prog Res ε α) :
    (tryCatch p h : Prog Res ε α) = p.handle h := rfl

@[simp] theorem map_eq (f : α → β) (p : Prog Res ε α) :
    (f <$> p) = p.bind fun a => ret (f a) := rfl

@[simp] theorem ret_bind (a : α) (f : α → Prog Res ε β) : (ret a).bind f = f a := rfl

@[simp] theorem raise_bind (e : ε) (f : α → Prog Res ε β) : (raise e).bind f = raise e := rfl

@[simp] theorem op_bind (o : Op) (k : Except ε (Res o) → Prog Res ε α) (f : α → Prog Res ε β) :
    (op o k).bind f = op o fun r => (k r).bind f := rfl

theorem bind_assoc (p : Prog Res ε α) (f : α → Prog Res ε β) (g : β → Prog Res ε γ) :
    (p.bind f).bind g = p.bind fun a => (f a).bind g := by
  induction p with
  | ret a => rfl
  | raise e => rfl
  | op o k ih =>
    simp only [op_bind]
    exact congrArg (op o) (funext fun r => ih r)

/-! ## Running a program alone -/

section Run

variable {σ : Type v} (exec : (o : Op) → σ → Option (Except ε (Res o) × σ))

/-- The program alone from `s`: its outcome and the state it leaves, `none` where it is blocked. -/
def run : Prog Res ε α → σ → Option (Except ε α × σ)
  | ret a, s => some (.ok a, s)
  | raise e, s => some (.error e, s)
  | op o k, s =>
    match exec o s with
    | some (r, s') => (k r).run s'
    | none => none

@[simp] theorem run_ret (a : α) (s : σ) :
    run exec (ret a : Prog Res ε α) s = some (.ok a, s) := rfl

@[simp] theorem run_raise (e : ε) (s : σ) :
    run exec (raise e : Prog Res ε α) s = some (.error e, s) := rfl

theorem run_bind (p : Prog Res ε α) (f : α → Prog Res ε β) (s : σ) :
    run exec (p.bind f) s =
      match run exec p s with
      | some (.ok a, s') => run exec (f a) s'
      | some (.error e, s') => some (.error e, s')
      | none => none := by
  induction p generalizing s with
  | ret a => rfl
  | raise e => rfl
  | op o k ih =>
    simp only [bind, run]
    cases exec o s with
    | none => rfl
    | some rs => exact ih rs.1 rs.2

theorem run_handle (p : Prog Res ε α) (h : ε → Prog Res ε α) (s : σ) :
    run exec (p.handle h) s =
      match run exec p s with
      | some (.ok a, s') => some (.ok a, s')
      | some (.error e, s') => run exec (h e) s'
      | none => none := by
  induction p generalizing s with
  | ret a => rfl
  | raise e => rfl
  | op o k ih =>
    simp only [handle, run]
    cases exec o s with
    | none => rfl
    | some rs => exact ih rs.1 rs.2

variable {exec} {s s' : σ}

/-- What came before a value that was returned. -/
theorem run_bind_ok {p : Prog Res ε α} {f : α → Prog Res ε β} {b : β}
    (h : run exec (p.bind f) s = some (.ok b, s')) :
    ∃ a s₁, run exec p s = some (.ok a, s₁) ∧ run exec (f a) s₁ = some (.ok b, s') := by
  rw [run_bind] at h
  split at h
  · rename_i a s₁ hp
    exact ⟨a, s₁, hp, h⟩
  · cases h
  · cases h

/-- A value is returned by the body or by the handler of its exception. -/
theorem run_handle_ok {p : Prog Res ε α} {h : ε → Prog Res ε α} {a : α}
    (hr : run exec (p.handle h) s = some (.ok a, s')) :
    run exec p s = some (.ok a, s') ∨
      ∃ e s₁, run exec p s = some (.error e, s₁) ∧ run exec (h e) s₁ = some (.ok a, s') := by
  rw [run_handle] at hr
  split at hr
  · rename_i b s₁ hp
    exact .inl (hp.trans hr)
  · rename_i e s₁ hp
    exact .inr ⟨e, s₁, hp, hr⟩
  · cases hr

variable (exec)

theorem run_perform (o : Op) (s : σ) :
    run exec (perform o : Prog Res ε (Res o)) s = exec o s := by
  unfold perform run
  cases exec o s with
  | none => rfl
  | some rs => obtain ⟨r, s'⟩ := rs; cases r <;> rfl

end Run

/-! ## Programs without handlers -/

/-- Every operation `p` can perform satisfies `φ`, an exception of any of them is the end of `p`,
and the exceptions `p` raises by itself satisfy `ρ`. -/
def Straight (φ : Op → Prop) (ρ : ε → Prop) : Prog Res ε α → Prop
  | ret _ => True
  | raise e => ρ e
  | op o k => φ o ∧ (∀ e, k (.error e) = raise e) ∧ ∀ a, Straight φ ρ (k (.ok a))

variable {φ : Op → Prop} {ρ : ε → Prop}

@[simp] theorem straight_ret (a : α) : Straight φ ρ (ret a : Prog Res ε α) := trivial

@[simp] theorem straight_raise (e : ε) : Straight φ ρ (raise e : Prog Res ε α) ↔ ρ e := Iff.rfl

theorem Straight.bind {p : Prog Res ε α} {f : α → Prog Res ε β} (hp : Straight φ ρ p)
    (hf : ∀ a, Straight φ ρ (f a)) : Straight φ ρ (p.bind f) := by
  induction p with
  | ret a => exact hf a
  | raise e => exact hp
  | op o k ih =>
    exact ⟨hp.1, fun e => congrArg (·.bind f) (hp.2.1 e), fun a => ih _ (hp.2.2 a)⟩

theorem Straight.perform {o : Op} (h : φ o) : Straight φ ρ (perform o : Prog Res ε (Res o)) :=
  ⟨h, fun _ => rfl, fun _ => trivial⟩

theorem Straight.mono {φ' : Op → Prop} {ρ' : ε → Prop} {p : Prog Res ε α} (hp : Straight φ ρ p)
    (hφ : ∀ o, φ o → φ' o) (hρ : ∀ e, ρ e → ρ' e) : Straight φ' ρ' p := by
  induction p with
  | ret a => trivial
  | raise e => exact hρ e hp
  | op o k ih => exact ⟨hφ o hp.1, hp.2.1, fun a => ih _ (hp.2.2 a)⟩

/-! ## What a program can do -/

/-- Every operation `p` can perform satisfies `φ`, and every value it can return `Q`, whatever the
operations before answer. -/
def Within (φ : Op → Prop) (Q : α → Prop) : Prog Res ε α → Prop
  | ret a => Q a
  | raise _ => True
  | op o k => φ o ∧ ∀ r, Within φ Q (k r)

section Within

variable {Q Q' : α → Prop} {R : β → Prop}

theorem Within.bind {p : Prog Res ε α} {f : α → Prog Res ε β} (hp : Within φ Q p)
    (hf : ∀ a, Q a → Within φ R (f a)) : Within φ R (p.bind f) := by
  induction p with
  | ret a => exact hf a hp
  | raise e => trivial
  | op o k ih => exact ⟨hp.1, fun r => ih r (hp.2 r)⟩

theorem Within.handle {p : Prog Res ε α} {h : ε → Prog Res ε α} (hp : Within φ Q p)
    (hh : ∀ e, Within φ Q (h e)) : Within φ Q (p.handle h) := by
  induction p with
  | ret a => exact hp
  | raise e => exact hh e
  | op o k ih => exact ⟨hp.1, fun r => ih r (hp.2 r)⟩

theorem Within.perform {o : Op} (h : φ o) :
    Within φ (fun _ => True) (perform o : Prog Res ε (Res o)) := by
  refine ⟨h, fun r => ?_⟩
  cases r <;> trivial

theorem Straight.within {φ' : Op → Prop} {p : Prog Res ε α} (hp : Straight φ ρ p)
    (h : ∀ o, φ o → φ' o) : Within φ' (fun _ => True) p := by
  induction p with
  | ret a => trivial
  | raise e => trivial
  | op o k ih =>
    refine ⟨h o hp.1, fun r => ?_⟩
    cases r with
    | ok a => exact ih _ (hp.2.2 a)
    | error e => rw [hp.2.1 e]; trivial

end Within

end Prog

end Ticketing.Lib
