import Ticketing.Lib.Replay
import Mathlib.Data.List.Forall2

/-!
# Two runs in step

Two pools of the same calls run side by side, from states that look alike to whoever is asking, on
moves that differ only in what the rest of the world does. A `Lockstep` says what looking alike is
and that the operations of `performs` keep it: they answer alike in states that look alike.

* `Prog.InStep`: two programs that go on together as long as their answers are alike, and then end
  alike. `Prog.Steady` is a program in step with itself.
* `Lockstep.replay`: **the two runs stay alike**; one can go on just when the other can.
* `Lockstep.move_keeps`: what the operations of `performs` leave alone, the calls leave alone.
-/

namespace Ticketing.Lib

universe u v

variable {Op : Type u} {Res : Op → Type} {ε : Type} {α β γ δ : Type}

/-! ## Programs in step -/

namespace Prog

/-- The programs perform the same operations, all of `φ`, as long as `A` relates what they are
answered; then they raise one exception or return values that `Q` relates. -/
inductive InStep (φ : Op → Prop) (A : (o : Op) → Except ε (Res o) → Except ε (Res o) → Prop)
    (Q : α → β → Prop) : Prog Res ε α → Prog Res ε β → Prop
  | ret {a : α} {b : β} (h : Q a b) : InStep φ A Q (.ret a) (.ret b)
  | raise (e : ε) : InStep φ A Q (.raise e) (.raise e)
  | op {o : Op} {k : Except ε (Res o) → Prog Res ε α} {k' : Except ε (Res o) → Prog Res ε β}
      (ho : φ o) (hk : ∀ r r', A o r r' → InStep φ A Q (k r) (k' r')) :
      InStep φ A Q (.op o k) (.op o k')

variable {φ : Op → Prop} {A : (o : Op) → Except ε (Res o) → Except ε (Res o) → Prop}
variable {Q : α → β → Prop} {R : γ → δ → Prop} {p : Prog Res ε α} {p' : Prog Res ε β}

theorem InStep.bind {f : α → Prog Res ε γ} {f' : β → Prog Res ε δ} (hp : InStep φ A Q p p')
    (hf : ∀ a b, Q a b → InStep φ A R (f a) (f' b)) : InStep φ A R (p.bind f) (p'.bind f') := by
  induction hp with
  | ret h => exact hf _ _ h
  | raise e => exact .raise e
  | op ho hk ih => exact .op ho ih

theorem InStep.handle {h : ε → Prog Res ε α} {h' : ε → Prog Res ε β} (hp : InStep φ A Q p p')
    (hh : ∀ e, InStep φ A Q (h e) (h' e)) : InStep φ A Q (p.handle h) (p'.handle h') := by
  induction hp with
  | ret h => exact .ret h
  | raise e => exact hh e
  | op ho hk ih => exact .op ho ih

theorem InStep.mono {Q' : α → β → Prop} (hp : InStep φ A Q p p') (hQ : ∀ a b, Q a b → Q' a b) :
    InStep φ A Q' p p' := by
  induction hp with
  | ret h => exact .ret (hQ _ _ h)
  | raise e => exact .raise e
  | op ho hk ih => exact .op ho ih

/-- The program is in step with itself, and returns only values of `K`. -/
def Steady (φ : Op → Prop) (A : (o : Op) → Except ε (Res o) → Except ε (Res o) → Prop)
    (K : α → Prop) (p : Prog Res ε α) : Prop :=
  InStep φ A (fun a b => a = b ∧ K a) p p

namespace Steady

variable {K K' : α → Prop} {L : γ → Prop} {f : α → Prog Res ε γ}

theorem ret {a : α} (h : K a) : Steady φ A K (.ret a : Prog Res ε α) :=
  InStep.ret ⟨rfl, h⟩

theorem raise (e : ε) : Steady φ A K (.raise e : Prog Res ε α) := InStep.raise e

theorem bind (hp : Steady φ A K p) (hf : ∀ a, K a → Steady φ A L (f a)) :
    Steady φ A L (p.bind f) := by
  refine InStep.bind hp ?_
  rintro a _ ⟨rfl, ha⟩
  exact hf a ha

theorem handle {h : ε → Prog Res ε α} (hp : Steady φ A K p) (hh : ∀ e, Steady φ A K (h e)) :
    Steady φ A K (p.handle h) := InStep.handle hp hh

theorem mono (hp : Steady φ A K p) (hK : ∀ a, K a → K' a) : Steady φ A K' p :=
  InStep.mono hp fun a _ h => ⟨h.1, hK a h.2⟩

/-- An operation that is answered the same. -/
theorem perform {o : Op} {K : Res o → Prop} (ho : φ o)
    (hA : ∀ r r', A o r r' → r = r' ∧ ∀ a, r = .ok a → K a) :
    Steady φ A K (Prog.perform o : Prog Res ε (Res o)) := by
  refine .op ho fun r r' h => ?_
  obtain ⟨rfl, hK⟩ := hA r r' h
  rcases r with e | a
  · exact .raise e
  · exact .ret ⟨rfl, hK a rfl⟩

end Steady

end Prog

open Prog (InStep)

/-! ## Runs in step -/

namespace System

variable {σ : Type v} {S : System Res ε σ}

/-- Two threads that have done, and are going to do, the same. -/
inductive Thread.InStep (φ : Op → Prop)
    (A : (o : Op) → Except ε (Res o) → Except ε (Res o) → Prop) : S.Thread → S.Thread → Prop
  | idle : Thread.InStep φ A .idle .idle
  | running {c : S.Call} {p p' : Prog Res ε (S.Ret c)} (h : Prog.InStep φ A (· = ·) p p') :
      Thread.InStep φ A (.running c p) (.running c p')
  | finished (c : S.Call) (r : Except ε (S.Ret c)) :
      Thread.InStep φ A (.finished c r) (.finished c r)
  | dead (c : S.Call) : Thread.InStep φ A (.dead c) (.dead c)

/-- How a thread ended, once it has. -/
def Thread.ended? {S : System Res ε σ} : S.Thread → Option ((c : S.Call) × Except ε (S.Ret c))
  | .finished c r => some ⟨c, r⟩
  | _ => none

namespace Thread.InStep

variable {φ : Op → Prop} {A : (o : Op) → Except ε (Res o) → Except ε (Res o) → Prop}
variable {t t' : S.Thread}

theorem call? (h : t.InStep φ A t') : t.call? = t'.call? := by
  cases h <;> rfl

theorem ended? (h : t.InStep φ A t') : t.ended? = t'.ended? := by
  cases h <;> rfl

end Thread.InStep

/-- Two moves that differ in what the rest of the world does, by `E`. -/
def Move.Alike {Call Choice Env : Type} (E : Env → Env → Prop) :
    Move Call Choice Env → Move Call Choice Env → Prop
  | .env e, .env e' => E e e'
  | m, m' => m = m'

theorem Move.alike_self {Call Choice Env : Type} {E : Env → Env → Prop} (hE : ∀ e, E e e)
    (m : Move Call Choice Env) : m.Alike E m := by
  cases m with
  | env e => exact hE e
  | _ => rfl

/-- When two states of a system look alike, and why its calls cannot tell them apart. -/
structure Lockstep {Choice Env : Type} (R : S.Player Choice Env) where
  alike : σ → σ → Prop
  performs : Op → Prop
  answers : (o : Op) → Except ε (Res o) → Except ε (Res o) → Prop
  environs : Env → Env → Prop
  /-- What no call changes. -/
  keeps : σ → σ → Prop
  may : ∀ {i c s s'}, alike s s' → R.may i c s = R.may i c s'
  prog : ∀ {i c s}, R.may i c s = true → InStep performs answers (· = ·) (S.prog c) (S.prog c)
  start : ∀ {i c s s'}, alike s s' → alike (S.onStart i c s) (S.onStart i c s')
  finish : ∀ {i c r s s'}, alike s s' → alike (S.onFinish i c r s) (S.onFinish i c r s')
  crash : ∀ {i c s s'}, alike s s' → alike (S.onCrash i c s) (S.onCrash i c s')
  exec : ∀ {i c ch o s s'}, alike s s' → performs o →
    Option.Rel (fun x y => answers o x.1 y.1 ∧ alike x.2 y.2) (R.exec i c ch o s)
      (R.exec i c ch o s')
  env : ∀ {e e' s s'}, alike s s' → environs e e' →
    Option.Rel alike (R.moveEnv e s) (R.moveEnv e' s')
  keeps_refl : ∀ s, keeps s s
  keeps_trans : ∀ {s s' s''}, keeps s s' → keeps s' s'' → keeps s s''
  start_keeps : ∀ i c s, keeps s (S.onStart i c s)
  finish_keeps : ∀ i c r s, keeps s (S.onFinish i c r s)
  crash_keeps : ∀ i c s, keeps s (S.onCrash i c s)
  exec_keeps : ∀ {i c ch o s r s'}, alike s s → performs o → R.exec i c ch o s = some (r, s') →
    keeps s s'

namespace Lockstep

variable {Choice Env : Type} {R : S.Player Choice Env} (L : Lockstep R)

/-- Two pools whose states look alike and whose threads are in step. -/
structure InStep (P P' : S.Pool) : Prop where
  shared : L.alike P.shared P'.shared
  threads : ∀ i, (P.threads i).InStep L.performs L.answers (P'.threads i)

variable {L} {P P' : S.Pool}

theorem InStep.set (h : L.InStep P P') {s s' : σ} (i : Nat) {t t' : S.Thread} (hs : L.alike s s')
    (ht : t.InStep L.performs L.answers t') : L.InStep (P.set s i t) (P'.set s' i t') := by
  refine ⟨hs, fun j => ?_⟩
  by_cases hj : j = i
  · subst hj
    rw [Pool.set_self, Pool.set_self]
    exact ht
  · rw [Pool.set_other P s t hj, Pool.set_other P' s' t' hj]
    exact h.threads j

theorem execs {i : Nat} {c : S.Call} {chs : List Choice} {p p' : Prog Res ε (S.Ret c)} {s s' : σ}
    (hp : Prog.InStep L.performs L.answers (· = ·) p p') (hs : L.alike s s') :
    Option.Rel (fun x y => Prog.InStep L.performs L.answers (· = ·) x.1 y.1 ∧ L.alike x.2 y.2)
      (R.execs i c chs p s) (R.execs i c chs p' s') := by
  induction chs generalizing p p' s s' with
  | nil => exact .some ⟨hp, hs⟩
  | cons ch chs ih =>
    cases hp with
    | ret h => exact .none
    | raise e => exact .none
    | @op o k k' ho hk =>
      have hexec : Option.Rel (fun x y => L.answers o x.1 y.1 ∧ L.alike x.2 y.2)
          (R.exec i c ch o s) (R.exec i c ch o s') := L.exec hs ho
      simp only [Player.execs]
      generalize R.exec i c ch o s = x at hexec ⊢
      generalize R.exec i c ch o s' = y at hexec ⊢
      cases hexec with
      | none => exact .none
      | some hr => exact ih (hk _ _ hr.1) hr.2

theorem outcome?_inStep {φ : Op → Prop}
    {A : (o : Op) → Except ε (Res o) → Except ε (Res o) → Prop} {p p' : Prog Res ε α}
    (h : Prog.InStep φ A (· = ·) p p') : outcome? p = outcome? p' := by
  cases h with
  | ret h => rw [h]
  | raise e => rfl
  | op ho hk => rfl

/-- One move. -/
theorem move {m m' : Move S.Call Choice Env} (hm : m.Alike L.environs m') (h : L.InStep P P') :
    Option.Rel L.InStep (R.move P m) (R.move P' m') := by
  cases m with
  | start i c =>
    cases m' <;> cases hm
    have hi := h.threads i
    simp only [Player.move]
    generalize P.threads i = t at hi ⊢
    generalize P'.threads i = t' at hi ⊢
    cases hi with
    | idle =>
      dsimp only
      rw [L.may h.shared]
      split
      · rename_i hmay
        exact .some (h.set i (L.start h.shared) (.running (L.prog hmay)))
      · exact .none
    | _ => exact .none
  | ops i chs =>
    cases m' <;> cases hm
    have hi := h.threads i
    simp only [Player.move]
    generalize P.threads i = t at hi ⊢
    generalize P'.threads i = t' at hi ⊢
    cases hi with
    | @running c p p' hp =>
      have hexecs : Option.Rel
          (fun x y => Prog.InStep L.performs L.answers (· = ·) x.1 y.1 ∧ L.alike x.2 y.2)
          (R.execs i c chs p P.shared) (R.execs i c chs p' P'.shared) := execs hp h.shared
      dsimp only
      generalize R.execs i c chs p P.shared = x at hexecs ⊢
      generalize R.execs i c chs p' P'.shared = y at hexecs ⊢
      cases hexecs with
      | none => exact .none
      | some hr => exact .some (h.set i hr.2 (.running hr.1))
    | _ => exact .none
  | finish i =>
    cases m' <;> cases hm
    have hi := h.threads i
    simp only [Player.move]
    generalize P.threads i = t at hi ⊢
    generalize P'.threads i = t' at hi ⊢
    cases hi with
    | @running c p p' hp =>
      dsimp only
      rw [outcome?_inStep hp]
      cases outcome? p' with
      | none => exact .none
      | some r => exact .some (h.set i (L.finish h.shared) (.finished c r))
    | _ => exact .none
  | crash i =>
    cases m' <;> cases hm
    have hi := h.threads i
    simp only [Player.move]
    generalize P.threads i = t at hi ⊢
    generalize P'.threads i = t' at hi ⊢
    cases hi with
    | @running c p p' hp => exact .some (h.set i (L.crash h.shared) (.dead c))
    | _ => exact .none
  | env e =>
    cases m' with
    | env e' =>
      have henv := L.env h.shared hm
      simp only [Player.move]
      generalize R.moveEnv e P.shared = x at henv ⊢
      generalize R.moveEnv e' P'.shared = y at henv ⊢
      cases henv with
      | none => exact .none
      | some hs => exact .some ⟨hs, h.threads⟩
    | _ => cases hm

/-- **Two runs that start alike stay alike.** -/
theorem replay {ms ms' : List (Move S.Call Choice Env)}
    (hms : List.Forall₂ (Move.Alike L.environs) ms ms') (h : L.InStep P P') :
    Option.Rel L.InStep (R.replay ms P) (R.replay ms' P') := by
  induction hms generalizing P P' with
  | nil => exact .some h
  | @cons m m' ms ms' hm hms ih =>
    have hmove := move hm h
    simp only [Player.replay]
    generalize R.move P m = x at hmove ⊢
    generalize R.move P' m' = y at hmove ⊢
    cases hmove with
    | none => exact .none
    | some hP => exact ih hP

/-- A run is in step with itself. -/
theorem replay_self {ms : List (Move S.Call Choice Env)} (hE : ∀ e, L.environs e e)
    (h : L.InStep P P) (hP : R.replay ms P = some P') : L.InStep P' P' := by
  have hms : List.Forall₂ (Move.Alike L.environs) ms ms :=
    List.forall₂_same.mpr fun m _ => Move.alike_self hE m
  have hself := replay hms h
  rw [hP] at hself
  cases hself with
  | some h => exact h

theorem inStep_init {s s' : σ} (h : L.alike s s') : L.InStep (Pool.init s) (Pool.init s') :=
  ⟨h, fun _ => .idle⟩

/-! ## What no call changes -/

theorem execs_keeps {i : Nat} {c : S.Call} {chs : List Choice} {p p' : Prog Res ε (S.Ret c)}
    {s s' : σ} (hp : Prog.InStep L.performs L.answers (· = ·) p p) (hs : L.alike s s)
    (h : R.execs i c chs p s = some (p', s')) : L.keeps s s' := by
  induction chs generalizing p s with
  | nil =>
    cases h
    exact L.keeps_refl _
  | cons ch chs ih =>
    cases hp with
    | ret hr => cases h
    | raise e => cases h
    | @op o k k' ho hk =>
      have hexec : Option.Rel (fun x y => L.answers o x.1 y.1 ∧ L.alike x.2 y.2)
          (R.exec i c ch o s) (R.exec i c ch o s) := L.exec hs ho
      simp only [Player.execs] at h
      split at h
      · rename_i r s₁ hr
        rw [hr] at hexec
        cases hexec with
        | some hr' => exact L.keeps_trans (L.exec_keeps hs ho hr) (ih (hk _ _ hr'.1) hr'.2 h)
      · cases h

/-- **What a call does leaves alone what no operation of it changes.** -/
theorem move_keeps {m : Move S.Call Choice Env} (hm : m.thread? ≠ none) (h : L.InStep P P)
    (hmove : R.move P m = some P') : L.keeps P.shared P'.shared := by
  cases m with
  | start i c =>
    simp only [Player.move] at hmove
    split at hmove
    · split at hmove <;> cases hmove
      exact L.start_keeps i c _
    · cases hmove
  | ops i chs =>
    simp only [Player.move] at hmove
    split at hmove
    · rename_i c p hi
      obtain ⟨⟨p', s'⟩, hx, rfl⟩ := Option.map_eq_some_iff.mp hmove
      have hthread := h.threads i
      rw [hi] at hthread
      cases hthread with
      | running hp => exact execs_keeps hp h.shared hx
    · cases hmove
  | finish i =>
    simp only [Player.move] at hmove
    split at hmove
    · obtain ⟨r, -, rfl⟩ := Option.map_eq_some_iff.mp hmove
      exact L.finish_keeps i _ r _
    · cases hmove
  | crash i =>
    simp only [Player.move] at hmove
    split at hmove <;> cases hmove
    exact L.crash_keeps i _ _
  | env e => exact absurd rfl hm

end Lockstep

end System

end Ticketing.Lib
