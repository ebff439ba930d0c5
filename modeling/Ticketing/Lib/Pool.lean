import Ticketing.Lib.Prog
import Mathlib.Logic.Function.Basic
import Mathlib.Logic.Relation

/-!
# Pools of programs over one shared state, and a rely-guarantee logic for them

A `System` says which calls exist, the program of each call, and what one operation of a thread can
do to the shared state. `Step` interleaves the operations of any number of threads in any order;
a thread may start at any time, may stop dead between any two operations (`crash`), and the rest of
the world may move (`env`).

The logic has two ingredients, an `Outline`:

* `inv`: what holds of the shared state in every reachable pool;
* `frame i`: what thread `i` relies on nobody else changing. It is a preorder on states.

`wp` is the weakest precondition of a program under interference: before every operation of the
thread the state may have moved along `frame i`, and each of its own operations must keep `inv` and
every other thread's `frame`. `Outline.Ok.sound` is the adequacy theorem: if every program meets its
`wp` when it starts, then `inv` holds in every reachable pool, every running thread still meets
its `wp` and every finished thread left its postcondition behind.
-/

namespace Ticketing.Lib

universe u v

variable {Op : Type u} {Res : Op → Type} {ε : Type}

/-- What a pool is made of. A call's program may return a type of its own. -/
structure System {Op : Type u} (Res : Op → Type) (ε : Type) (σ : Type v) where
  Call : Type
  Ret : Call → Type
  prog : (c : Call) → Prog Res ε (Ret c)
  /-- One operation of thread `i`, running call `c`, may answer `r` and move the state. -/
  step : Nat → Call → (o : Op) → σ → Except ε (Res o) → σ → Prop
  canStart : Nat → Call → σ → Prop
  onStart : Nat → Call → σ → σ
  /-- What the end of a thread does to the shared state. -/
  onFinish : Nat → (c : Call) → Except ε (Ret c) → σ → σ
  /-- What the death of a thread does to the shared state. -/
  onCrash : Nat → Call → σ → σ
  env : σ → σ → Prop

namespace System

variable {σ : Type v} (S : System Res ε σ)

/-- A thread of a pool. -/
inductive Thread
  | idle
  | running (c : S.Call) (p : Prog Res ε (S.Ret c))
  | finished (c : S.Call) (r : Except ε (S.Ret c))
  | dead (c : S.Call)

/-- The call a thread was started for. -/
def Thread.call? {S : System Res ε σ} : S.Thread → Option S.Call
  | .idle => none
  | .running c _ => some c
  | .finished c _ => some c
  | .dead c => some c

/-- The call a thread was started for and has not come to the end of: it still runs, or died. -/
def Thread.unfinished? {S : System Res ε σ} : S.Thread → Option S.Call
  | .running c _ => some c
  | .dead c => some c
  | _ => none

/-- A thread that has not started yet, or has come to its end. -/
def Thread.Resting {S : System Res ε σ} : S.Thread → Prop
  | .idle | .finished _ _ => True
  | _ => False

instance {S : System Res ε σ} : (t : S.Thread) → Decidable t.Resting
  | .idle => inferInstanceAs (Decidable True)
  | .running .. => inferInstanceAs (Decidable False)
  | .finished .. => inferInstanceAs (Decidable True)
  | .dead _ => inferInstanceAs (Decidable False)

/-- A thread that takes no more steps. -/
def Thread.Stopped {S : System Res ε σ} : S.Thread → Prop
  | .finished _ _ | .dead _ => True
  | _ => False

instance {S : System Res ε σ} : (t : S.Thread) → Decidable t.Stopped
  | .idle => inferInstanceAs (Decidable False)
  | .running .. => inferInstanceAs (Decidable False)
  | .finished .. => inferInstanceAs (Decidable True)
  | .dead _ => inferInstanceAs (Decidable True)

/-- The shared state and every thread. -/
structure Pool where
  shared : σ
  threads : Nat → S.Thread

variable {S}

/-- `P` with thread `i` in state `t` and the shared state `s`. -/
def Pool.set (P : S.Pool) (s : σ) (i : Nat) (t : S.Thread) : S.Pool :=
  ⟨s, Function.update P.threads i t⟩

@[simp] theorem Pool.set_shared (P : S.Pool) (s : σ) (i : Nat) (t : S.Thread) :
    (P.set s i t).shared = s := rfl

@[simp] theorem Pool.set_self (P : S.Pool) (s : σ) (i : Nat) (t : S.Thread) :
    (P.set s i t).threads i = t := Function.update_self ..

theorem Pool.set_other (P : S.Pool) (s : σ) {i j : Nat} (t : S.Thread) (h : j ≠ i) :
    (P.set s i t).threads j = P.threads j := Function.update_of_ne h ..

/-- The outcome of a program that has nothing left to do. -/
def outcome? {α : Type} : Prog Res ε α → Option (Except ε α)
  | .ret a => some (.ok a)
  | .raise e => some (.error e)
  | .op _ _ => none

/-- **One step of a pool.** -/
inductive Step : S.Pool → S.Pool → Prop
  | start (P : S.Pool) (i : Nat) (c : S.Call) (hi : P.threads i = .idle)
      (hc : S.canStart i c P.shared) :
      Step P (P.set (S.onStart i c P.shared) i (.running c (S.prog c)))
  | exec (P : S.Pool) (i : Nat) (c : S.Call) (o : Op) (k : Except ε (Res o) → Prog Res ε (S.Ret c))
      (hi : P.threads i = .running c (.op o k)) (r : Except ε (Res o)) (s : σ)
      (hs : S.step i c o P.shared r s) : Step P (P.set s i (.running c (k r)))
  | finish (P : S.Pool) (i : Nat) (c : S.Call) (p : Prog Res ε (S.Ret c))
      (hi : P.threads i = .running c p) (r : Except ε (S.Ret c)) (hr : outcome? p = some r) :
      Step P (P.set (S.onFinish i c r P.shared) i (.finished c r))
  | crash (P : S.Pool) (i : Nat) (c : S.Call) (p : Prog Res ε (S.Ret c))
      (hi : P.threads i = .running c p) :
      Step P (P.set (S.onCrash i c P.shared) i (.dead c))
  | env (P : S.Pool) (s : σ) (hs : S.env P.shared s) : Step P ⟨s, P.threads⟩

/-- A step keeps every thread at its call, but for the one it starts. -/
theorem Step.call? {P P' : S.Pool} (h : Step P P') (j : Nat) :
    (P'.threads j).call? = (P.threads j).call? ∨
      P.threads j = .idle ∧ ∃ c, S.canStart j c P.shared ∧ (P'.threads j).call? = some c := by
  have at_i {s : σ} {i : Nat} {t : S.Thread} (ht : t.call? = (P.threads i).call?) :
      ((P.set s i t).threads j).call? = (P.threads j).call? := by
    by_cases hj : j = i
    · rw [hj, Pool.set_self, ht]
    · rw [Pool.set_other P s t hj]
  cases h with
  | start i c hi hc =>
    by_cases hj : j = i
    · subst hj
      exact .inr ⟨hi, c, hc, by rw [Pool.set_self]; rfl⟩
    · exact .inl (by rw [Pool.set_other P _ _ hj])
  | exec i c o k hi r s hs => exact .inl (at_i (by rw [hi]; rfl))
  | finish i c p hi r hr => exact .inl (at_i (by rw [hi]; rfl))
  | crash i c p hi => exact .inl (at_i (by rw [hi]; rfl))
  | env s hs => exact .inl rfl

/-- The runs of the pool. -/
abbrev Steps : S.Pool → S.Pool → Prop := Relation.ReflTransGen Step

/-- A thread keeps its call. -/
theorem Steps.call? {P P' : S.Pool} (h : Steps P P') {j : Nat} {c : S.Call}
    (hj : (P.threads j).call? = some c) : (P'.threads j).call? = some c := by
  induction h with
  | refl => exact hj
  | tail _ hstep ih =>
    rcases hstep.call? j with hc | ⟨hidle, -⟩
    · rw [hc, ih]
    · rw [hidle] at ih
      cases ih

/-- The pool before anything has started. -/
def Pool.init (s : σ) : S.Pool := ⟨s, fun _ => .idle⟩

/-- The pools reachable from `s`. -/
abbrev Reachable (s : σ) : S.Pool → Prop := Steps (Pool.init s)

end System

/-! ## Weakest preconditions under interference -/

/-- What a proof about a pool assumes and promises. -/
structure Outline (σ : Type v) where
  inv : σ → Prop
  /-- `frame i s s'`: nothing thread `i` relies on differs between `s` and `s'`. -/
  frame : Nat → σ → σ → Prop
  refl : ∀ i s, frame i s s
  trans : ∀ i {s s' s''}, frame i s s' → frame i s' s'' → frame i s s''

namespace Outline

variable {σ : Type v} (O : Outline σ)

/-- What others may have done to thread `i` between two of its operations. -/
def Moved (i : Nat) (s s' : σ) : Prop := O.inv s' ∧ O.frame i s s'

/-- What one operation of thread `i` must guarantee. -/
def Guar (i : Nat) (s s' : σ) : Prop := O.inv s' ∧ ∀ j, j ≠ i → O.frame j s s'

/-- **The weakest precondition** of a program of thread `i` for the postcondition `Q`, when each
of its operations moves the state along `step`. -/
def wp (i : Nat) (step : (o : Op) → σ → Except ε (Res o) → σ → Prop) {α : Type} :
    Prog Res ε α → (Except ε α → σ → Prop) → σ → Prop
  | .ret a, Q, s => ∀ s', O.Moved i s s' → Q (.ok a) s'
  | .raise e, Q, s => ∀ s', O.Moved i s s' → Q (.error e) s'
  | .op o k, Q, s => ∀ s', O.Moved i s s' → ∀ r s'', step o s' r s'' →
      O.Guar i s' s'' ∧ wp i step (k r) Q s''

variable {O} {i : Nat} {step : (o : Op) → σ → Except ε (Res o) → σ → Prop} {α β : Type}

theorem Moved.trans {s s' s'' : σ} (h : O.frame i s s') (h' : O.Moved i s' s'') :
    O.Moved i s s'' := ⟨h'.1, O.trans i h h'.2⟩

/-- A weakest precondition is stable: what others do does not invalidate it. -/
theorem wp_moved {p : Prog Res ε α} {Q : Except ε α → σ → Prop} {s s' : σ}
    (h : O.wp i step p Q s) (hm : O.Moved i s s') : O.wp i step p Q s' := by
  cases p with
  | ret a => exact fun t ht => h t (Moved.trans hm.2 ht)
  | raise e => exact fun t ht => h t (Moved.trans hm.2 ht)
  | op o k => exact fun t ht => h t (Moved.trans hm.2 ht)

theorem wp_mono {p : Prog Res ε α} {Q Q' : Except ε α → σ → Prop} {s : σ}
    (hQ : ∀ r s, O.inv s → Q r s → Q' r s) (h : O.wp i step p Q s) : O.wp i step p Q' s := by
  induction p generalizing s with
  | ret a => exact fun s' hm => hQ _ _ hm.1 (h s' hm)
  | raise e => exact fun s' hm => hQ _ _ hm.1 (h s' hm)
  | op o k ih =>
    intro s' hm r s'' hs
    obtain ⟨hg, hk⟩ := h s' hm r s'' hs
    exact ⟨hg, ih r hk⟩

/-- The rule of sequencing. -/
theorem wp_bind {p : Prog Res ε α} {f : α → Prog Res ε β} {Q : Except ε β → σ → Prop} {s : σ}
    (h : O.wp i step p (fun r s' => match r with
      | .ok a => O.wp i step (f a) Q s'
      | .error e => O.wp i step (.raise e : Prog Res ε β) Q s') s) (hs : O.inv s) :
    O.wp i step (p.bind f) Q s := by
  induction p generalizing s with
  | ret a => exact h s ⟨hs, O.refl i s⟩
  | raise e => exact h s ⟨hs, O.refl i s⟩
  | op o k ih =>
    intro s' hm r s'' hst
    obtain ⟨hg, hk⟩ := h s' hm r s'' hst
    exact ⟨hg, ih r hk hg.1⟩

/-- The rule of handlers. -/
theorem wp_handle {p : Prog Res ε α} {f : ε → Prog Res ε α} {Q : Except ε α → σ → Prop} {s : σ}
    (h : O.wp i step p (fun r s' => match r with
      | .ok a => O.wp i step (.ret a : Prog Res ε α) Q s'
      | .error e => O.wp i step (f e) Q s') s) (hs : O.inv s) :
    O.wp i step (p.handle f) Q s := by
  induction p generalizing s with
  | ret a => exact h s ⟨hs, O.refl i s⟩
  | raise e => exact h s ⟨hs, O.refl i s⟩
  | op o k ih =>
    intro s' hm r s'' hst
    obtain ⟨hg, hk⟩ := h s' hm r s'' hst
    exact ⟨hg, ih r hk hg.1⟩

/-! ## Adequacy -/

variable (O) in
/-- What has to be shown about the system for the outline `O`, with postcondition `Q i c` of thread
`i` on call `c` and `F i c` left behind after its end. -/
structure Ok (S : System Res ε σ) (Q F : Nat → (c : S.Call) → Except ε (S.Ret c) → σ → Prop) :
    Prop where
  start : ∀ i c s, O.inv s → S.canStart i c s → O.Guar i s (S.onStart i c s) ∧
    O.wp i (S.step i c) (S.prog c) (Q i c) (S.onStart i c s)
  finish : ∀ i c r s, O.inv s → Q i c r s →
    O.Guar i s (S.onFinish i c r s) ∧ F i c r (S.onFinish i c r s)
  stable : ∀ i c r s s', F i c r s → O.Moved i s s' → F i c r s'
  crash : ∀ i c s, O.inv s → O.Guar i s (S.onCrash i c s)
  env : ∀ s s', O.inv s → S.env s s' → O.inv s' ∧ ∀ j, O.frame j s s'

variable {S : System Res ε σ} {Q F : Nat → (c : S.Call) → Except ε (S.Ret c) → σ → Prop}

variable (O Q F) in
/-- What adequacy says of one thread. -/
def ThreadOk (P : S.Pool) (j : Nat) : Prop :=
  match P.threads j with
  | .idle => True
  | .running c p => O.wp j (S.step j c) p (Q j c) P.shared
  | .finished c r => F j c r P.shared
  | .dead _ => True

variable (O Q F) in
/-- What adequacy says of a pool. -/
structure PoolOk (P : S.Pool) : Prop where
  inv : O.inv P.shared
  threads : ∀ j, O.ThreadOk Q F P j

theorem ThreadOk.moved (hO : O.Ok S Q F) {P P' : S.Pool} {j : Nat} (h : O.ThreadOk Q F P j)
    (ht : P'.threads j = P.threads j) (hm : O.Moved j P.shared P'.shared) :
    O.ThreadOk Q F P' j := by
  unfold ThreadOk at h ⊢
  rw [ht]
  cases hj : P.threads j with
  | idle => trivial
  | running c p => rw [hj] at h; exact wp_moved h hm
  | finished c r => rw [hj] at h; exact hO.stable _ _ _ _ _ h hm
  | dead c => trivial

/-- The step of thread `i` to the state `t`, given what it guarantees and what holds of `t`. -/
theorem PoolOk.set (hO : O.Ok S Q F) {P : S.Pool} (h : O.PoolOk Q F P) {i : Nat} {s : σ}
    {t : S.Thread} (hg : O.Guar i P.shared s) (ht : O.ThreadOk Q F (P.set s i t) i) :
    O.PoolOk Q F (P.set s i t) where
  inv := hg.1
  threads j := by
    by_cases hj : j = i
    · subst hj; exact ht
    · exact (h.threads j).moved hO (P.set_other s t hj) ⟨hg.1, hg.2 j hj⟩

theorem PoolOk.finished {P : S.Pool} (h : O.PoolOk Q F P) {i : Nat} {c : S.Call}
    {r : Except ε (S.Ret c)} (hi : P.threads i = .finished c r) : F i c r P.shared := by
  have ht := h.threads i
  rwa [ThreadOk, hi] at ht

/-- One step of the pool keeps `PoolOk`. -/
theorem PoolOk.next (hO : O.Ok S Q F) {P P' : S.Pool} (h : O.PoolOk Q F P) (hs : System.Step P P') :
    O.PoolOk Q F P' := by
  cases hs with
  | start i c hi hc =>
    obtain ⟨hg, hw⟩ := hO.start i c P.shared h.inv hc
    exact h.set hO hg (by simpa [ThreadOk] using hw)
  | exec i c o k hi r s hst =>
    have hw := h.threads i
    simp only [ThreadOk, hi] at hw
    obtain ⟨hg, hk⟩ := hw P.shared ⟨h.inv, O.refl i _⟩ r s hst
    exact h.set hO hg (by simpa [ThreadOk] using hk)
  | finish i c p hi r hr =>
    have hw := h.threads i
    simp only [ThreadOk, hi] at hw
    have hq : Q i c r P.shared := by
      cases p with
      | ret a => cases hr; exact hw _ ⟨h.inv, O.refl i _⟩
      | raise e => cases hr; exact hw _ ⟨h.inv, O.refl i _⟩
      | op o k => cases hr
    obtain ⟨hg, hF⟩ := hO.finish i c r P.shared h.inv hq
    exact h.set hO hg (by simpa [ThreadOk] using hF)
  | crash i c p hi => exact h.set hO (hO.crash i c P.shared h.inv) (by simp [ThreadOk])
  | env s hs =>
    obtain ⟨hi, hf⟩ := hO.env P.shared s h.inv hs
    exact ⟨hi, fun j => (h.threads j).moved hO rfl ⟨hi, hf j⟩⟩

/-- What a step guarantees: it is one of a thread that runs or starts, or of the rest of the
world. -/
theorem PoolOk.guarantee (hO : O.Ok S Q F) {P P' : S.Pool} (h : O.PoolOk Q F P)
    (hs : System.Step P P') :
    (∃ i, ¬(P.threads i).Stopped ∧ P'.threads i ≠ .idle ∧
      (∀ j, j ≠ i → P'.threads j = P.threads j) ∧ O.Guar i P.shared P'.shared) ∨
    P'.threads = P.threads ∧ ∀ j, O.frame j P.shared P'.shared := by
  cases hs with
  | start i c hi hc =>
    exact .inl ⟨i, by rw [hi]; exact id, by rw [System.Pool.set_self]; nofun,
      fun _ => P.set_other _ _,
      (hO.start i c _ h.inv hc).1⟩
  | exec i c o k hi r s hst =>
    have hw := h.threads i
    simp only [ThreadOk, hi] at hw
    exact .inl ⟨i, by rw [hi]; exact id, by rw [System.Pool.set_self]; nofun,
      fun _ => P.set_other _ _,
      (hw P.shared ⟨h.inv, O.refl i _⟩ r s hst).1⟩
  | finish i c p hi r hr =>
    have hw := h.threads i
    simp only [ThreadOk, hi] at hw
    have hq : Q i c r P.shared := by
      cases p with
      | ret a => cases hr; exact hw _ ⟨h.inv, O.refl i _⟩
      | raise e => cases hr; exact hw _ ⟨h.inv, O.refl i _⟩
      | op o k => cases hr
    exact .inl ⟨i, by rw [hi]; exact id, by rw [System.Pool.set_self]; nofun,
      fun _ => P.set_other _ _,
      (hO.finish i c r _ h.inv hq).1⟩
  | crash i c p hi =>
    exact .inl ⟨i, by rw [hi]; exact id, by rw [System.Pool.set_self]; nofun,
      fun _ => P.set_other _ _,
      hO.crash i c _ h.inv⟩
  | env s hs => exact .inr ⟨rfl, (hO.env P.shared s h.inv hs).2⟩

/-- What a thread that has stopped relies on, every further step keeps. -/
theorem PoolOk.stopped (hO : O.Ok S Q F) {P P' : S.Pool} (h : O.PoolOk Q F P)
    (hs : System.Step P P') {j : Nat} (hj : (P.threads j).Stopped) :
    P'.threads j = P.threads j ∧ O.frame j P.shared P'.shared := by
  rcases h.guarantee hO hs with ⟨i, hi, -, hothers, hg⟩ | ⟨ht, hf⟩
  · have hji : j ≠ i := by rintro rfl; exact hi hj
    exact ⟨hothers j hji, hg.2 j hji⟩
  · exact ⟨by rw [ht], hf j⟩

/-- **Adequacy.** From a state that satisfies `inv`, every reachable pool satisfies `inv`, every
running thread meets its weakest precondition there, and what finished threads left behind still
holds. -/
theorem Ok.sound (hO : O.Ok S Q F) {s : σ} (hs : O.inv s) {P : S.Pool}
    (h : System.Reachable s P) : O.PoolOk Q F P := by
  induction h with
  | refl => exact ⟨hs, fun j => trivial⟩
  | tail _ hstep ih => exact ih.next hO hstep

/-- Adequacy from any pool of a run on. -/
theorem PoolOk.steps (hO : O.Ok S Q F) {P P' : S.Pool} (hP : O.PoolOk Q F P)
    (h : System.Steps P P') : O.PoolOk Q F P' := by
  induction h with
  | refl => exact hP
  | tail _ hstep ih => exact ih.next hO hstep

/-- A thread that has stopped stays so, and what it relies on stays. -/
theorem Ok.stopped (hO : O.Ok S Q F) {P P' : S.Pool} (hP : O.PoolOk Q F P)
    (h : System.Steps P P') {j : Nat} (hj : (P.threads j).Stopped) :
    P'.threads j = P.threads j ∧ O.frame j P.shared P'.shared := by
  induction h with
  | refl => exact ⟨rfl, O.refl j _⟩
  | tail hsteps hstep ih =>
    obtain ⟨ht, hf⟩ := ih
    obtain ⟨ht', hf'⟩ := (hP.steps hO hsteps).stopped hO hstep (by rwa [ht])
    exact ⟨ht'.trans ht, O.trans j hf hf'⟩

/-- What a thread that has not started relies on, nothing has changed. -/
theorem Ok.idle (hO : O.Ok S Q F) {s : σ} (hs : O.inv s) {P : S.Pool} (h : System.Reachable s P)
    {j : Nat} (hj : P.threads j = .idle) : O.frame j s P.shared := by
  induction h with
  | refl => exact O.refl j s
  | tail hsteps hstep ih =>
    rcases (hO.sound hs hsteps).guarantee hO hstep with ⟨i, -, hi, hothers, hg⟩ | ⟨ht, hf⟩
    · have hji : j ≠ i := by rintro rfl; exact hi hj
      exact O.trans j (ih ((hothers j hji).symm.trans hj)) (hg.2 j hji)
    · exact O.trans j (ih (ht ▸ hj)) (hf j)

/-- What nobody takes away stays. -/
theorem Ok.lasting (hO : O.Ok S Q F) {K : σ → Prop} (hK : ∀ j s s', O.frame j s s' → K s → K s')
    {P P' : S.Pool} (hP : O.PoolOk Q F P) (hs : K P.shared) (h : System.Steps P P') :
    K P'.shared := by
  induction h with
  | refl => exact hs
  | tail hsteps hstep ih =>
    rcases (hP.steps hO hsteps).guarantee hO hstep with ⟨i, -, -, -, hg⟩ | ⟨-, hf⟩
    · exact hK (i + 1) _ _ (hg.2 (i + 1) (Nat.succ_ne_self i)) ih
    · exact hK 0 _ _ (hf 0) ih

/-! ## Following one thread

What is known of the program a thread still has to run, and of the state it runs in. -/

section Follows

variable {j : Nat} {K : σ → Prop} {B : Prop} {I : (c : S.Call) → Prog Res ε (S.Ret c) → σ → Prop}

variable (O S j K B I) in
/-- `I` is known of thread `j` while it runs, and from then on `K` of the state; `B` is known where
it may still start. -/
structure Known : Prop where
  state : ∀ {c p s}, I c p s → K s
  moved : ∀ {c p s s'}, I c p s → O.Moved j s s' → I c p s'
  kept : ∀ {s s'}, K s → O.Moved j s s' → K s'
  start : ∀ {c s}, B → O.inv s → S.canStart j c s → I c (S.prog c) (S.onStart j c s)
  exec : ∀ {c o k s r s'}, O.inv s → O.inv s' → I c (.op o k) s → S.step j c o s r s' →
    I c (k r) s'
  finish : ∀ {c r s}, K s → K (S.onFinish j c r s)
  crash : ∀ {c s}, K s → K (S.onCrash j c s)

variable (K B I) in
/-- What is known of thread `j` in a pool. -/
def Follows (P : S.Pool) (j : Nat) : Prop :=
  match P.threads j with
  | .idle => B
  | .running c p => I c p P.shared
  | .finished c r => K P.shared ∧ ∃ p s, System.outcome? p = some r ∧ I c p s
  | .dead _ => K P.shared

theorem Follows.moved (hK : O.Known S j K B I) {P P' : S.Pool} (h : Follows K B I P j)
    (ht : P'.threads j = P.threads j) (hm : O.Moved j P.shared P'.shared) :
    Follows K B I P' j := by
  unfold Follows at h ⊢
  rw [ht]
  cases hj : P.threads j with
  | idle => rw [hj] at h; exact h
  | running c p => rw [hj] at h; exact hK.moved h hm
  | finished c r => rw [hj] at h; exact ⟨hK.kept h.1 hm, h.2⟩
  | dead c => rw [hj] at h; exact hK.kept h hm

/-- Of a thread that can no longer start, `K` is known. -/
theorem Follows.state (hK : O.Known S j K B I) {P : S.Pool} (h : Follows K B I P j) (hB : ¬B) :
    K P.shared := by
  unfold Follows at h
  cases ht : P.threads j with
  | idle => rw [ht] at h; exact absurd h hB
  | running c p => rw [ht] at h; exact hK.state h
  | finished c r => rw [ht] at h; exact h.1
  | dead c => rw [ht] at h; exact h

theorem Follows.next (hO : O.Ok S Q F) (hK : O.Known S j K B I) {P P' : S.Pool}
    (hP : O.PoolOk Q F P) (h : Follows K B I P j) (hs : System.Step P P') :
    Follows K B I P' j := by
  have hinv := (hP.next hO hs).inv
  cases hs with
  | start i c hi hc =>
    by_cases hj : j = i
    · subst hj
      rw [Follows, hi] at h
      rw [Follows, System.Pool.set_self]
      exact hK.start h hP.inv hc
    · exact h.moved hK (P.set_other _ _ hj) ⟨hinv, (hO.start i c _ hP.inv hc).1.2 j hj⟩
  | exec i c o k hi r s hst =>
    by_cases hj : j = i
    · subst hj
      rw [Follows, hi] at h
      rw [Follows, System.Pool.set_self]
      exact hK.exec hP.inv hinv h hst
    · have hw := hP.threads i
      simp only [ThreadOk, hi] at hw
      exact h.moved hK (P.set_other _ _ hj)
        ⟨hinv, (hw P.shared ⟨hP.inv, O.refl i _⟩ r s hst).1.2 j hj⟩
  | finish i c p hi r hr =>
    by_cases hj : j = i
    · subst hj
      rw [Follows, hi] at h
      rw [Follows, System.Pool.set_self]
      exact ⟨hK.finish (hK.state h), p, _, hr, h⟩
    · have hg := (hP.guarantee hO (.finish P i c p hi r hr)).resolve_right fun h => by
        have := congrFun h.1 i
        rw [System.Pool.set_self, hi] at this
        cases this
      obtain ⟨i', hrun, -, hothers, hguar⟩ := hg
      obtain rfl : i' = i := by
        by_contra hne
        have := hothers i (Ne.symm hne)
        rw [System.Pool.set_self, hi] at this
        cases this
      exact h.moved hK (P.set_other _ _ hj) ⟨hinv, hguar.2 j hj⟩
  | crash i c p hi =>
    by_cases hj : j = i
    · subst hj
      rw [Follows, hi] at h
      rw [Follows, System.Pool.set_self]
      exact hK.crash (hK.state h)
    · exact h.moved hK (P.set_other _ _ hj) ⟨hinv, (hO.crash i c _ hP.inv).2 j hj⟩
  | env s hs =>
    exact h.moved hK rfl ⟨hinv, (hO.env P.shared s hP.inv hs).2 j⟩

/-- **What is known of a thread stays known of it**, from any pool of a run on. -/
theorem Follows.steps (hO : O.Ok S Q F) (hK : O.Known S j K B I) {P P' : S.Pool}
    (hP : O.PoolOk Q F P) (h : Follows K B I P j) (hs : System.Steps P P') :
    Follows K B I P' j := by
  induction hs with
  | refl => exact h
  | tail hsteps hstep ih => exact ih.next hO hK (hP.steps hO hsteps) hstep

end Follows

/-! ## Calls that start later

From some point of a run on, `K` holds: what everybody may rely on keeps it. A call that starts
after that point may rely on it too. -/

section Later

variable {K : σ → Prop}

variable (O K) in
/-- `O` where `K` holds besides. -/
def restrict : Outline σ where
  inv s := O.inv s ∧ K s
  frame := O.frame
  refl := O.refl
  trans := O.trans

variable (O K) in
/-- Nobody takes `K` away. -/
def Lasting : Prop := ∀ j s s', O.frame j s s' → K s → K s'

theorem Guar.restrict (hK : O.Lasting K) {s s' : σ} (h : O.Guar i s s') (hs : K s) :
    (O.restrict K).Guar i s s' :=
  ⟨⟨h.1, hK (i + 1) s s' (h.2 (i + 1) (Nat.succ_ne_self i)) hs⟩, h.2⟩

theorem wp_restrict (hK : O.Lasting K) {p : Prog Res ε α} {Q : Except ε α → σ → Prop} {s : σ}
    (h : O.wp i step p Q s) : (O.restrict K).wp i step p Q s := by
  induction p generalizing s with
  | ret a => exact fun s' hm => h s' ⟨hm.1.1, hm.2⟩
  | raise e => exact fun s' hm => h s' ⟨hm.1.1, hm.2⟩
  | op o k ih =>
    intro s' hm r s'' hs
    obtain ⟨hg, hk⟩ := h s' ⟨hm.1.1, hm.2⟩ r s'' hs
    exact ⟨hg.restrict hK hm.1.2, ih r hk⟩

variable {Q' F' : Nat → (c : S.Call) → Except ε (S.Ret c) → σ → Prop}

/-- The threads that `idle` selects start after `K` has come to hold. -/
theorem Ok.select (hK : O.Lasting K) (hO : O.Ok S Q F) (hO' : (O.restrict K).Ok S Q' F')
    (idle : Nat → Prop) [DecidablePred idle] :
    (O.restrict K).Ok S (fun i => if idle i then Q' i else Q i)
      (fun i => if idle i then F' i else F i) where
  start i c s hs hc := by
    split
    · exact hO'.start i c s hs hc
    · obtain ⟨hg, hw⟩ := hO.start i c s hs.1 hc
      exact ⟨hg.restrict hK hs.2, wp_restrict hK hw⟩
  finish i c r s hs hq := by
    split at hq
    · rename_i hi
      simpa only [if_pos hi] using hO'.finish i c r s hs hq
    · rename_i hi
      obtain ⟨hg, hf⟩ := hO.finish i c r s hs.1 hq
      simpa only [if_neg hi] using And.intro (hg.restrict hK hs.2) hf
  stable i c r s s' hf hm := by
    split at hf
    · rename_i hi
      simpa only [if_pos hi] using hO'.stable i c r s s' hf hm
    · rename_i hi
      simpa only [if_neg hi] using hO.stable i c r s s' hf ⟨hm.1.1, hm.2⟩
  crash i c s hs := (hO.crash i c s hs.1).restrict hK hs.2
  env s s' hs he := by
    obtain ⟨hi, hf⟩ := hO.env s s' hs.1 he
    exact ⟨⟨hi, hK 0 s s' (hf 0) hs.2⟩, hf⟩

/-- **Adequacy for calls that start later.** A thread still idle where `K` holds leaves behind what
its call promises under `K`. -/
theorem Ok.later (hK : O.Lasting K) (hO : O.Ok S Q F) (hO' : (O.restrict K).Ok S Q' F')
    {P P' : S.Pool} (hP : O.PoolOk Q F P) (hs : K P.shared) (h : System.Steps P P') {i : Nat}
    (hi : P.threads i = .idle) {c : S.Call} {r : Except ε (S.Ret c)}
    (hr : P'.threads i = .finished c r) : K P'.shared ∧ F' i c r P'.shared := by
  classical
  have hsel := Ok.select hK hO hO' fun j => P.threads j = .idle
  have hstart : (O.restrict K).PoolOk (fun j => if P.threads j = .idle then Q' j else Q j)
      (fun j => if P.threads j = .idle then F' j else F j) P := by
    refine ⟨⟨hP.inv, hs⟩, fun j => ?_⟩
    have ht := hP.threads j
    unfold ThreadOk at ht ⊢
    rcases hj : P.threads j with _ | ⟨c, p⟩ | ⟨c, r⟩ | c
    · trivial
    · rw [hj] at ht
      have hne : P.threads j ≠ .idle := by simp [hj]
      simpa only [if_neg hne] using wp_restrict hK ht
    · rw [hj] at ht
      have hne : P.threads j ≠ .idle := by simp [hj]
      simpa only [if_neg hne] using ht
    · trivial
  have hend : ∀ {P'}, System.Steps P P' →
      (O.restrict K).PoolOk (fun j => if P.threads j = .idle then Q' j else Q j)
        (fun j => if P.threads j = .idle then F' j else F j) P' := by
    intro P' h
    induction h with
    | refl => exact hstart
    | tail _ hstep ih => exact ih.next hsel hstep
  have hfin := (hend h).finished hr
  exact ⟨(hend h).inv.2, by simpa [hi] using hfin⟩

end Later

end Outline

end Ticketing.Lib
