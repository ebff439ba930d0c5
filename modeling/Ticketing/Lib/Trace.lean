import Ticketing.Lib.Replay
import Mathlib.Data.List.Basic

/-!
# What a thread has done

A `Trace` lists the operations a thread has performed, each with what it answered. Along a trace a
program goes in one way (`Goes`), so what has become of a thread is a fact about its program and
its trace alone.

* `Records s P T` is a run to the pool `P` in which the thread `i` has done `T i`; every run can
  be recorded (`exists_records`), one that is played by its moves (`replay_records`).
* `Safe A φ B E p t` is about what `p` does after `t`, whatever its operations answer that `A`
  allows: every operation it comes to satisfies `φ` of the trace up to there, it returns as `B`
  says and raises as `E` says. The rules follow the program (`Safe.bind`, `Safe.handle`,
  `Safe.perform`).

Results:
* `Records.followed`: what is left of a thread's program is what its trace leaves of it.
* `Records.performing`: for each entry of a trace there is the pool in which the operation was
  performed.
* `Records.performed`: what a thread of a pool performs is as its program is `Safe`;
  `Records.returned` and `Records.raised` say the same of how it ended.
-/

namespace Ticketing.Lib

universe u v

variable {Op : Type u} {Res : Op → Type} {ε α β : Type}

/-- Operations, each with its answer. -/
abbrev Trace {Op : Type u} (Res : Op → Type) (ε : Type) := List (Σ o : Op, Except ε (Res o))

namespace Prog

/-! ## Along a trace -/

/-- Along the trace the program comes to what is left of it. -/
inductive Goes : Prog Res ε α → Trace Res ε → Prog Res ε α → Prop
  | refl (p : Prog Res ε α) : Goes p [] p
  | op {o : Op} {k : Except ε (Res o) → Prog Res ε α} {r : Except ε (Res o)} {t : Trace Res ε}
      {q : Prog Res ε α} (h : Goes (k r) t q) : Goes (.op o k) (⟨o, r⟩ :: t) q

variable {p q : Prog Res ε α} {t u : Trace Res ε}

theorem Goes.snoc {o : Op} {k : Except ε (Res o) → Prog Res ε α} (h : Goes p t (.op o k))
    (r : Except ε (Res o)) : Goes p (t ++ [⟨o, r⟩]) (k r) := by
  generalize hq : Prog.op o k = q at h
  induction h with
  | refl p =>
    subst hq
    exact .op (.refl _)
  | op h ih => exact .op (ih hq)

/-- The way to the end of a trace leads past the end of its beginning. -/
theorem Goes.split (h : Goes p (t ++ u) q) : ∃ m, Goes p t m ∧ Goes m u q := by
  induction t generalizing p with
  | nil => exact ⟨p, .refl p, h⟩
  | cons x t ih =>
    cases h with
    | op h =>
      obtain ⟨m, hm, hq⟩ := ih h
      exact ⟨m, .op hm, hq⟩

/-! ## Programs that are safe along every trace -/

section Safe

variable (A : (o : Op) → Except ε (Res o) → Prop) (φ : Trace Res ε → Op → Prop)
variable (B : α → Trace Res ε → Prop) (E : ε → Trace Res ε → Prop)

/-- What `p` does after a trace: each operation as `φ` says, the end as `B` or `E` says. -/
def Safe : Prog Res ε α → Trace Res ε → Prop
  | ret a, t => B a t
  | raise e, t => E e t
  | op o k, t => φ t o ∧ ∀ r, A o r → Safe (k r) (t ++ [⟨o, r⟩])

variable {A φ B E}

theorem Safe.mono {B' : α → Trace Res ε → Prop} {E' : ε → Trace Res ε → Prop}
    (h : Safe A φ B E p t) (hB : ∀ a t, B a t → B' a t) (hE : ∀ e t, E e t → E' e t) :
    Safe A φ B' E' p t := by
  induction p generalizing t with
  | ret a => exact hB a t h
  | raise e => exact hE e t h
  | op o k ih => exact ⟨h.1, fun r hr => ih r (h.2 r hr)⟩

theorem Safe.imp {φ' : Trace Res ε → Op → Prop} (h : Safe A φ B E p t)
    (hφ : ∀ t o, φ t o → φ' t o) : Safe A φ' B E p t := by
  induction p generalizing t with
  | ret a => exact h
  | raise e => exact h
  | op o k ih => exact ⟨hφ t o h.1, fun r hr => ih r (h.2 r hr)⟩

/-- The rule of sequencing. -/
theorem Safe.bind {C : β → Trace Res ε → Prop} {f : α → Prog Res ε β}
    (h : Safe A φ (fun a => Safe A φ C E (f a)) E p t) : Safe A φ C E (p.bind f) t := by
  induction p generalizing t with
  | ret a => exact h
  | raise e => exact h
  | op o k ih => exact ⟨h.1, fun r hr => ih r (h.2 r hr)⟩

/-- The rule of handlers. -/
theorem Safe.handle {f : ε → Prog Res ε α} (h : Safe A φ B (fun e => Safe A φ B E (f e)) p t) :
    Safe A φ B E (p.handle f) t := by
  induction p generalizing t with
  | ret a => exact h
  | raise e => exact h
  | op o k ih => exact ⟨h.1, fun r hr => ih r (h.2 r hr)⟩

theorem Safe.perform {o : Op} {B : Res o → Trace Res ε → Prop} (ho : φ t o)
    (hB : ∀ a, A o (.ok a) → B a (t ++ [⟨o, .ok a⟩]))
    (hE : ∀ e, E e (t ++ [⟨o, .error e⟩])) :
    Safe A φ B E (perform o : Prog Res ε (Res o)) t := by
  refine ⟨ho, fun r hr => ?_⟩
  rcases r with e | a
  · exact hE e
  · exact hB a hr

/-- What a program does that performs only operations allowed after any trace so far: what it
returns comes of the operations it has performed. -/
theorem Within.safe {ψ : Op → Prop} {Q : α → Prop} (h : Within ψ Q p)
    (hφ : ∀ v o, t <+: v → (∀ x ∈ v.drop t.length, ψ x.1) → ψ o → φ v o) :
    Safe A φ (fun a v => Q a ∧ ∃ w, v = t ++ w ∧ Goes p w (.ret a) ∧ ∀ x ∈ w, ψ x.1)
      (fun _ v => ∃ w, v = t ++ w ∧ ∀ x ∈ w, ψ x.1) p t := by
  suffices hgen : ∀ (q : Prog Res ε α) (w : Trace Res ε), Within ψ Q q → (∀ x ∈ w, ψ x.1) →
      (∀ v m, Goes q v m → Goes p (w ++ v) m) →
      Safe A φ (fun a v => Q a ∧ ∃ w, v = t ++ w ∧ Goes p w (.ret a) ∧ ∀ x ∈ w, ψ x.1)
        (fun _ v => ∃ w, v = t ++ w ∧ ∀ x ∈ w, ψ x.1) q (t ++ w) by
    have := hgen p [] h (by simp) fun v m hv => hv
    rwa [List.append_nil] at this
  intro q
  induction q with
  | ret a =>
    intro w hq hw hg
    have hend := hg [] _ (.refl _)
    rw [List.append_nil] at hend
    exact ⟨hq, w, rfl, hend, hw⟩
  | raise e => exact fun w _ hw _ => ⟨w, rfl, hw⟩
  | op o k ih =>
    intro w hq hw hg
    refine ⟨hφ _ o (List.prefix_append _ _) (by simpa using hw) hq.1, fun r _ => ?_⟩
    rw [List.append_assoc]
    refine ih r _ (hq.2 r) ?_ fun v m hv => ?_
    · intro x hx
      rcases List.mem_append.mp hx with hx | hx
      · exact hw x hx
      · rw [List.mem_singleton.mp hx]
        exact hq.1
    · rw [List.append_assoc]
      exact hg _ _ (.op hv)

theorem Safe.goes (h : Safe A φ B E p t) (hg : Goes p u q) (hu : ∀ x ∈ u, A x.1 x.2) :
    Safe A φ B E q (t ++ u) := by
  induction hg generalizing t with
  | refl p =>
    rw [List.append_nil]
    exact h
  | @op o k r u q hg ih =>
    rw [List.forall_mem_cons] at hu
    have hnext := ih (h.2 r hu.1) hu.2
    rwa [List.append_assoc] at hnext

/-- What a safe program has performed. -/
theorem Safe.performed (h : Safe A φ B E p t) {o : Op} {r : Except ε (Res o)} {v : Trace Res ε}
    (hg : Goes p (u ++ ⟨o, r⟩ :: v) q) (hu : ∀ x ∈ u, A x.1 x.2) : φ (t ++ u) o := by
  obtain ⟨m, hm, hq⟩ := hg.split
  have hsafe := h.goes hm hu
  cases hq with
  | op hq => exact hsafe.1

end Safe

end Prog

/-! ## Recorded runs -/

namespace System

variable {σ : Type v} {S : System Res ε σ}

/-- A run from `s` to the pool in which each thread has done what its trace says. -/
inductive Records (s : σ) : S.Pool → (Nat → Trace Res ε) → Prop
  | init : Records s (.init s) fun _ => []
  | start {P : S.Pool} {T : Nat → Trace Res ε} (h : Records s P T) (i : Nat) (c : S.Call)
      (hi : P.threads i = .idle) (hc : S.canStart i c P.shared) :
      Records s (P.set (S.onStart i c P.shared) i (.running c (S.prog c))) T
  | exec {P : S.Pool} {T : Nat → Trace Res ε} (h : Records s P T) (i : Nat) (c : S.Call) (o : Op)
      (k : Except ε (Res o) → Prog Res ε (S.Ret c)) (hi : P.threads i = .running c (.op o k))
      (r : Except ε (Res o)) (s' : σ) (hs : S.step i c o P.shared r s') :
      Records s (P.set s' i (.running c (k r))) (Function.update T i (T i ++ [⟨o, r⟩]))
  | finish {P : S.Pool} {T : Nat → Trace Res ε} (h : Records s P T) (i : Nat) (c : S.Call)
      (p : Prog Res ε (S.Ret c)) (hi : P.threads i = .running c p) (r : Except ε (S.Ret c))
      (hr : outcome? p = some r) :
      Records s (P.set (S.onFinish i c r P.shared) i (.finished c r)) T
  | crash {P : S.Pool} {T : Nat → Trace Res ε} (h : Records s P T) (i : Nat) (c : S.Call)
      (p : Prog Res ε (S.Ret c)) (hi : P.threads i = .running c p) :
      Records s (P.set (S.onCrash i c P.shared) i (.dead c)) T
  | env {P : S.Pool} {T : Nat → Trace Res ε} (h : Records s P T) (s' : σ)
      (hs : S.env P.shared s') : Records s ⟨s', P.threads⟩ T

variable {s : σ} {P : S.Pool} {T : Nat → Trace Res ε}

theorem Records.reachable (h : Records s P T) : Reachable s P := by
  induction h with
  | init => exact .refl
  | start h i c hi hc ih => exact ih.tail (.start _ i c hi hc)
  | exec h i c o k hi r s' hs ih => exact ih.tail (.exec _ i c o k hi r s' hs)
  | finish h i c p hi r hr ih => exact ih.tail (.finish _ i c p hi r hr)
  | crash h i c p hi ih => exact ih.tail (.crash _ i c p hi)
  | env h s' hs ih => exact ih.tail (.env _ s' hs)

/-- A recorded run goes on recorded. -/
theorem Records.next {P' : S.Pool} (h : Records s P T) (hs : Step P P') :
    ∃ T', Records s P' T' := by
  cases hs with
  | start i c hi hc => exact ⟨_, h.start i c hi hc⟩
  | exec i c o k hi r s' hs => exact ⟨_, h.exec i c o k hi r s' hs⟩
  | finish i c p hi r hr => exact ⟨_, h.finish i c p hi r hr⟩
  | crash i c p hi => exact ⟨_, h.crash i c p hi⟩
  | env s' hs => exact ⟨_, h.env s' hs⟩

/-- Every run can be recorded. -/
theorem exists_records (h : Reachable s P) : ∃ T, Records s P T := by
  induction h with
  | refl => exact ⟨_, .init⟩
  | tail _ hstep ih =>
    obtain ⟨T, hT⟩ := ih
    exact hT.next hstep

/-- What a thread's trace has to do with its program. -/
def Thread.Followed (t : Trace Res ε) : S.Thread → Prop
  | .idle => t = []
  | .running c p => (S.prog c).Goes t p
  | .finished c r => ∃ p, (S.prog c).Goes t p ∧ outcome? p = some r
  | .dead c => ∃ p, (S.prog c).Goes t p

theorem Records.followed (h : Records s P T) (i : Nat) : (P.threads i).Followed (T i) := by
  induction h with
  | init => rfl
  | @start P T h j c hj hc ih =>
    by_cases hi : i = j
    · subst hi
      rw [hj] at ih
      rw [Pool.set_self, show T i = [] from ih]
      exact .refl _
    · rwa [Pool.set_other P _ _ hi]
  | @exec P T h j c o k hj r s' hs ih =>
    by_cases hi : i = j
    · subst hi
      rw [hj] at ih
      rw [Pool.set_self, Function.update_self]
      exact Prog.Goes.snoc ih r
    · rwa [Pool.set_other P _ _ hi, Function.update_of_ne hi]
  | @finish P T h j c p hj r hr ih =>
    by_cases hi : i = j
    · subst hi
      rw [hj] at ih
      rw [Pool.set_self]
      exact ⟨p, ih, hr⟩
    · rwa [Pool.set_other P _ _ hi]
  | @crash P T h j c p hj ih =>
    by_cases hi : i = j
    · subst hi
      rw [hj] at ih
      rw [Pool.set_self]
      exact ⟨p, ih⟩
    · rwa [Pool.set_other P _ _ hi]
  | env h s' hs ih => exact ih

/-- A thread that has done something runs or ran a call, whose program goes along its trace. -/
theorem Records.goes (h : Records s P T) {i : Nat} {c : S.Call}
    (hi : (P.threads i).call? = some c) : ∃ p, (S.prog c).Goes (T i) p := by
  have hf := h.followed i
  rcases ht : P.threads i with _ | ⟨c', p⟩ | ⟨c', r⟩ | c'
  all_goals
    rw [ht] at hf hi
    cases hi
  · exact ⟨p, hf⟩
  · exact hf.imp fun p hp => hp.1
  · exact hf

/-- Each operation of a trace was performed in a pool on the way. -/
theorem Records.performing (h : Records s P T) {i : Nat} {u v : Trace Res ε} {o : Op}
    {r : Except ε (Res o)} (ht : T i = u ++ ⟨o, r⟩ :: v) :
    ∃ Q U c k s', Records s Q U ∧ U i = u ∧ Steps Q P ∧ Q.threads i = .running c (.op o k) ∧
      S.step i c o Q.shared r s' := by
  induction h generalizing v with
  | init => exact absurd ht (by simp)
  | start h j c hj hc ih =>
    obtain ⟨Q, U, d, k', s', hQ, hu, hs, hd, hst⟩ := ih ht
    exact ⟨Q, U, d, k', s', hQ, hu, hs.tail (.start _ j c hj hc), hd, hst⟩
  | @exec P T h j c o' k hj r' s' hs ih =>
    have hstep := Step.exec P j c o' k hj r' s' hs
    by_cases hi : i = j
    · subst hi
      rw [Function.update_self] at ht
      rcases List.eq_nil_or_concat' v with rfl | ⟨v, x, rfl⟩
      · obtain ⟨hu, hx⟩ := List.append_inj' ht rfl
        cases hx
        exact ⟨P, T, c, k, s', h, hu, .single hstep, hj, hs⟩
      · rw [← List.cons_append, ← List.append_assoc] at ht
        obtain ⟨Q, U, d, k', s'', hQ, hu, hsteps, hd, hst⟩ := ih (List.append_inj' ht rfl).1
        exact ⟨Q, U, d, k', s'', hQ, hu, hsteps.tail hstep, hd, hst⟩
    · rw [Function.update_of_ne hi] at ht
      obtain ⟨Q, U, d, k', s'', hQ, hu, hsteps, hd, hst⟩ := ih ht
      exact ⟨Q, U, d, k', s'', hQ, hu, hsteps.tail hstep, hd, hst⟩
  | finish h j c p hj r' hr ih =>
    obtain ⟨Q, U, d, k', s', hQ, hu, hs, hd, hst⟩ := ih ht
    exact ⟨Q, U, d, k', s', hQ, hu, hs.tail (.finish _ j c p hj r' hr), hd, hst⟩
  | crash h j c p hj ih =>
    obtain ⟨Q, U, d, k', s', hQ, hu, hs, hd, hst⟩ := ih ht
    exact ⟨Q, U, d, k', s', hQ, hu, hs.tail (.crash _ j c p hj), hd, hst⟩
  | env h s'' henv ih =>
    obtain ⟨Q, U, d, k', s', hQ, hu, hs, hd, hst⟩ := ih ht
    exact ⟨Q, U, d, k', s', hQ, hu, hs.tail (.env _ s'' henv), hd, hst⟩

/-- What is true of every answer a thread is given is true of those of its trace. -/
theorem Records.answered (h : Records s P T) {i : Nat} {A : (o : Op) → Except ε (Res o) → Prop}
    (hA : ∀ c o s r s', S.step i c o s r s' → A o r) : ∀ x ∈ T i, A x.1 x.2 := by
  intro x hx
  obtain ⟨u, v, ht⟩ := List.append_of_mem hx
  obtain ⟨Q, U, c, k, s', -, -, -, -, hst⟩ := h.performing ht
  exact hA _ _ _ _ _ hst

/-- **What a thread has performed is as its program is safe.** -/
theorem Records.performed (h : Records s P T) {i : Nat} {c : S.Call}
    (hi : (P.threads i).call? = some c) {A : (o : Op) → Except ε (Res o) → Prop}
    (hA : ∀ i c o s r s', S.step i c o s r s' → A o r) {φ : Trace Res ε → Op → Prop}
    {B : S.Ret c → Trace Res ε → Prop} {E : ε → Trace Res ε → Prop}
    (hsafe : (S.prog c).Safe A φ B E []) {u v : Trace Res ε} {o : Op} {r : Except ε (Res o)}
    (ht : T i = u ++ ⟨o, r⟩ :: v) : φ u o := by
  obtain ⟨p, hp⟩ := h.goes hi
  have hanswers : ∀ x ∈ u, A x.1 x.2 := fun x hx =>
    h.answered (hA i) x (ht ▸ List.mem_append_left _ hx)
  rw [ht] at hp
  have hφ := hsafe.performed hp hanswers
  rwa [List.nil_append] at hφ

/-- What a thread performs next is, too. -/
theorem Records.performs (h : Records s P T) {i : Nat} {c : S.Call} {o : Op}
    {k : Except ε (Res o) → Prog Res ε (S.Ret c)} (hi : P.threads i = .running c (.op o k))
    {A : (o : Op) → Except ε (Res o) → Prop}
    (hA : ∀ i c o s r s', S.step i c o s r s' → A o r) {φ : Trace Res ε → Op → Prop}
    {B : S.Ret c → Trace Res ε → Prop} {E : ε → Trace Res ε → Prop}
    (hsafe : (S.prog c).Safe A φ B E []) : φ (T i) o := by
  have hgoes := h.followed i
  rw [hi] at hgoes
  have hrest := hsafe.goes hgoes (h.answered (hA i))
  exact hrest.1

section Ended

variable {i : Nat} {c : S.Call} {A : (o : Op) → Except ε (Res o) → Prop}
variable {φ : Trace Res ε → Op → Prop} {B : S.Ret c → Trace Res ε → Prop}
variable {E : ε → Trace Res ε → Prop}

/-- What a thread has returned, -/
theorem Records.returned (h : Records s P T) {a : S.Ret c} (hi : P.threads i = .finished c (.ok a))
    (hA : ∀ i c o s r s', S.step i c o s r s' → A o r) (hsafe : (S.prog c).Safe A φ B E []) :
    B a (T i) := by
  have hf := h.followed i
  rw [hi] at hf
  obtain ⟨p, hp, hr⟩ := hf
  have hend := hsafe.goes hp (h.answered (hA i))
  cases p with
  | ret a => cases hr; exact hend
  | raise e => cases hr
  | op o k => cases hr

/-- and what it has raised. -/
theorem Records.raised (h : Records s P T) {e : ε} (hi : P.threads i = .finished c (.error e))
    (hA : ∀ i c o s r s', S.step i c o s r s' → A o r) (hsafe : (S.prog c).Safe A φ B E []) :
    E e (T i) := by
  have hf := h.followed i
  rw [hi] at hf
  obtain ⟨p, hp, hr⟩ := hf
  have hend := hsafe.goes hp (h.answered (hA i))
  cases p with
  | ret a => cases hr
  | raise e => cases hr; exact hend
  | op o k => cases hr

end Ended

/-- A thread that has done something is one of a call. -/
theorem Records.call (h : Records s P T) {i : Nat} (hi : T i ≠ []) :
    ∃ c, (P.threads i).call? = some c := by
  have hf := h.followed i
  rcases ht : P.threads i with _ | ⟨c, p⟩ | ⟨c, r⟩ | c
  · rw [ht] at hf
    exact absurd hf hi
  all_goals exact ⟨c, rfl⟩

/-! ## Traces of runs written down -/

namespace Player

variable {Choice Env : Type} (R : S.Player Choice Env)

/-- What a thread does under these choices. -/
def execsTrace (i : Nat) (c : S.Call) : List Choice → Prog Res ε (S.Ret c) → σ → Trace Res ε
  | ch :: chs, .op o k, s =>
    match R.exec i c ch o s with
    | some (r, s') => ⟨o, r⟩ :: execsTrace i c chs (k r) s'
    | none => []
  | _, _, _ => []

/-- What thread `j` does in a move, -/
def moveTrace (j : Nat) (P : S.Pool) : Move S.Call Choice Env → Trace Res ε
  | .ops i chs =>
    match P.threads i with
    | .running c p => if j = i then R.execsTrace i c chs p P.shared else []
    | _ => []
  | _ => []

/-- and in a run. -/
def trace (j : Nat) : List (Move S.Call Choice Env) → S.Pool → Trace Res ε
  | [], _ => []
  | m :: ms, P => R.moveTrace j P m ++ (R.move P m).elim [] (trace j ms)

theorem execs_records {i : Nat} {c : S.Call} {chs : List Choice} {p p' : Prog Res ε (S.Ret c)}
    {s' : σ} (h : Records s P T) (hi : P.threads i = .running c p)
    (hx : R.execs i c chs p P.shared = some (p', s')) :
    Records s (P.set s' i (.running c p'))
      (Function.update T i (T i ++ R.execsTrace i c chs p P.shared)) := by
  induction chs generalizing P T p with
  | nil =>
    cases hx
    have : P.set P.shared i (.running c p') = P := by
      simp only [Pool.set, ← hi, Function.update_eq_self]
    rw [this, execsTrace, List.append_nil, Function.update_eq_self]
    · exact h
    · simp
  | cons ch chs ih =>
    cases p with
    | ret a => cases hx
    | raise e => cases hx
    | op o k =>
      simp only [execs] at hx
      split at hx
      · rename_i r s₁ hs
        have hnext := h.exec i c o k hi r s₁ (R.exec_step hs)
        have hrest := ih hnext (P.set_self s₁ i _) hx
        have hset : (P.set s₁ i (.running c (k r))).set s' i (.running c p') =
            P.set s' i (.running c p') := by
          simp [Pool.set]
        rw [hset, Function.update_idem, Function.update_self] at hrest
        rw [execsTrace, hs]
        simpa using hrest
      · cases hx

theorem move_records {P' : S.Pool} {m : Move S.Call Choice Env} (h : Records s P T)
    (hm : R.move P m = some P') :
    Records s P' fun j => T j ++ R.moveTrace j P m := by
  cases m with
  | ops i chs =>
    simp only [move] at hm
    split at hm
    · rename_i c p hi
      obtain ⟨⟨p', s'⟩, hx, rfl⟩ := Option.map_eq_some_iff.mp hm
      convert R.execs_records h hi hx using 1
      funext j
      by_cases hj : j = i
      · subst hj
        simp [moveTrace, hi]
      · simp [moveTrace, hi, hj]
    · cases hm
  | start i c =>
    simp only [move] at hm
    split at hm
    · rename_i hi
      split at hm <;> cases hm
      rename_i hmay
      simpa [moveTrace] using h.start i c hi (R.may_start hmay)
    · cases hm
  | finish i =>
    simp only [move] at hm
    split at hm
    · rename_i c p hi
      obtain ⟨r, hr, rfl⟩ := Option.map_eq_some_iff.mp hm
      simpa [moveTrace] using h.finish i c p hi r hr
    · cases hm
  | crash i =>
    simp only [move] at hm
    split at hm <;> cases hm
    rename_i c p hi
    simpa [moveTrace] using h.crash i c p hi
  | env e =>
    obtain ⟨s', hs, rfl⟩ := Option.map_eq_some_iff.mp hm
    simpa [moveTrace] using h.env s' (R.env_step hs)

/-- What is played is recorded. -/
theorem replay_records {ms : List (Move S.Call Choice Env)} {P' : S.Pool} (h : Records s P T)
    (hr : R.replay ms P = some P') : Records s P' fun j => T j ++ R.trace j ms P := by
  induction ms generalizing P T with
  | nil =>
    cases hr
    simpa [trace] using h
  | cons m ms ih =>
    simp only [replay] at hr
    split at hr
    · rename_i P₁ hm
      simpa [trace, hm] using ih (R.move_records h hm) hr
    · cases hr

/-- What can be observed of a run that was played, and of what thread `i` does in it. -/
theorem replay_map_trace {γ δ : Type} (ms : List (Move S.Call Choice Env)) (s : σ) (i : Nat)
    (f : S.Pool → γ) (g : Trace Res ε → δ) {b : γ} {d : δ}
    (h : (R.replay ms (.init s)).map (fun P => (f P, g (R.trace i ms (.init s)))) = some (b, d)) :
    ∃ P T, Records s P T ∧ f P = b ∧ g (T i) = d := by
  obtain ⟨P, hP, hfg⟩ := Option.map_eq_some_iff.mp h
  obtain ⟨hf, hg⟩ := Prod.mk.inj hfg
  exact ⟨P, _, R.replay_records .init hP, hf, by simpa using hg⟩

end Player
end System

end Ticketing.Lib
