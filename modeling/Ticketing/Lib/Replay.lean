import Ticketing.Lib.Pool

/-!
# Runs written down

A `Move` names what a pool does next and what the outside chose meanwhile. A `Player` computes the
step of a thread and of the world, and carries the proof that what it computes is one. `replay`
plays a list of moves, `none` where one is not possible.

* `replay_steps`: what is played is a run, so that a fact about one particular run can be
  computed.
* `replay_threads`: a thread that no move names stays as it is.
* `replay_map`: a fact about the end of a run is found by playing it once.
-/

namespace Ticketing.Lib.System

universe u v

variable {Op : Type u} {Res : Op → Type} {ε : Type} {σ : Type v}

/-- The exception a thread ended with. -/
def Thread.error? {S : System Res ε σ} : S.Thread → Option ε
  | .finished _ (.error e) => some e
  | _ => none

theorem Thread.error?_eq_some {S : System Res ε σ} {t : S.Thread} {e : ε} :
    t.error? = some e ↔ ∃ c, t = .finished c (.error e) := by
  rcases t with _ | _ | ⟨c, r | r⟩ | _ <;> simp [Thread.error?]

/-- The thread has started and not come to its end. -/
def Thread.isRunning {S : System Res ε σ} : S.Thread → Bool
  | .running _ _ => true
  | _ => false

theorem Thread.isRunning_eq_true {S : System Res ε σ} {t : S.Thread} :
    t.isRunning = true ↔ ∃ c p, t = .running c p := by
  cases t <;> simp [Thread.isRunning]

/-- What happens next in a run. -/
inductive Move (Call Choice Env : Type)
  | start (i : Nat) (c : Call)
  /-- Thread `i` performs one operation for each choice. -/
  | ops (i : Nat) (choices : List Choice)
  | finish (i : Nat)
  | crash (i : Nat)
  | env (e : Env)

/-- The thread that a move is of. -/
def Move.thread? {Call Choice Env : Type} : Move Call Choice Env → Option Nat
  | .start i _ | .ops i _ | .finish i | .crash i => some i
  | .env _ => none

/-- A way to compute the steps of a system from choices. -/
structure Player (S : System Res ε σ) (Choice Env : Type) where
  may : Nat → S.Call → σ → Bool
  exec : Nat → S.Call → Choice → (o : Op) → σ → Option (Except ε (Res o) × σ)
  moveEnv : Env → σ → Option σ
  may_start : ∀ {i c s}, may i c s = true → S.canStart i c s
  exec_step : ∀ {i c ch o s r s'}, exec i c ch o s = some (r, s') → S.step i c o s r s'
  env_step : ∀ {e s s'}, moveEnv e s = some s' → S.env s s'

namespace Player

variable {S : System Res ε σ} {Choice Env : Type} (R : S.Player Choice Env)

/-- One operation for each choice, and what is left of the program. -/
def execs (i : Nat) (c : S.Call) :
    List Choice → Prog Res ε (S.Ret c) → σ → Option (Prog Res ε (S.Ret c) × σ)
  | [], p, s => some (p, s)
  | ch :: chs, .op o k, s =>
    match R.exec i c ch o s with
    | some (r, s') => execs i c chs (k r) s'
    | none => none
  | _ :: _, _, _ => none

def move (P : S.Pool) : Move S.Call Choice Env → Option S.Pool
  | .start i c =>
    match P.threads i with
    | .idle =>
      if R.may i c P.shared then some (P.set (S.onStart i c P.shared) i (.running c (S.prog c)))
      else none
    | _ => none
  | .ops i chs =>
    match P.threads i with
    | .running c p =>
      (R.execs i c chs p P.shared).map fun ps => P.set ps.2 i (.running c ps.1)
    | _ => none
  | .finish i =>
    match P.threads i with
    | .running c p =>
      (outcome? p).map fun r => P.set (S.onFinish i c r P.shared) i (.finished c r)
    | _ => none
  | .crash i =>
    match P.threads i with
    | .running c _ => some (P.set (S.onCrash i c P.shared) i (.dead c))
    | _ => none
  | .env e => (R.moveEnv e P.shared).map fun s => ⟨s, P.threads⟩

def replay : List (Move S.Call Choice Env) → S.Pool → Option S.Pool
  | [], P => some P
  | m :: ms, P =>
    match R.move P m with
    | some P' => replay ms P'
    | none => none

theorem execs_steps {i : Nat} {c : S.Call} {chs : List Choice} {P : S.Pool}
    {p p' : Prog Res ε (S.Ret c)} {s' : σ} (hi : P.threads i = .running c p)
    (h : R.execs i c chs p P.shared = some (p', s')) : Steps P (P.set s' i (.running c p')) := by
  induction chs generalizing P p with
  | nil =>
    cases h
    have : P.set P.shared i (.running c p') = P := by
      simp only [Pool.set, ← hi, Function.update_eq_self]
    rw [this]
  | cons ch chs ih =>
    cases p with
    | ret a => cases h
    | raise e => cases h
    | op o k =>
      simp only [execs] at h
      split at h
      · rename_i r s hs
        have hstep := Step.exec P i c o k hi r s (R.exec_step hs)
        have hrest := ih (P := P.set s i (.running c (k r))) (P.set_self s i _) h
        have hset : (P.set s i (.running c (k r))).set s' i (.running c p') =
            P.set s' i (.running c p') := by
          simp [Pool.set]
        rw [hset] at hrest
        exact .head hstep hrest
      · cases h

theorem move_steps {P P' : S.Pool} {m : Move S.Call Choice Env} (h : R.move P m = some P') :
    Steps P P' := by
  cases m with
  | start i c =>
    simp only [move] at h
    split at h
    · rename_i hi
      split at h <;> cases h
      rename_i hmay
      exact .single (.start P i c hi (R.may_start hmay))
    · cases h
  | ops i chs =>
    simp only [move] at h
    split at h
    · rename_i c p hi
      obtain ⟨⟨p', s'⟩, hx, rfl⟩ := Option.map_eq_some_iff.mp h
      exact R.execs_steps hi hx
    · cases h
  | finish i =>
    simp only [move] at h
    split at h
    · rename_i c p hi
      obtain ⟨r, hr, rfl⟩ := Option.map_eq_some_iff.mp h
      exact .single (.finish P i c p hi r hr)
    · cases h
  | crash i =>
    simp only [move] at h
    split at h <;> cases h
    rename_i c p hi
    exact .single (.crash P i c p hi)
  | env e =>
    obtain ⟨s, hs, rfl⟩ := Option.map_eq_some_iff.mp h
    exact .single (.env P s (R.env_step hs))

/-- What is played is a run. -/
theorem replay_steps {ms : List (Move S.Call Choice Env)} {P P' : S.Pool}
    (h : R.replay ms P = some P') : Steps P P' := by
  induction ms generalizing P with
  | nil => cases h; exact .refl
  | cons m ms ih =>
    simp only [replay] at h
    split at h
    · rename_i hm
      exact (R.move_steps hm).trans (ih h)
    · cases h

theorem move_threads {P P' : S.Pool} {m : Move S.Call Choice Env} (h : R.move P m = some P')
    {j : Nat} (hj : m.thread? ≠ some j) : P'.threads j = P.threads j := by
  have at_other {i : Nat} {s : σ} {t : S.Thread} (hm : m.thread? = some i) :
      (P.set s i t).threads j = P.threads j :=
    P.set_other s t fun he => hj (he ▸ hm)
  cases m with
  | start i c =>
    simp only [move] at h
    split at h
    · split at h <;> cases h
      exact at_other rfl
    · cases h
  | ops i chs =>
    simp only [move] at h
    split at h
    · obtain ⟨_, -, rfl⟩ := Option.map_eq_some_iff.mp h
      exact at_other rfl
    · cases h
  | finish i =>
    simp only [move] at h
    split at h
    · obtain ⟨_, -, rfl⟩ := Option.map_eq_some_iff.mp h
      exact at_other rfl
    · cases h
  | crash i =>
    simp only [move] at h
    split at h <;> cases h
    exact at_other rfl
  | env e =>
    obtain ⟨s, -, rfl⟩ := Option.map_eq_some_iff.mp h
    rfl

/-- A thread that no move is of stays as it is. -/
theorem replay_threads {ms : List (Move S.Call Choice Env)} {P P' : S.Pool}
    (h : R.replay ms P = some P') {j : Nat} (hj : some j ∉ ms.map Move.thread?) :
    P'.threads j = P.threads j := by
  induction ms generalizing P with
  | nil => cases h; rfl
  | cons m ms ih =>
    rw [List.map_cons, List.mem_cons, not_or] at hj
    simp only [replay] at h
    split at h
    · rename_i hm
      exact (ih h hj.2).trans (R.move_threads hm (Ne.symm hj.1))
    · cases h

/-- What can be observed at the end of a run that was played. -/
theorem replay_map {β : Type} (ms : List (Move S.Call Choice Env)) (P : S.Pool) (f : S.Pool → β)
    {b : β} (h : (R.replay ms P).map f = some b) : ∃ P', Steps P P' ∧ f P' = b := by
  obtain ⟨P', hP, hf⟩ := Option.map_eq_some_iff.mp h
  exact ⟨P', R.replay_steps hP, hf⟩

/-- What can be observed of a run that was played, on the way and at its end. -/
theorem replay_map₂ {β γ : Type} (ms ms' : List (Move S.Call Choice Env)) (P : S.Pool)
    (f : S.Pool → β) (g : S.Pool → γ) {b : β} {d : γ}
    (h : (R.replay ms P).bind (fun Q => (R.replay ms' Q).map fun Q' => (f Q, g Q')) =
      some (b, d)) : ∃ Q Q', Steps P Q ∧ Steps Q Q' ∧ f Q = b ∧ g Q' = d := by
  obtain ⟨Q, hQ, h⟩ := Option.bind_eq_some_iff.mp h
  obtain ⟨Q', hQ', hfg⟩ := Option.map_eq_some_iff.mp h
  obtain ⟨hf, hg⟩ := Prod.mk.inj hfg
  exact ⟨Q, Q', R.replay_steps hQ, R.replay_steps hQ', hf, hg⟩

end Player

end Ticketing.Lib.System
