import Ticketing.Concurrency.Rotation

/-!
# Revoking all tokens of a user

`revoke_all_active` reaches the tokens its `UPDATE` finds. A `login` or `refresh` that has read
before and commits after the `UPDATE` has started leaves a token that outlives the revocation. The
pool is that of the four calls of `Rotation.lean`.

* `RevocationComplete`: once a commit has revoked all tokens of a user, no token is exchanged that
  was issued by a commit before it, or by a call that had read before it (`HasRead`).
* `Unraced` is what a commit has to meet: no token of the user was issued since its `UPDATE`
  started, and none of the user's tokens were revoked since its call has read. It is a condition
  on the state before the commit.

Results:
* `not_exchanged_of_past`: a token that was there at the revocation is not exchanged afterwards.
  This follows from the history of commits alone.
* `revocation_complete_of_unraced`: in runs whose commits are unraced, every revocation is
  complete: what a call has read is then still so when it commits. This half follows one thread
  from the point of the run at which it has read (`Lib.Outline.Follows`).
* `revocation_misses_concurrent_login`: a run in which one is not.
-/

namespace Ticketing

open Lib (Prog Store System Outline)
open Lib.Outline (Triple Assertion post Known Follows)

/-! ## What is claimed -/

/-- The commit revokes the active tokens of a user. -/
def RevokesAll (userId : UUID) (ws : List Write) : Prop :=
  ∃ now τ ids, Write.revokeAllActive userId now τ ids ∈ ws

/-- The commit issues the token `id` to a user. -/
def Issues (userId id : UUID) (ws : List Write) : Prop :=
  ∃ t : RefreshToken, Write.insert .refreshTokens t ∈ ws ∧ t.userId = userId ∧ t.id = id

/-- The pool of the four calls, by any users, under the choices `admits` leaves. -/
abbrev authSystem (P : Platform) (X : Security) (C : Settings) (admits : Admission) :
    System Op.Res Exn World :=
  (authCalls P X C).system (fun _ _ => True) admits (Untouched [.refreshTokens])

section Claim

variable {P : Platform} {X : Security} {C : Settings} {admits : Admission}

/-- Call `i` is under way and has read: the user's hash, or the token it was presented with. -/
structure HasRead (pool : (authSystem P X C admits).Pool) (i : Nat) : Prop where
  running : ∃ c p, pool.threads i = .running c p
  begun : (pool.shared.store.sessions i).begun.isSome = true

/-- Once a commit has revoked all tokens of a user, no token is exchanged that is issued by a commit
before it, or by a call that has read before it, at `earlier`. -/
def RevocationComplete (earlier pool : (authSystem P X C admits).Pool) : Prop :=
  ∀ past j ws more userId, pool.shared.store.wal = past ++ (j, ws) :: more → RevokesAll userId ws →
    ∀ i ws' id, (i, ws') ∈ pool.shared.store.wal → Issues userId id ws' →
      (i, ws') ∈ past ∨ earlier.shared.store.wal.length ≤ past.length ∧ HasRead earlier i →
        ∀ x ∈ more, ¬Exchanges id x.2

end Claim

/-! ## Commits that do not race -/

/-- The `UPDATE` has found every token of the user that is active now. -/
def Finds (rows : List RefreshToken) (ws : List Write) : Prop :=
  ∀ userId now τ ids, Write.revokeAllActive userId now τ ids ∈ ws →
    ∀ t ∈ rows, t.isActive userId = true → t.id ∈ ids

/-- What a commit of thread `i` meets: no token was issued since the `UPDATE` started, and none of
the user's tokens were revoked since the call has read. -/
structure Unraced (i : Nat) (W : World) : Prop where
  finds : Finds (W.store.db .refreshTokens) (W.store.sessions i).writes
  read : ∀ userId id, Issues userId id (W.store.sessions i).writes →
    ∀ x ∈ W.store.wal.drop (W.store.sessions i).since, ¬RevokesAll userId x.2

/-- Commits race with none of the other kind. -/
def unraced : Admission := fun i W o _ => o = .commit → Unraced i W

theorem ensures_unraced : AuthService.Ensures unraced Finds := fun _ _ _ h => (h rfl).finds

/-! ## Tokens issued before -/

section Before

variable {db : Db} {ws : List Write} {userId id : UUID}

/-- The commit that revokes all active tokens leaves none of them. -/
theorem TokenCommit.revokes (h : TokenCommit db ws) (hf : Finds (db .refreshTokens) ws)
    (hr : RevokesAll userId ws) {r : RefreshToken} (hmem : r ∈ db .refreshTokens)
    (hu : r.userId = userId) :
    ∃ r' ∈ ws.foldl (fun db w => w.apply db) db .refreshTokens, r'.id = r.id ∧
      r'.revokedAt ≠ none := by
  obtain ⟨now, τ, ids, hw⟩ := hr
  cases h with
  | issue t τ hnew ht => cases List.mem_singleton.mp hw
  | exchange stored t now τ τ' hs hrev hnew ht hu =>
    rcases List.mem_cons.mp hw with hw | hw
    · cases hw
    · cases List.mem_singleton.mp hw
  | revoke stored now τ hs hrev => cases List.mem_singleton.mp hw
  | revokeAll ws₀ hws userId' now' τ' ids' =>
    obtain ⟨rfl, rfl, rfl, rfl⟩ : userId = userId' ∧ now = now' ∧ τ = τ' ∧ ids = ids' := by
      rcases List.mem_cons.mp hw with he | hw'
      · simpa using he
      · exact absurd rfl (hws _ hw')
    rw [List.foldl_cons, Write.foldl_other hws, Write.apply_revokeAllActive]
    refine ⟨_, List.mem_map_of_mem hmem, ?_⟩
    by_cases hrev : r.revokedAt = none
    · have hactive : r.isActive userId = true := by simp [RefreshToken.isActive, hu, hrev]
      have hfound : r.id ∈ ids := hf _ _ _ _ hw r hmem hactive
      simp [hactive, hfound]
    · split
      · exact ⟨rfl, Option.some_ne_none _⟩
      · exact ⟨rfl, hrev⟩

/-- A commit does not both issue a token and revoke them all. -/
theorem TokenCommit.not_both {userId' : UUID} (h : TokenCommit db ws) (hr : RevokesAll userId' ws) :
    ¬Issues userId id ws := by
  rintro ⟨t, ht, -⟩
  obtain ⟨now, τ, ids, hw⟩ := hr
  cases h with
  | issue => cases List.mem_singleton.mp hw
  | exchange =>
    rcases List.mem_cons.mp hw with hw | hw
    · cases hw
    · cases List.mem_singleton.mp hw
  | revoke => cases List.mem_singleton.mp hw
  | revokeAll ws₀ hws =>
    rcases List.mem_cons.mp ht with he | ht
    · cases he
    · exact hws _ ht rfl

/-- The token a commit issues is there afterwards. -/
theorem TokenCommit.issued (h : TokenCommit db ws) (hi : Issues userId id ws) :
    ∃ r ∈ ws.foldl (fun db w => w.apply db) db .refreshTokens, r.id = id ∧ r.userId = userId := by
  obtain ⟨t, hw, rfl, rfl⟩ := hi
  cases h with
  | issue t' τ =>
    obtain rfl : t = Table.stampInsert τ .refreshTokens t' := by
      simpa [Write.stamp] using hw
    refine ⟨_, ?_, rfl, rfl⟩
    rw [List.foldl_cons, List.foldl_nil, Write.stamp, Write.apply_insert]
    exact List.mem_append_right _ (List.mem_singleton.mpr rfl)
  | exchange stored t' now τ τ' =>
    obtain rfl : t = Table.stampInsert τ .refreshTokens t' := by
      simpa [Write.stamp] using hw
    rw [List.foldl_cons, List.foldl_cons, List.foldl_nil, TokenCommit.apply_update,
      show ((Write.insert .refreshTokens t').stamp τ).apply db .refreshTokens =
        db .refreshTokens ++ [Table.stampInsert τ .refreshTokens t'] from Write.apply_insert ..]
    exact ⟨_, List.mem_map_of_mem (List.mem_append_right _ (List.mem_singleton.mpr rfl)),
      id_updated, userId_updated⟩
  | revoke => cases List.mem_singleton.mp hw
  | revokeAll ws₀ hws =>
    rcases List.mem_cons.mp hw with he | hw
    · cases he
    · exact absurd rfl (hws _ hw)

variable {may : Nat → AuthCall → Prop} {db₀ : Db} {past more wal : List (Nat × List Write)}

/-- A token issued before all were revoked is not exchanged any more. -/
theorem not_exchanged_of_past (h : (tokenRules Finds).Legal may db₀ db wal)
    (h₀ : Rotated (db₀ .refreshTokens)) {i j : Nat} {ws' : List Write}
    (hw : wal = past ++ (j, ws) :: more) (hr : RevokesAll userId ws) (hi : Issues userId id ws')
    (hpast : (i, ws') ∈ past) {x : Nat × List Write} (hx : x ∈ more) : ¬Exchanges id x.2 := by
  have hj : past ++ [(j, ws)] <+: wal := ⟨more, by simp [hw]⟩
  obtain ⟨s, t, rfl⟩ := List.append_of_mem hpast
  have hs : s ++ [(i, ws')] ++ t <+: wal :=
    List.IsPrefix.trans ⟨[(j, ws)], by simp⟩ hj
  obtain ⟨_, -, hc, -⟩ := h.allowed s i ws' ((List.prefix_append _ _).trans hs)
  obtain ⟨r, hmem, rfl, huser⟩ := hc.issued hi
  have hdb : db₀.after (s ++ [(i, ws')]) = _ := Db.after_append ..
  rw [← hdb] at hmem
  obtain ⟨r', hmem', hid, huser', -⟩ := later_after h h₀ hs r hmem
  obtain ⟨_, -, hc', hf⟩ := h.allowed _ j ws hj
  rw [List.append_assoc, List.singleton_append] at hmem'
  obtain ⟨r'', hmem'', hid', hrev⟩ := hc'.revokes hf hr hmem' (huser'.trans huser)
  have hdb' : db₀.after (s ++ (i, ws') :: t ++ [(j, ws)]) = _ := Db.after_append ..
  rw [← hdb'] at hmem''
  have hsplit : wal = s ++ (i, ws') :: t ++ [(j, ws)] ++ more := by simp [hw]
  have hnot := not_exchanged h h₀ hsplit hmem'' hrev hx
  rwa [hid', hid] at hnot

end Before

/-! ## When a call has read -/

/-- The operations of the four calls. -/
def Op.Auth : Op → Prop
  | .select _ | .selectForUpdate .. | .write _ | .commit | .uuid4 | .now => True
  | _ => False

section Steps

variable {i n : Nat} {c : Choice} {o : Op} {W W' : World}

/-- A transaction goes on as long as its statements return, up to its commit. -/
theorem opStep_begun (ho : o.Auth) (hc : o ≠ .commit) {a : o.Res}
    (h : opStep i c o W = some (.ok a, W')) (hb : W.store.BegunBy n i) :
    W'.store.BegunBy n i := by
  cases o with
  | select q =>
    obtain ⟨b, s, hs, ha, rfl⟩ := ofStore_eq h
    obtain rfl := mapError_ok ha.symm
    exact Store.select_begun hs hb
  | selectForUpdate t q =>
    obtain ⟨b, s, hs, ha, rfl⟩ := ofStore_eq h
    obtain rfl := mapError_ok ha.symm
    exact Store.lockRow_begun hs hb
  | write w =>
    obtain ⟨b, s, hs, ha, rfl⟩ := ofStore_eq h
    obtain rfl := mapError_ok ha.symm
    exact Store.write_begun hs hb
  | commit => exact absurd rfl hc
  | uuid4 => cases h; exact hb
  | now => cases h; exact hb
  | _ => exact ho.elim

theorem opStep_dated (ho : o.Auth) {r : Except Exn o.Res} (h : opStep i c o W = some (r, W'))
    (hd : W.store.Dated i) : W'.store.Dated i := by
  cases o with
  | select q =>
    obtain ⟨b, s, hs, -, rfl⟩ := ofStore_eq h
    exact Store.select_dated hs hd
  | selectForUpdate t q =>
    obtain ⟨b, s, hs, -, rfl⟩ := ofStore_eq h
    exact Store.lockRow_dated hs hd
  | write w =>
    obtain ⟨b, s, hs, -, rfl⟩ := ofStore_eq h
    exact Store.write_dated hs hd
  | commit =>
    obtain ⟨b, s, hs, -, rfl⟩ := ofStore_eq h
    exact Store.commit_dated hs hd
  | uuid4 => cases h; exact hd
  | now => cases h; exact hd
  | _ => exact ho.elim

end Steps

/-- What the calls are made of. -/
abbrev Plain {α : Type} (p : Service α) : Prop := p.Straight Op.Auth fun _ => True

theorem Plain.next {α : Type} {o : Op} {k : Except Exn o.Res → Service α}
    (h : Plain (Prog.op o k)) (r : Except Exn o.Res) : Plain (k r) := by
  cases r with
  | ok a => exact h.2.2 a
  | error e => rw [h.2.1 e]; trivial

theorem plain_ite {α : Type} {c : Prop} [Decidable c] {p q : Service α} (hp : Plain p)
    (hq : Plain q) : Plain (if c then p else q) := by
  split
  · exact hp
  · exact hq

namespace AuthService

variable {P : Platform} {X : Security} {C : Settings}

theorem plain_encode (userId : UUID) (tokenType : TokenType) (ttl : Time) :
    Plain (TokenCodec.encode X C userId tokenType ttl) :=
  .bind (.perform trivial) fun _ => .bind (.perform trivial) fun _ => trivial

theorem plain_issuePair (userId : UUID) : Plain (issuePair P X C userId) :=
  .bind (plain_encode ..) fun _ => .bind (plain_encode ..) fun _ => trivial

theorem plain_decodeToken (rawToken : String) (tokenType : TokenType) :
    Plain (decodeToken X C rawToken tokenType) := by
  refine .bind (.perform trivial) fun now => ?_
  rcases TokenCodec.decode X C now rawToken tokenType with _ | claims
  · trivial
  · trivial

theorem plain_update {t : Table} (loaded current : t.Row) :
    Plain (Service.update t loaded current) := by
  unfold Service.update
  split
  · trivial
  · exact .perform trivial

theorem plain_revokeAllActive (userId : UUID) (now : Time) : Plain (revokeAllActive userId now) :=
  .bind (.perform trivial) fun _ => .bind (.perform trivial) fun _ => .perform trivial

theorem plain_rotate (stored : RefreshToken) : Plain (rotate P X C stored) := by
  refine .bind (.perform trivial) fun found => ?_
  rcases found with _ | user
  · trivial
  refine plain_ite trivial (.bind (.perform trivial) fun now =>
    .bind (plain_issuePair _) fun p => ?_)
  obtain ⟨pair, t⟩ := p
  refine .bind (plain_decodeToken _ _) fun replacement => .bind (.perform trivial) fun _ => ?_
  exact .bind (plain_update _ _) fun _ => .bind (.perform trivial) fun _ => trivial

end AuthService

open AuthService in
theorem AuthCall.plain (P : Platform) (X : Security) (C : Settings) (c : AuthCall) :
    Plain (c.prog P X C) := by
  cases c with
  | login email password =>
    refine .bind (.perform trivial) fun found => ?_
    rcases found with _ | user
    · trivial
    refine plain_ite trivial (.bind (plain_issuePair _) fun p => ?_)
    obtain ⟨pair, t⟩ := p
    exact .bind (.perform trivial) fun _ => .bind (.perform trivial) fun _ => trivial
  | refresh rawToken =>
    refine .bind (plain_decodeToken _ _) fun claims => .bind (.perform trivial) fun found => ?_
    rcases found with _ | stored
    · trivial
    refine plain_ite trivial (.bind (.perform trivial) fun now => plain_ite trivial
      (plain_ite (plain_ite ?_ trivial) (plain_rotate stored)))
    exact .bind (.perform trivial) fun _ => .bind (plain_revokeAllActive _ _) fun _ =>
      .bind (.perform trivial) fun _ => trivial
  | logout rawToken =>
    refine .bind (plain_decodeToken _ _) fun claims => .bind (.perform trivial) fun found => ?_
    rcases found with _ | stored
    · trivial
    refine plain_ite trivial (plain_ite (.bind (.perform trivial) fun now => ?_) trivial)
    exact .bind (plain_update _ _) fun _ => .perform trivial
  | changePassword user currentPassword newPassword =>
    refine plain_ite trivial (plain_ite trivial (.bind (.perform trivial) fun salt =>
      .bind (.perform trivial) fun now => ?_))
    exact .bind (plain_revokeAllActive _ _) fun _ => .bind (plain_update _ _) fun _ =>
      .perform trivial

/-! ## Following a call that has read -/

section Followed

variable {P : Platform} {X : Security} {C : Settings} (db₀ : Db)

/-- The outline of the pool whose commits do not race. -/
abbrev revocation : Lib.Outline World :=
  (CommitRules.rowRules (tokenRules Finds) (fun _ _ => True) db₀).outline.outline

/-- A call is made of `Plain` operations, and its transaction began at a point of the run so far. -/
theorem known_dated (j : Nat) :
    (revocation db₀).Known (authSystem P X C unraced) j (fun _ => True) True
      fun _ p W => Plain p ∧ W.store.Dated j where
  state _ := trivial
  moved h hm := by
    obtain ⟨more, hw, -⟩ := hm.2.1.wal
    refine ⟨h.1, ?_⟩
    rw [Store.Dated, hm.2.1.session, hw, List.length_append]
    exact Nat.le_add_right_of_le h.2
  kept _ _ := trivial
  start _ _ _ := ⟨AuthCall.plain P X C _, Store.Dated.reset rfl⟩
  exec {c o k W r W'} _ _ h hst := by
    obtain ⟨ch, -, hst⟩ := hst
    exact ⟨Plain.next h.1 r, opStep_dated h.1.1 hst h.2⟩
  finish _ := trivial
  crash _ := trivial

/-- No token that thread `j` issues in a commit after the `n`-th is one of a user whose tokens were
revoked in between. -/
def Untainted (n j : Nat) (wal : List (Nat × List Write)) : Prop :=
  ∀ past ws, past ++ [(j, ws)] <+: wal → n ≤ past.length → ∀ userId id, Issues userId id ws →
    ∀ x ∈ past.drop n, ¬RevokesAll userId x.2

theorem untainted_append {n j : Nat} {wal more : List (Nat × List Write)} (h : Untainted n j wal)
    (hmore : ∀ c ∈ more, c.1 ≠ j) : Untainted n j (wal ++ more) := by
  intro past ws hp
  induction more using List.reverseRecOn with
  | nil =>
    rw [List.append_nil] at hp
    exact h past ws hp
  | append_singleton more c ih =>
    rw [← List.append_assoc] at hp
    rcases List.prefix_concat_iff.mp hp with he | hp
    · have hc := (List.append_inj' he rfl).2
      exact absurd (congrArg Prod.fst (List.singleton_inj.mp hc)).symm
        (hmore c (List.mem_append_right _ (List.mem_singleton.mpr rfl)))
    · exact ih (fun c hc => hmore c (List.mem_append_left _ hc)) hp

/-- A call whose transaction has begun when at most `n` commits had been made. -/
theorem known_read (n j : Nat) :
    (revocation db₀).Known (authSystem P X C unraced) j (fun W => Untainted n j W.store.wal) False
      fun _ p W => Untainted n j W.store.wal ∧ (Plain p ∧ W.store.BegunBy n j ∨
        (∃ e, p = .raise e) ∨ ∃ x ∈ W.store.wal, x.1 = j) where
  state h := h.1
  moved {c p W W'} h hm := by
    obtain ⟨more, hw, hmore⟩ := hm.2.1.wal
    rw [hw]
    refine ⟨untainted_append h.1 hmore, h.2.imp (fun hb => ⟨hb.1, ?_⟩) (Or.imp_right ?_)⟩
    · rw [Store.BegunBy, hm.2.1.session]
      exact hb.2
    · rintro ⟨x, hx, hxj⟩
      exact ⟨x, List.mem_append_left _ hx, hxj⟩
  kept {W W'} h hm := by
    obtain ⟨more, hw, hmore⟩ := hm.2.1.wal
    rw [hw]
    exact untainted_append h hmore
  start h := h.elim
  exec {c o k W r W'} hi hi' h hst := by
    obtain ⟨ch, hadm, hst⟩ := hst
    obtain ⟨hK, hcase⟩ := h
    rcases opStep_commits hst with ⟨-, hw⟩ | ⟨rfl, hc⟩
    · rw [hw]
      refine ⟨hK, ?_⟩
      rcases hcase with ⟨hp, hb⟩ | ⟨e, he⟩ | hdone
      · rcases r with e | a
        · exact .inr (.inl ⟨e, hp.2.1 e⟩)
        · refine .inl ⟨Plain.next hp _, opStep_begun hp.1 ?_ hst hb⟩
          rintro rfl
          rcases (commit_step hst).1 with ⟨hc, -⟩ | ⟨-, -, e, he⟩
          · rw [hc.wal] at hw
            simp at hw
          · cases he
      · cases he
      · exact .inr (.inr hdone)
    · -- the one commit of the thread
      rw [hc.wal]
      refine ⟨fun past ws hp hn => ?_, .inr (.inr ⟨_, List.mem_append_right _
        (List.mem_singleton.mpr rfl), rfl⟩)⟩
      rcases List.prefix_concat_iff.mp hp with he | hp
      · obtain ⟨rfl, hlast⟩ := List.append_inj' he rfl
        obtain rfl : ws = _ := congrArg Prod.snd (List.singleton_inj.mp hlast)
        rcases hcase with ⟨-, hb⟩ | ⟨e, he⟩ | ⟨x, hx, hxj⟩
        · intro userId id hissues x hx
          refine (hadm rfl).read userId id hissues x ?_
          rw [← Nat.add_sub_cancel' hb.2, ← List.drop_drop] at hx
          exact List.mem_of_mem_drop hx
        · cases he
        · have honce : (W'.store.wal.map (·.1)).Nodup := hi'.2.once
          rw [hc.wal, List.map_append, List.map_singleton, List.nodup_append] at honce
          exact absurd hxj (honce.2.2 _ (List.mem_map_of_mem hx) _ (List.mem_singleton.mpr rfl))
      · exact hK past ws hp hn
  finish h := h
  crash h := h

end Followed

/-! ## The theorems -/

section Theorems

variable {P : Platform} {X : Security} {C : Settings}

/-- What a call that has read commits later. -/
theorem untainted_of_read {db₀ : Db} {W₀ : World}
    {Q F : Nat → (c : AuthCall) → Except Exn c.Ret → World → Prop}
    (hok : (revocation db₀).Ok (authSystem P X C unraced) Q F) (hinv : (revocation db₀).inv W₀)
    {earlier pool : (authSystem P X C unraced).Pool} (h : System.Reachable W₀ earlier)
    (h' : System.Steps earlier pool) {i : Nat} (hread : HasRead earlier i) :
    Untainted earlier.shared.store.wal.length i pool.shared.store.wal := by
  have hpool := hok.sound hinv h
  obtain ⟨c, p, hi⟩ := hread.running
  have hdated : Plain p ∧ earlier.shared.store.Dated i := by
    have hf := Follows.steps hok (known_dated db₀ i) ⟨hinv, fun _ => trivial⟩
      (P := .init W₀) (by exact trivial) h
    rwa [Follows, hi] at hf
  have hstart : Follows (fun W => Untainted earlier.shared.store.wal.length i W.store.wal) False
      (fun c p W => Untainted earlier.shared.store.wal.length i W.store.wal ∧
        (Plain p ∧ W.store.BegunBy earlier.shared.store.wal.length i ∨ (∃ e, p = .raise e) ∨
          ∃ x ∈ W.store.wal, x.1 = i)) earlier i := by
    rw [Follows, hi]
    refine ⟨fun past ws hp hn => ?_, .inl ⟨hdated.1, hread.begun, hdated.2⟩⟩
    have := hp.length_le
    rw [List.length_append, List.length_singleton] at this
    omega
  have hlast := Follows.steps hok (known_read db₀ _ i) hpool hstart h'
  exact hlast.state (known_read db₀ _ i) not_false

/-- **Revocation is complete where commits do not race.** -/
theorem revocation_complete_of_unraced
    (hX : ∀ key payload, X.payload key (X.encode key payload) = some payload) {W₀ : World}
    (hq : W₀.Quiet) (h₀ : W₀.store.db .refreshTokens = [])
    {earlier pool : (authSystem P X C unraced).Pool} (h : System.Reachable W₀ earlier)
    (h' : System.Steps earlier pool) : RevocationComplete earlier pool := by
  intro past j ws more userId hw hr i ws' id hmem hissues hbefore x hx
  have hcall : ∀ i c, (fun _ _ => True : Nat → AuthCall → Prop) i c →
      AuthService.Rule P X C Finds (fun _ _ => True) W₀.store.db i unraced c (c.Answered X C) :=
    fun _ _ hmay => AuthCall.walks hX ensures_unraced hmay
  have hok := CommitRules.ok (C := authCalls P X C) (R := tokenRules Finds)
    (χ := AuthCall.Answered X C) hcall
  have hinv : (revocation W₀.store.db).inv W₀ := CommitRules.inv_start (C := authCalls P X C) hq
  have hstart : Rotated (W₀.store.db .refreshTokens) := h₀ ▸ .nil
  have hlegal := (hok.sound hinv (h.trans h')).inv.2
  rcases hbefore with hpast | ⟨hn, hread⟩
  · exact not_exchanged_of_past hlegal hstart hw hr hissues hpast hx
  · -- a call that had read has committed nothing the revocation comes before
    have huntainted := untainted_of_read hok hinv h h' hread
    have hj : past ++ [(j, ws)] <+: pool.shared.store.wal := ⟨more, by simp [hw]⟩
    rw [hw, List.mem_append, List.mem_cons] at hmem
    rcases hmem with hmem | he | hmem
    · exact not_exchanged_of_past hlegal hstart hw hr hissues hmem hx
    · obtain ⟨rfl, rfl⟩ := Prod.mk.inj he
      obtain ⟨_, -, hc, -⟩ := hlegal.allowed past i ws' hj
      exact absurd hissues (hc.not_both hr)
    · obtain ⟨s, t, rfl⟩ := List.append_of_mem hmem
      refine absurd hr (huntainted (past ++ (j, ws) :: s) ws' ⟨t, by simp [hw]⟩ ?_ userId id hissues
        (j, ws) ?_)
      · rw [List.length_append]
        exact Nat.le_add_right_of_le hn
      · rw [List.drop_append_of_le_length hn]
        exact List.mem_append_right _ List.mem_cons_self

end Theorems

/-! ## Runs -/

section Decidable

/-- The user a write revokes the tokens of, and the tokens it has found. -/
def Write.revoked? : Write → Option (UUID × List UUID)
  | .revokeAllActive userId _ _ ids => some (userId, ids)
  | _ => none

/-- The token a write issues. -/
def Write.issued? : Write → Option RefreshToken
  | .insert .refreshTokens t => some t
  | _ => none

/-- The token a write exchanges. -/
def Write.exchanged? : Write → Option UUID
  | .update .refreshTokens stored current =>
    if current.replacedById = none then none else some stored.id
  | _ => none

theorem Write.revoked?_eq_some {w : Write} {userId : UUID} {ids : List UUID} :
    w.revoked? = some (userId, ids) ↔ ∃ now τ, w = .revokeAllActive userId now τ ids := by
  cases w <;> simp [Write.revoked?]

theorem Write.issued?_eq_some {w : Write} {t : RefreshToken} :
    w.issued? = some t ↔ w = .insert .refreshTokens t := by
  rcases w with ⟨_ | _, row⟩ | _ | _ | _ <;> simp [Write.issued?]

theorem Write.exchanged?_eq_some {w : Write} {id : UUID} :
    w.exchanged? = some id ↔ ∃ stored current : RefreshToken,
      w = .update .refreshTokens stored current ∧ stored.id = id ∧
        current.replacedById ≠ none := by
  rcases w with _ | ⟨_ | _, loaded, row⟩ | _ | _ <;> simp [Write.exchanged?, and_comm]

variable {ws : List Write} {userId id : UUID} {rows : List RefreshToken} {i : Nat} {W : World}

theorem revokesAll_iff :
    RevokesAll userId ws ↔ ∃ x ∈ ws.filterMap Write.revoked?, x.1 = userId := by
  simp only [RevokesAll, List.mem_filterMap, Prod.exists, Write.revoked?_eq_some]
  constructor
  · rintro ⟨now, τ, ids, hw⟩
    exact ⟨userId, ids, ⟨_, hw, now, τ, rfl⟩, rfl⟩
  · rintro ⟨_, ids, ⟨_, hw, now, τ, rfl⟩, rfl⟩
    exact ⟨now, τ, ids, hw⟩

theorem issues_iff : Issues userId id ws ↔
    ∃ t ∈ ws.filterMap Write.issued?, t.userId = userId ∧ t.id = id := by
  simp [Issues, List.mem_filterMap, Write.issued?_eq_some]

theorem exchanges_iff : Exchanges id ws ↔ id ∈ ws.filterMap Write.exchanged? := by
  simp only [Exchanges, List.mem_filterMap, Write.exchanged?_eq_some]
  constructor
  · rintro ⟨stored, current, hw, h⟩
    exact ⟨_, hw, stored, current, rfl, h⟩
  · rintro ⟨_, hw, stored, current, rfl, h⟩
    exact ⟨stored, current, hw, h⟩

theorem finds_iff : Finds rows ws ↔
    ∀ x ∈ ws.filterMap Write.revoked?, ∀ t ∈ rows, t.isActive x.1 = true → t.id ∈ x.2 := by
  simp only [Finds, List.mem_filterMap, Prod.forall, Write.revoked?_eq_some]
  constructor
  · rintro h userId ids ⟨_, hw, now, τ, rfl⟩
    exact h userId now τ ids hw
  · exact fun h userId now τ ids hw => h userId ids ⟨_, hw, now, τ, rfl⟩

instance RevokesAll.decidable : Decidable (RevokesAll userId ws) :=
  decidable_of_iff' _ revokesAll_iff

instance Issues.decidable : Decidable (Issues userId id ws) :=
  decidable_of_iff' _ issues_iff

instance Exchanges.decidable : Decidable (Exchanges id ws) :=
  decidable_of_iff' _ exchanges_iff

instance Finds.decidable : Decidable (Finds rows ws) :=
  decidable_of_iff' _ finds_iff

theorem unraced_iff : Unraced i W ↔
    Finds (W.store.db .refreshTokens) (W.store.sessions i).writes ∧
      ∀ t ∈ (W.store.sessions i).writes.filterMap Write.issued?,
        ∀ x ∈ W.store.wal.drop (W.store.sessions i).since, ¬RevokesAll t.userId x.2 := by
  simp only [List.mem_filterMap, Write.issued?_eq_some]
  constructor
  · rintro ⟨hf, hr⟩
    refine ⟨hf, ?_⟩
    rintro t ⟨_, hw, rfl⟩
    exact hr _ _ ⟨t, hw, rfl, rfl⟩
  · rintro ⟨hf, hr⟩
    refine ⟨hf, ?_⟩
    rintro _ _ ⟨t, hw, rfl, rfl⟩
    exact hr t ⟨_, hw, rfl⟩

instance Unraced.decidable : Decidable (Unraced i W) :=
  decidable_of_iff' _ unraced_iff

end Decidable

namespace Revocation

/-- The refresh token of the first login. -/
def raw : String :=
  Security.clear.encode "k" ⟨(1 : UUID).str, (2 : UUID).str, "refresh", 0, 604800⟩

def login : List (System.Move AuthCall Choice Empty) :=
  [.start 0 (.login "a@b.c" "password"), .ops 0 [{}]]

def loggedIn : List (System.Move AuthCall Choice Empty) :=
  [.ops 0 [{}, { uuid := 1 }, {}, { uuid := 2 }, {}, {}], .finish 0]

def passwordChange : List (System.Move AuthCall Choice Empty) :=
  [.start 1 (.changePassword ⟨1, "a@b.c", "password", true, 0, 0⟩ "password" "new"),
    .ops 1 (List.replicate 7 {}), .finish 1]

/-- What the commits do: revoke the tokens of user 1, issue the token 2 to it, exchange that. -/
def deeds {S : System Op.Res Exn World} (pool : S.Pool) : List (Nat × List Bool) :=
  pool.shared.store.wal.map fun x =>
    (x.1, [decide (RevokesAll 1 x.2), decide (Issues 1 2 x.2), decide (Exchanges 2 x.2)])

/-- Runs in which commits do not race. -/
def unracedPlayer :
    (authSystem .verbatim .clear { authSecretKey := "k" } unraced).Player Choice Empty :=
  (authCalls .verbatim .clear { authSecretKey := "k" }).playerOf (Untouched [.refreshTokens])
    (fun _ _ => true) (fun _ _ _ => trivial)
    (fun i W o _ => match o with
      | .commit => decide (Unraced i W)
      | _ => true) fun i W o c h ho => by
        subst ho
        exact of_decide_eq_true h

end Revocation

open Revocation

/-- A login in the way of `Unraced`: the token is refused after the password has been changed. -/
theorem revocation_complete_after_login :
    ∃ earlier pool : (authSystem .verbatim .clear { authSecretKey := "k" } unraced).Pool,
      System.Reachable (World.fresh Db.oneUser) earlier ∧ System.Steps earlier pool ∧
      deeds pool = [(0, [false, true, false]), (1, [true, false, false])] ∧
      (pool.threads 2).error? = some .invalidToken ∧ RevocationComplete earlier pool := by
  obtain ⟨earlier, pool, h, h', -, hobs⟩ := unracedPlayer.replay_map₂ (login ++ loggedIn)
    (passwordChange ++ [.start 2 (.refresh raw), .ops 2 (List.replicate 3 {}), .finish 2])
    (.init (World.fresh Db.oneUser)) (fun _ => ())
    (fun pool => (deeds pool, (pool.threads 2).error?)) (b := ())
    (d := ([(0, [false, true, false]), (1, [true, false, false])], some .invalidToken))
    (by decide +kernel)
  obtain ⟨hdeeds, herror⟩ := Prod.mk.inj hobs
  exact ⟨earlier, pool, h, h', hdeeds, herror,
    revocation_complete_of_unraced Security.payload_clear (World.quiet_fresh _) rfl h h'⟩

/-- **A login that has read the old password is not revoked.** The password is changed between its
`SELECT` and its commit; the token it issues is exchanged afterwards. -/
theorem revocation_misses_concurrent_login :
    ∃ earlier pool : (authSystem .verbatim .clear { authSecretKey := "k" }
        fun _ _ _ _ => True).Pool,
      System.Reachable (World.fresh Db.oneUser) earlier ∧ System.Steps earlier pool ∧
      ¬RevocationComplete earlier pool := by
  obtain ⟨earlier, pool, h, h', hread, hdeeds⟩ := ((authCalls .verbatim .clear
    { authSecretKey := "k" }).player (Untouched [.refreshTokens]) (fun _ _ => true)
    fun _ _ _ => trivial).replay_map₂ login
    (passwordChange ++ loggedIn ++ [.start 2 (.refresh raw),
      .ops 2 [{}, {}, {}, {}, {}, {}, { uuid := 3 }, {}, { uuid := 4 }, {}, {}, {}, {}]])
    (.init (World.fresh Db.oneUser))
    (fun pool => ((pool.threads 0).isRunning, (pool.shared.store.sessions 0).begun.isSome,
      pool.shared.store.wal.length))
    deeds (b := (true, true, 0))
    (d := [(1, [true, false, false]), (0, [false, true, false]), (2, [false, false, true])])
    (by decide +kernel)
  obtain ⟨hrunning, hobs⟩ := Prod.mk.inj hread
  obtain ⟨hbegun, hlength⟩ := Prod.mk.inj hobs
  obtain ⟨x₁, wal, hwal, h₁, hrest⟩ := List.map_eq_cons_iff.mp hdeeds
  obtain ⟨x₀, wal, rfl, h₀, hrest⟩ := List.map_eq_cons_iff.mp hrest
  obtain ⟨x₂, wal, rfl, h₂, hrest⟩ := List.map_eq_cons_iff.mp hrest
  obtain rfl := List.map_eq_nil_iff.mp hrest
  simp only [Prod.mk.injEq, List.cons.injEq, decide_eq_true_eq] at h₁ h₀ h₂
  have hreads : HasRead earlier x₀.1 := by
    rw [h₀.1]
    exact ⟨System.Thread.isRunning_eq_true.mp hrunning, hbegun⟩
  refine ⟨earlier, pool, h, h', fun hall => ?_⟩
  exact hall [] x₁.1 x₁.2 [x₀, x₂] 1 hwal h₁.2.1 x₀.1 x₀.2 2 (hwal ▸ .tail _ (.head _)) h₀.2.2.1
    (.inr ⟨hlength.le, hreads⟩) x₂ (.tail _ (.head _)) h₂.2.2.2.1

end Ticketing
