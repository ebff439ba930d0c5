import Ticketing.Concurrency.Commits
import Ticketing.Lib.Succession
import Ticketing.Services.Auth

/-!
# Refresh tokens are exchanged once

The pool of `login`, `refresh`, `logout` and `change_password` calls (`AuthCall`), by any users
with any tokens, under any faults and crashes.

* `TokenCommit` is what a commit of one of them may write to `refresh_tokens`: a new token, an
  exchange, a revocation, or none of it. `tokenRules` makes it a family of `Commits.lean`.
* `Rotated`: each token names at most one later token as the one it was exchanged for, no two name
  the same, and one that names any is revoked. That is `Lib/Succession.lean` at refresh tokens.
* `Later`: no commit takes back what a token has been through.

A session that exchanges a token holds its row locked from the look at `revoked_at` to the commit,
so the commit finds it as it was read. `change_password` sends `revoke_all_active` first; its own
update of the user is flushed by the commit.

Results:
* `keeps`: a commit of the four calls keeps `Rotated` and leaves `Later` tokens.
* `AuthCall.walks`: the four programs commit what `TokenCommit` says.
* `rotation_is_linear`: every clause of `LinearRotation` in every reachable state.

Assumed: a signed token is read back as it was signed (`Security.payload` of `Security.encode`),
and the table is empty at the start.
-/

namespace Ticketing

open Lib (Prog Store System Outline)
open Lib.Outline (Triple Assertion post)
open Lib.Succession (Linear Follows)

/-! ## What the commits make of the tokens -/

/-- `y` is the token `x` was exchanged for. -/
abbrev Exchanged : List RefreshToken → RefreshToken → RefreshToken → Prop :=
  Follows RefreshToken.id RefreshToken.replacedById

/-- What is true of the committed tokens. -/
structure Rotated (rows : List RefreshToken) : Prop where
  linear : Linear RefreshToken.id RefreshToken.replacedById rows
  revoked : ∀ r ∈ rows, r.replacedById ≠ none → r.revokedAt ≠ none
  user : ∀ {x y}, Exchanged rows x y → y.userId = x.userId

/-- The tokens `rows` are still there: a revoked one is still revoked, and was not exchanged
again. -/
def Later (rows rows' : List RefreshToken) : Prop :=
  ∀ r ∈ rows, ∃ r' ∈ rows', r'.id = r.id ∧ r'.userId = r.userId ∧
    (r.revokedAt ≠ none → r'.revokedAt ≠ none ∧ r'.replacedById = r.replacedById)

theorem Later.refl (rows : List RefreshToken) : Later rows rows :=
  fun r hr => ⟨r, hr, rfl, rfl, fun h => ⟨h, rfl⟩⟩

theorem Later.trans {rows rows' rows'' : List RefreshToken} (h : Later rows rows')
    (h' : Later rows' rows'') : Later rows rows'' := fun r hr => by
  obtain ⟨r', hr', hid, huser, hkept⟩ := h r hr
  obtain ⟨r'', hr'', hid', huser', hkept'⟩ := h' r' hr'
  refine ⟨r'', hr'', hid'.trans hid, huser'.trans huser, fun hrev => ?_⟩
  obtain ⟨hrev', hnext⟩ := hkept hrev
  obtain ⟨hrev'', hnext'⟩ := hkept' hrev'
  exact ⟨hrev'', hnext'.trans hnext⟩

theorem Later.append (rows more : List RefreshToken) : Later rows (rows ++ more) :=
  fun r hr => ⟨r, List.mem_append_left _ hr, rfl, rfl, fun h => ⟨h, rfl⟩⟩

theorem Later.map {rows : List RefreshToken} {f : RefreshToken → RefreshToken}
    (hid : ∀ r, (f r).id = r.id) (huser : ∀ r, (f r).userId = r.userId)
    (hrev : ∀ r ∈ rows, r.revokedAt ≠ none →
      (f r).revokedAt ≠ none ∧ (f r).replacedById = r.replacedById) : Later rows (rows.map f) :=
  fun r hr => ⟨f r, List.mem_map_of_mem hr, hid r, huser r, hrev r hr⟩

namespace Rotated

variable {rows : List RefreshToken} {r t stored : RefreshToken}

theorem nil : Rotated [] := ⟨.nil, fun _ h => by simp at h,
    fun h => by simp [Exchanged, Follows] at h⟩

/-- A token is issued. -/
theorem issue (h : Rotated rows) (hnew : ∀ r ∈ rows, r.id ≠ t.id) (ht : t.replacedById = none) :
    Rotated (rows ++ [t]) where
  linear := h.linear.concat hnew ht
  revoked r hr hnext := by
    rcases List.mem_append.mp hr with hr | hr
    · exact h.revoked r hr hnext
    · rw [List.mem_singleton.mp hr] at hnext
      exact absurd ht hnext
  user {x y} hxy := by
    obtain ⟨hx, hy, hnext⟩ := hxy
    rcases List.mem_append.mp hx with hx | hx
    · obtain ⟨z, hz, hid⟩ := h.linear.named hx hnext
      rcases List.mem_append.mp hy with hy | hy
      · exact h.user ⟨hx, hy, hnext⟩
      · rw [List.mem_singleton.mp hy] at hid
        exact absurd hid (hnew z hz)
    · rw [List.mem_singleton.mp hx, ht] at hnext
      cases hnext

/-- Tokens are revoked. -/
theorem revoke (h : Rotated rows) {f : RefreshToken → RefreshToken} (hid : ∀ r, (f r).id = r.id)
    (huser : ∀ r, (f r).userId = r.userId) (hnext : ∀ r, (f r).replacedById = r.replacedById)
    (hrev : ∀ r, r.revokedAt ≠ none → (f r).revokedAt ≠ none) : Rotated (rows.map f) where
  linear := h.linear.map hid hnext
  revoked r hr hr' := by
    obtain ⟨u, hu, rfl⟩ := List.mem_map.mp hr
    rw [hnext] at hr'
    exact hrev u (h.revoked u hu hr')
  user {x y} hxy := by
    obtain ⟨hx, hy, hnext'⟩ := hxy
    obtain ⟨u, hu, rfl⟩ := List.mem_map.mp hx
    obtain ⟨v, hv, rfl⟩ := List.mem_map.mp hy
    rw [hnext, hid] at hnext'
    rw [huser, huser]
    exact h.user ⟨hu, hv, hnext'⟩

/-- A token is exchanged for one just issued. -/
theorem exchange (h : Rotated rows) {f : RefreshToken → RefreshToken} (hs : stored ∈ rows)
    (hnew : ∀ r ∈ rows, r.id ≠ t.id) (ht : t.replacedById = none) (hu : t.userId = stored.userId)
    (hid : ∀ r, (f r).id = r.id) (huser : ∀ r, (f r).userId = r.userId)
    (hnext : (f stored).replacedById = some t.id) (hrev : (f stored).revokedAt ≠ none)
    (hother : ∀ r, r.id ≠ stored.id → f r = r) : Rotated ((rows ++ [t]).map f) := by
  have hissued := h.issue hnew ht
  have hs' : stored ∈ rows ++ [t] := List.mem_append_left _ hs
  have hne {r : RefreshToken} (hr : r ∈ rows ++ [t]) (hrs : r ≠ stored) : f r = r :=
    hother r fun he => hrs (hissued.linear.eq_of_id hr hs' he)
  have hfree : ∀ r ∈ rows ++ [t], r.replacedById ≠ some t.id := by
    intro r hr hrt
    rcases List.mem_append.mp hr with hr | hr
    · obtain ⟨z, hz, hzt⟩ := h.linear.named hr hrt
      exact hnew z hz hzt
    · rw [List.mem_singleton.mp hr, ht] at hrt
      cases hrt
  obtain ⟨i, hi⟩ := List.getElem?_of_mem hs
  have hlt : i < rows.length := (List.getElem?_eq_some_iff.mp hi).1
  refine ⟨hissued.linear.link (i := i) (j := rows.length) (x := stored) (y := t)
    (by rw [List.getElem?_append_left hlt, hi]) (by simp) hlt hfree hid hnext
    fun r hr hrs => by rw [hne hr hrs], fun r hr hr' => ?_, fun {x y} hxy => ?_⟩
  · obtain ⟨u, hu, rfl⟩ := List.mem_map.mp hr
    by_cases hus : u = stored
    · rwa [hus]
    · rw [hne hu hus] at hr' ⊢
      exact hissued.revoked u hu hr'
  · obtain ⟨hx, hy, hxy⟩ := hxy
    obtain ⟨u, hu', rfl⟩ := List.mem_map.mp hx
    obtain ⟨v, hv, rfl⟩ := List.mem_map.mp hy
    rw [hid] at hxy
    rw [huser, huser]
    by_cases hus : u = stored
    · rw [hus, hnext] at hxy
      rw [hissued.linear.eq_of_id hv (List.mem_append_right _ (List.mem_singleton.mpr rfl))
        (Option.some.inj hxy).symm, hus, hu]
    · rw [hne hu' hus] at hxy
      exact hissued.user ⟨hu', hv, hxy⟩

end Rotated

/-! ## What a commit may write -/

/-- The writes of a commit on the committed rows `db`, as far as they are to `refresh_tokens`. -/
inductive TokenCommit (db : Db) : List Write → Prop
  /-- `login`. -/
  | issue (t : RefreshToken) (τ : Time) (hnew : ∀ r ∈ db .refreshTokens, r.id ≠ t.id)
      (ht : t.replacedById = none) : TokenCommit db [(Write.insert .refreshTokens t).stamp τ]
  /-- `refresh` of a token that is neither revoked nor expired. -/
  | exchange (stored t : RefreshToken) (now τ τ' : Time) (hs : stored ∈ db .refreshTokens)
      (hrev : stored.revokedAt = none) (hnew : ∀ r ∈ db .refreshTokens, r.id ≠ t.id)
      (ht : t.replacedById = none) (hu : t.userId = stored.userId) :
      TokenCommit db [(Write.insert .refreshTokens t).stamp τ, (Write.update .refreshTokens stored
        { stored with revokedAt := some now, replacedById := some t.id }).stamp τ']
  /-- `logout`. -/
  | revoke (stored : RefreshToken) (now τ : Time) (hs : stored ∈ db .refreshTokens)
      (hrev : stored.revokedAt = none) : TokenCommit db [(Write.update .refreshTokens stored
        { stored with revokedAt := some now }).stamp τ]
  /-- `refresh` of a token already exchanged, and `change_password`. -/
  | revokeAll (ws : List Write) (hws : ∀ w ∈ ws, .refreshTokens ≠ w.table) (userId : UUID)
      (now τ : Time) (ids : List UUID) :
      TokenCommit db (.revokeAllActive userId now τ ids :: ws)

/-- The commit exchanges the token `id` for another. -/
def Exchanges (id : UUID) (ws : List Write) : Prop :=
  ∃ stored current : RefreshToken, Write.update .refreshTokens stored current ∈ ws ∧
    stored.id = id ∧ current.replacedById ≠ none

namespace TokenCommit

variable {db : Db} {ws : List Write}

/-- What an `UPDATE` of a token makes of a row. -/
def updated (stored current : RefreshToken) (τ : Time) (r : RefreshToken) : RefreshToken :=
  if r.id = stored.id then
    Table.patch .refreshTokens stored (Table.stampUpdate τ .refreshTokens current) r
  else r

section Updated

variable {stored current r : RefreshToken} {τ : Time}

theorem id_updated : (updated stored current τ r).id = r.id := by
  unfold updated
  split <;> rfl

theorem userId_updated : (updated stored current τ r).userId = r.userId := by
  unfold updated
  split <;> rfl

theorem updated_other (h : r.id ≠ stored.id) : updated stored current τ r = r := if_neg h

theorem updated_self : (updated stored current τ stored).revokedAt = current.revokedAt ∧
    (updated stored current τ stored).replacedById = current.replacedById := by
  unfold updated
  rw [if_pos rfl]
  exact ⟨Table.changed_self .., Table.changed_self ..⟩

theorem apply_update (stored current : RefreshToken) (τ : Time) (db : Db) :
    ((Write.update .refreshTokens stored current).stamp τ).apply db .refreshTokens =
      (db .refreshTokens).map (updated stored current τ) := by
  refine (Write.apply_update .refreshTokens stored _ db).trans (List.map_congr_left fun r _ => ?_)
  have hsame : Table.isSameRow .refreshTokens stored r = decide (r.id = stored.id) := rfl
  simp only [updated, hsame, decide_eq_true_eq]

/-- An unrevoked token is changed. -/
theorem later_updated {rows : List RefreshToken} (h : Rotated rows) (hs : stored ∈ rows)
    (hrev : stored.revokedAt = none) : Later rows (rows.map (updated stored current τ)) :=
  .map (fun _ => id_updated) (fun _ => userId_updated) fun r hr hrr => by
    rw [updated_other fun he => hrr (by rw [h.linear.eq_of_id hr hs he, hrev])]
    exact ⟨hrr, rfl⟩

end Updated

/-- **A commit keeps the tokens `Rotated`, and what they have been through.** -/
theorem keeps (h : TokenCommit db ws) (hr : Rotated (db .refreshTokens)) :
    Rotated (ws.foldl (fun db w => w.apply db) db .refreshTokens) ∧
      Later (db .refreshTokens) (ws.foldl (fun db w => w.apply db) db .refreshTokens) := by
  cases h with
  | issue t τ hnew ht =>
    rw [List.foldl_cons, List.foldl_nil, show ((Write.insert .refreshTokens t).stamp τ).apply db
      .refreshTokens = db .refreshTokens ++ [Table.stampInsert τ .refreshTokens t] from
        Write.apply_insert ..]
    exact ⟨hr.issue hnew ht, .append _ _⟩
  | exchange stored t now τ τ' hs hrev hnew ht hu =>
    rw [List.foldl_cons, List.foldl_cons, List.foldl_nil, apply_update,
      show ((Write.insert .refreshTokens t).stamp τ).apply db .refreshTokens =
        db .refreshTokens ++ [Table.stampInsert τ .refreshTokens t] from Write.apply_insert ..]
    refine ⟨hr.exchange (t := Table.stampInsert τ .refreshTokens t) hs hnew ht hu
      (fun _ => id_updated) (fun _ => userId_updated) updated_self.2 ?_
      fun _ => updated_other, (Later.append _ _).trans (later_updated (hr.issue hnew ht)
        (List.mem_append_left _ hs) hrev)⟩
    rw [updated_self.1]
    simp
  | revoke stored now τ hs hrev =>
    rw [List.foldl_cons, List.foldl_nil, apply_update]
    have hnone : stored.replacedById = none := by
      by_contra hne
      exact hr.revoked stored hs hne hrev
    refine ⟨hr.revoke (fun _ => id_updated) (fun _ => userId_updated) (fun r => ?_) fun r hrr => ?_,
      later_updated hr hs hrev⟩
    · unfold updated
      split
      · exact if_pos rfl
      · rfl
    · unfold updated
      split
      · show Table.changed stored.revokedAt (some now) r.revokedAt ≠ none
        rw [hrev]
        simp [Table.changed]
      · exact hrr
  | revokeAll ws hws userId now τ ids =>
    rw [List.foldl_cons, Write.foldl_other hws, Write.apply_revokeAllActive]
    -- a revoked token is not active
    have hinactive (r : RefreshToken) (h : r.revokedAt ≠ none) : r.isActive userId = false := by
      rw [RefreshToken.isActive, Option.isNone_eq_false_iff.mpr (Option.isSome_iff_ne_none.mpr h),
        Bool.and_false]
    refine ⟨hr.revoke (fun r => ?_) (fun r => ?_) (fun r => ?_) fun r hrr => ?_,
      .map (fun r => ?_) (fun r => ?_) fun r _ hrr => ?_⟩
    · split <;> rfl
    · split <;> rfl
    · split <;> rfl
    · rwa [hinactive r hrr]
    · split <;> rfl
    · split <;> rfl
    · rw [hinactive r hrr]
      exact ⟨hrr, rfl⟩

/-- A token a commit exchanges was not revoked before it, and is afterwards. -/
theorem of_exchanges (h : TokenCommit db ws) (hr : Rotated (db .refreshTokens)) {id : UUID}
    (he : Exchanges id ws) :
    (∃ r ∈ db .refreshTokens, r.id = id ∧ r.revokedAt = none) ∧
      ∃ r ∈ ws.foldl (fun db w => w.apply db) db .refreshTokens, r.id = id ∧
        r.revokedAt ≠ none := by
  obtain ⟨stored', current, hmem, rfl, hcur⟩ := he
  cases h with
  | issue t τ hnew ht =>
    cases List.mem_singleton.mp hmem
  | exchange stored t now τ τ' hs hrev hnew ht hu =>
    rcases List.mem_cons.mp hmem with he | hmem
    · cases he
    obtain ⟨rfl, rfl⟩ : stored' = stored ∧ _ := by simpa [Write.stamp] using hmem
    rw [List.foldl_cons, List.foldl_cons, List.foldl_nil, apply_update,
      show ((Write.insert .refreshTokens t).stamp τ).apply db .refreshTokens =
        db .refreshTokens ++ [Table.stampInsert τ .refreshTokens t] from Write.apply_insert ..]
    refine ⟨⟨stored', hs, rfl, hrev⟩, _, List.mem_map_of_mem (List.mem_append_left _ hs),
      id_updated, ?_⟩
    rw [updated_self.1]
    simp
  | revoke stored now τ hs hrev =>
    obtain ⟨rfl, rfl⟩ : stored' = stored ∧ _ := by simpa [Write.stamp] using hmem
    exact absurd hrev (hr.revoked stored' hs hcur)
  | revokeAll ws hws userId now τ ids =>
    rcases List.mem_cons.mp hmem with he | hmem
    · cases he
    · exact absurd rfl (hws _ hmem)

end TokenCommit

/-! ## The calls -/

inductive AuthCall
  | login (email password : String)
  | refresh (rawToken : String)
  | logout (rawToken : String)
  /-- Of a user loaded in the same session. -/
  | changePassword (user : User) (currentPassword newPassword : String)
  deriving DecidableEq

namespace AuthCall

abbrev Ret : AuthCall → Type
  | login .. => TokenPair
  | refresh .. => TokenPair
  | logout .. => Unit
  | changePassword .. => Unit

def prog (P : Platform) (X : Security) (C : Settings) : (c : AuthCall) → Service c.Ret
  | login email password => AuthService.login P X C email password
  | refresh rawToken => AuthService.refresh P X C rawToken
  | logout rawToken => AuthService.logout P X C rawToken
  | changePassword user currentPassword newPassword =>
    AuthService.changePassword X user currentPassword newPassword

end AuthCall

def authCalls (P : Platform) (X : Security) (C : Settings) : Calls where
  Call := AuthCall
  Ret := AuthCall.Ret
  prog := AuthCall.prog P X C

theorem TokenCommit.congr {db db' : Db} {ws : List Write}
    (h : db' .refreshTokens = db .refreshTokens) (hc : TokenCommit db ws) : TokenCommit db' ws := by
  cases hc with
  | issue t τ hnew ht => exact .issue t τ (h ▸ hnew) ht
  | exchange stored t now τ τ' hs hrev hnew ht hu =>
    exact .exchange stored t now τ τ' (h ▸ hs) hrev (h ▸ hnew) ht hu
  | revoke stored now τ hs hrev => exact .revoke stored now τ (h ▸ hs) hrev
  | revokeAll ws hws userId now τ ids => exact .revokeAll ws hws userId now τ ids

/-- The rules, where the commits are known to satisfy `ψ` besides. -/
def tokenRules (ψ : List RefreshToken → List Write → Prop) : CommitRules AuthCall where
  tables := [.refreshTokens]
  kept _ _ := True
  commits _ db ws := TokenCommit db ws ∧ ψ (db .refreshTokens) ws
  trans _ _ := trivial
  kept_of_rows _ := trivial
  kept_of_commits _ := trivial
  congr h hc := by
    have hrows := h _ (List.mem_singleton.mpr rfl)
    exact ⟨hc.1.congr hrows, by rw [hrows]; exact hc.2⟩

/-! ## Histories -/

section Histories

variable {ψ : List RefreshToken → List Write → Prop} {may : Nat → AuthCall → Prop} {db₀ db : Db}
variable {past more wal : List (Nat × List Write)}

/-- After every commit of a legal history the tokens are `Rotated`. -/
theorem rotated_after (h : (tokenRules ψ).Legal may db₀ db wal) (h₀ : Rotated (db₀ .refreshTokens))
    (hp : past <+: wal) : Rotated (db₀.after past .refreshTokens) := by
  induction past using List.reverseRecOn with
  | nil => exact h₀
  | append_singleton past c ih =>
    obtain ⟨_, -, hc, -⟩ := h.allowed past c.1 c.2 hp
    rw [Db.after_append]
    exact (hc.keeps (ih ((List.prefix_append _ _).trans hp))).1

/-- A legal history takes nothing back. -/
theorem later_after (h : (tokenRules ψ).Legal may db₀ db wal) (h₀ : Rotated (db₀ .refreshTokens))
    (hp : past ++ more <+: wal) :
    Later (db₀.after past .refreshTokens) (db₀.after (past ++ more) .refreshTokens) := by
  induction more using List.reverseRecOn with
  | nil =>
    rw [List.append_nil]
    exact .refl _
  | append_singleton more c ih =>
    rw [← List.append_assoc] at hp ⊢
    have hprefix : past ++ more <+: wal := (List.prefix_append _ _).trans hp
    obtain ⟨_, -, hc, -⟩ := h.allowed _ c.1 c.2 hp
    rw [Db.after_append]
    exact (ih hprefix).trans (hc.keeps (rotated_after h h₀ hprefix)).2

/-- A revoked token is exchanged by no commit any more. -/
theorem not_exchanged (h : (tokenRules ψ).Legal may db₀ db wal) (h₀ : Rotated (db₀ .refreshTokens))
    (hw : wal = past ++ more) {r : RefreshToken} (hr : r ∈ db₀.after past .refreshTokens)
    (hrev : r.revokedAt ≠ none) {x : Nat × List Write} (hx : x ∈ more) : ¬Exchanges r.id x.2 := by
  intro he
  obtain ⟨s, t, rfl⟩ := List.append_of_mem hx
  have hs : past ++ s ++ [x] <+: wal := ⟨t, by simp [hw]⟩
  have hps : past ++ s <+: wal := (List.prefix_append _ _).trans hs
  obtain ⟨r', hr', hid, -, hkept⟩ := later_after h h₀ hps r hr
  obtain ⟨_, -, hc, -⟩ := h.allowed _ x.1 x.2 hs
  obtain ⟨⟨q, hq, hqid, hqrev⟩, -⟩ := hc.of_exchanges (rotated_after h h₀ hps) he
  obtain rfl : q = r' := (rotated_after h h₀ hps).linear.eq_of_id hq hr' (hqid.trans hid.symm)
  exact (hkept hrev).1 hqrev

/-- A token that one commit exchanges is exchanged by none of the later ones. -/
theorem exchanged_before (h : (tokenRules ψ).Legal may db₀ db wal)
    (h₀ : Rotated (db₀ .refreshTokens)) {x y : Nat × List Write} {id : UUID}
    {s t : List (Nat × List Write)} (hw : wal = s ++ x :: t) (hy : y ∈ t)
    (hx : Exchanges id x.2) : ¬Exchanges id y.2 := by
  have hs : s ++ [x] <+: wal := ⟨t, by simp [hw]⟩
  obtain ⟨_, -, hc, -⟩ := h.allowed s x.1 x.2 hs
  obtain ⟨-, r, hr, rfl, hrev⟩ :=
    hc.of_exchanges (rotated_after h h₀ ((List.prefix_append _ _).trans hs)) hx
  rw [← Db.after_append] at hr
  exact not_exchanged h h₀ (by rw [hw, List.append_assoc]; rfl) hr hrev hy

theorem exchanged_once (h : (tokenRules ψ).Legal may db₀ db wal) (h₀ : Rotated (db₀ .refreshTokens))
    {x y : Nat × List Write} {id : UUID} (hx : x ∈ wal) (hy : y ∈ wal) (hxe : Exchanges id x.2)
    (hye : Exchanges id y.2) : x = y := by
  obtain ⟨s, t, hw⟩ := List.append_of_mem hx
  rw [hw, List.mem_append, List.mem_cons] at hy
  rcases hy with hy | rfl | hy
  · obtain ⟨s, u, rfl⟩ := List.append_of_mem hy
    refine absurd hxe (exchanged_before (s := s) (t := u ++ x :: t) h h₀ (by simp [hw]) ?_ hye)
    exact List.mem_append_right _ List.mem_cons_self
  · rfl
  · exact absurd hye (exchanged_before h h₀ hw hy hxe)

end Histories

/-! ## The walks -/

namespace AuthService

open CommitRules
open RowRules hiding Knows committing elsewhere inv_start

section Walks

variable {P : Platform} {X : Security} {C : Settings} {may : Nat → AuthCall → Prop} {db₀ : Db}
variable {ψ : List RefreshToken → List Write → Prop} {i : Nat} {admits : Admission}
variable {K : Knows (tokenRules ψ) may db₀ i} {φ : List Write → Prop}

/-- What is read from a token is what it was made of. -/
theorem claims_encode (hX : ∀ key payload, X.payload key (X.encode key payload) = some payload)
    (subject tokenId : UUID) (tokenType : TokenType) (iat exp : Nat) :
    TokenCodec.claims X C (X.encode C.authSecretKey
      { sub := subject.str, jti := tokenId.str, type := tokenType.value, iat, exp }) tokenType =
      some ⟨subject, tokenId, tokenType, seconds exp⟩ := by
  simp [TokenCodec.claims, hX, UUID.parse_str]

theorem claims_of_decode {now : Time} {token : String} {tokenType : TokenType}
    {claims : TokenClaims} (h : TokenCodec.decode X C now token tokenType = some claims) :
    TokenCodec.claims X C token tokenType = some claims := by
  simp only [TokenCodec.decode, Option.bind_eq_bind, Option.bind_eq_some_iff] at h
  obtain ⟨payload, -, h⟩ := h
  split at h
  · cases h
  · exact h

/-- The claims a signed token was made of. -/
def Signed (X : Security) (C : Settings) (userId : UUID) (tokenType : TokenType)
    (t : EncodedToken) : Prop :=
  ∃ iat exp, t.value = X.encode C.authSecretKey
    { sub := userId.str, jti := t.tokenId.str, type := tokenType.value, iat, exp }

theorem walks_encode (hK : WorldOutline.Own K) (userId : UUID) (tokenType : TokenType)
    (ttl : Time) :
    Walks admits K φ (TokenCodec.encode X C userId tokenType ttl) fun t =>
      WorldOutline.Before (K.and (.pure (Signed X C userId tokenType t))) φ :=
  Triple.bind (passing hK trivial) fun _ => Triple.bind (passing hK trivial) fun _ =>
    Triple.ret fun _ _ h => ⟨h.1, ⟨h.2.1, _, _, rfl⟩, h.2.2⟩

/-- A pair that was issued: the row added for it, and the claims of its refresh token. -/
structure Issued (X : Security) (C : Settings) (userId : UUID) (p : TokenPair × RefreshToken) :
    Prop where
  user : p.2.userId = userId
  next : p.2.replacedById = none
  claims : ∀ claims, TokenCodec.claims X C p.1.refreshToken .refresh = some claims →
    claims.tokenId = p.2.id

theorem walks_issuePair (hX : ∀ key payload, X.payload key (X.encode key payload) = some payload)
    (hK : WorldOutline.Own K) (userId : UUID) :
    Walks admits K φ (issuePair P X C userId) fun p =>
      WorldOutline.Before (K.and (.pure (Issued X C userId p))) φ := by
  refine Triple.bind (walks_encode hK _ _ _) fun access => assuming fun _ => ?_
  refine Triple.bind (walks_encode hK _ _ _) fun refresh => assuming fun hsigned => ?_
  refine Triple.ret fun _ _ h => ⟨h.1, ⟨h.2.1, rfl, rfl, fun claims hclaims => ?_⟩, h.2.2⟩
  obtain ⟨iat, exp, hvalue⟩ := hsigned
  dsimp only at hclaims
  rw [hvalue, claims_encode hX] at hclaims
  cases hclaims
  rfl

theorem walks_decodeToken (hK : WorldOutline.Own K) (rawToken : String) (tokenType : TokenType) :
    Walks admits K φ (decodeToken X C rawToken tokenType) fun claims =>
      WorldOutline.Before (K.and (.pure (TokenCodec.claims X C rawToken tokenType = some claims)))
        φ := by
  refine Triple.bind (passing hK trivial) fun now => ?_
  rcases hd : TokenCodec.decode X C now rawToken tokenType with _ | claims
  · exact walks_raise
  · exact Triple.ret fun _ _ h => ⟨h.1, ⟨h.2.1, claims_of_decode hd⟩, h.2.2⟩

/-- The outside lets nothing be committed but what satisfies `ψ`. -/
def Ensures (admits : Admission) (ψ : List RefreshToken → List Write → Prop) : Prop :=
  ∀ i W ch, admits i W .commit ch → ψ (W.store.db .refreshTokens) (W.store.sessions i).writes

/-- The commit of a call. -/
theorem walks_commit (hψ : Ensures admits ψ) {c : AuthCall} (hmay : may i c)
    {χ : List (List Write) → Prop}
    (hready : ∀ W, K W → φ (W.store.sessions i).writes →
      TokenCommit W.store.db (W.store.sessions i).writes) (hχ : ∀ ws, φ ws → χ [ws]) :
    Walks admits K φ Service.commit fun _ => committed χ :=
  committing hmay (fun W ch _ hK hw hadm => ⟨hready W hK hw, hψ i W ch hadm⟩) hχ

/-- What a call commits, and what is known of it once it has returned. -/
abbrev Rule (P : Platform) (X : Security) (C : Settings)
    (ψ : List RefreshToken → List Write → Prop) (may : Nat → AuthCall → Prop) (db₀ : Db)
    (i : Nat) (admits : Admission) (c : AuthCall) (χ : c.Ret → List (List Write) → Prop) : Prop :=
  Walks admits (.true : Knows (tokenRules ψ) may db₀ i) (· = []) (c.prog P X C) fun a =>
    committed (χ a)

theorem walks_login {email password : String}
    (hX : ∀ key payload, X.payload key (X.encode key payload) = some payload)
    (hψ : Ensures admits ψ) (hmay : may i (.login email password)) :
    Rule P X C ψ may db₀ i admits (.login email password) fun _ _ => True := by
  refine Triple.bind (passing WorldOutline.own_true trivial) fun found => ?_
  rcases found with _ | user
  · exact walks_raise
  refine walks_check fun _ => ?_
  refine Triple.bind (walks_issuePair hX WorldOutline.own_true user.id) fun p =>
    assuming fun hp => ?_
  obtain ⟨pair, t⟩ := p
  refine Triple.bind (inserting (ψ := fun ws => ∃ τ, ws = [(Write.insert .refreshTokens t).stamp τ])
    WorldOutline.own_true (fun ws hws => by simp [hws]) fun ws τ hws => ⟨τ, by simp [hws]⟩)
    fun _ => ?_
  refine Triple.bind (walks_commit hψ hmay (χ := fun _ => True) (fun W hk hw => ?_)
    fun _ _ => trivial) fun _ => Triple.ret fun _ _ h => h
  obtain ⟨τ, hws⟩ := hw
  rw [hws]
  exact .issue t τ (Db.present_row.mp (hk.2 _ List.mem_cons_self).2) hp.next

/-- A token is exchanged. -/
theorem walks_rotate {rawToken : String} {stored : RefreshToken}
    (hX : ∀ key payload, X.payload key (X.encode key payload) = some payload)
    (hψ : Ensures admits ψ) (hmay : may i (.refresh rawToken)) (hrev : stored.revokedAt = none) :
    Walks admits (locked .refreshTokens stored : Knows (tokenRules ψ) may db₀ i) (· = [])
      (rotate P X C stored) fun _ => committed fun cs => ∃ ws, cs = [ws] ∧
        Exchanges stored.id ws := by
  have hown : WorldOutline.Own (locked .refreshTokens stored : Knows (tokenRules ψ) may db₀ i) :=
    own_locked _ _
  refine Triple.bind (finding (Y := fun found =>
      .pure (∀ user : User, found = some user → user.id = stored.userId))
    hown (fun _ => own_pure) fun _ _ _ _ _ => Db.id_of_get) fun found => assuming fun huser => ?_
  rcases found with _ | user
  · exact walks_raise
  refine walks_check fun _ => ?_
  refine Triple.bind (passing hown trivial) fun now => ?_
  refine Triple.bind (walks_issuePair hX hown user.id) fun p => assuming fun hp => ?_
  obtain ⟨pair, t⟩ := p
  refine Triple.bind (walks_decodeToken hown _ _) fun replacement => assuming fun hclaims => ?_
  rw [hp.claims _ hclaims]
  have hne : stored ≠ { stored with revokedAt := some now, replacedById := some t.id } := by
    intro he
    rw [he] at hrev
    cases hrev
  refine Triple.bind (inserting (ψ := fun ws => ∃ τ, ws = [(Write.insert .refreshTokens t).stamp τ])
    hown (fun ws hws => by simp [hws]) fun ws τ hws => ⟨τ, by simp [hws]⟩) fun _ => ?_
  have hownT : WorldOutline.Own ((locked .refreshTokens stored : Knows (tokenRules ψ) may db₀ i).and
      (reserved (Table.keys .refreshTokens t))) := hown.and (own_reserved _)
  rw [Service.update, if_neg hne]
  refine Triple.bind (writing (ψ := fun ws => ∃ τ τ', ws =
    [(Write.insert .refreshTokens t).stamp τ, (Write.update .refreshTokens stored
      { stored with revokedAt := some now, replacedById := some t.id }).stamp τ']) hownT
    (fun ws τ' hws => ?_)) fun _ => ?_
  · obtain ⟨τ, rfl⟩ := hws
    exact ⟨τ, τ', rfl⟩
  refine Triple.bind (walks_commit hψ hmay (fun W hk hw => ?_) fun ws hw => ?_) fun _ =>
    Triple.ret fun _ _ h => h
  · obtain ⟨τ, τ', hws⟩ := hw
    rw [hws]
    exact .exchange stored t now τ τ' hk.1.1 hrev
      (Db.present_row.mp (hk.2 _ List.mem_cons_self).2) hp.next (hp.user.trans (huser user rfl))
  · obtain ⟨τ, τ', rfl⟩ := hw
    exact ⟨_, rfl, stored, _, List.mem_cons_of_mem _ (List.mem_singleton.mpr rfl), rfl,
      Option.some_ne_none _⟩

/-- The writes begin with `revoke_all_active`, and are to no token otherwise. -/
def Revoking (userId : UUID) (now : Time) (ws : List Write) : Prop :=
  ∃ ws₀ τ ids, (∀ w ∈ ws₀, .refreshTokens ≠ w.table) ∧
    ws = .revokeAllActive userId now τ ids :: ws₀

theorem walks_revokeAllActive (userId : UUID) (now : Time) :
    Walks admits (.true : Knows (tokenRules ψ) may db₀ i) (· = []) (revokeAllActive userId now)
      fun _ => WorldOutline.Before .true (Revoking userId now) :=
  Triple.bind (passing WorldOutline.own_true trivial) fun _ =>
    Triple.bind (passing WorldOutline.own_true trivial) fun ids =>
      writing WorldOutline.own_true fun ws τ hws =>
        ⟨[], τ, ids, List.forall_mem_nil _, by rw [hws]; rfl⟩

theorem walks_commitRevoking {userId : UUID} {now : Time} {c : AuthCall} (hψ : Ensures admits ψ)
    (hmay : may i c) :
    Walks admits (.true : Knows (tokenRules ψ) may db₀ i) (Revoking userId now) Service.commit
      fun _ => committed fun _ => True := by
  refine walks_commit hψ hmay (fun W _ hw => ?_) fun _ _ => trivial
  obtain ⟨ws₀, τ, ids, hws₀, hws⟩ := hw
  rw [hws]
  exact .revokeAll ws₀ hws₀ userId now τ ids

/-- The stored token, locked, of the claims presented. -/
theorem walks_getForUpdate (tokenId : UUID) :
    Walks admits (.true : Knows (tokenRules ψ) may db₀ i) (· = [])
    (getForUpdate tokenId) fun found =>
      WorldOutline.Before ((Assertion.true.and (lockedIf .refreshTokens found)).and
        (.pure (∀ row : RefreshToken, found = some row → row.id = tokenId))) (· = []) :=
  locking WorldOutline.own_true fun _ _ h => ⟨List.mem_of_find?_eq_some h, Db.id_of_get h⟩

theorem walks_refresh {rawToken : String}
    (hX : ∀ key payload, X.payload key (X.encode key payload) = some payload)
    (hψ : Ensures admits ψ) (hmay : may i (.refresh rawToken)) :
    Rule P X C ψ may db₀ i admits (.refresh rawToken) fun _ cs => ∀ claims,
      TokenCodec.claims X C rawToken .refresh = some claims →
        ∃ ws, cs = [ws] ∧ Exchanges claims.tokenId ws := by
  refine Triple.bind (walks_decodeToken WorldOutline.own_true _ _) fun claims =>
    assuming fun hclaims => ?_
  refine Triple.bind (walks_getForUpdate claims.tokenId) fun found => assuming fun hid => ?_
  rcases found with _ | stored
  · exact walks_raise
  refine walks_check fun _ => ?_
  have hown : WorldOutline.Own ((Assertion.true : Knows (tokenRules ψ) may db₀ i).and
      (lockedIf .refreshTokens (some stored))) := WorldOutline.own_true.and (own_lockedIf _ _)
  refine Triple.bind (passing hown trivial) fun now => walks_check fun _ => ?_
  split
  · split
    · -- the token was exchanged before: all that are still active are revoked
      refine Triple.bind (passing hown trivial) fun now => ?_
      refine Triple.bind ((walks_revokeAllActive stored.userId now).pre fun W _ h =>
        ⟨h.1, trivial, h.2.2⟩) fun _ => ?_
      exact Triple.bind (walks_commitRevoking hψ hmay) fun _ => Triple.raise fun _ _ _ => trivial
    · exact walks_raise
  · rename_i hrev
    have hnone : stored.revokedAt = none := by simpa using hrev
    refine (walks_rotate hX hψ hmay hnone).conseq (fun W _ h => ⟨h.1, h.2.1.2, h.2.2⟩)
      (fun _ W _ h claims' hclaims' => ?_) fun _ _ _ h => h
    obtain rfl := Option.some.inj (hclaims.symm.trans hclaims')
    rw [← hid stored rfl]
    exact h

theorem walks_logout {rawToken : String} (hψ : Ensures admits ψ)
    (hmay : may i (.logout rawToken)) :
    Rule P X C ψ may db₀ i admits (.logout rawToken) fun _ _ => True := by
  refine Triple.bind (walks_decodeToken WorldOutline.own_true _ _) fun claims =>
    assuming fun _ => ?_
  refine Triple.bind (walks_getForUpdate claims.tokenId) fun found => assuming fun _ => ?_
  rcases found with _ | stored
  · exact walks_raise
  refine walks_check fun _ => ?_
  have hown : WorldOutline.Own ((Assertion.true : Knows (tokenRules ψ) may db₀ i).and
      (lockedIf .refreshTokens (some stored))) := WorldOutline.own_true.and (own_lockedIf _ _)
  split
  · rename_i hrev
    have hnone : stored.revokedAt = none := by simpa using hrev
    refine Triple.bind (passing hown trivial) fun now => ?_
    have hne : stored ≠ { stored with revokedAt := some now } := by
      intro he
      rw [he] at hnone
      cases hnone
    rw [Service.update, if_neg hne]
    refine Triple.bind (writing (ψ := fun ws => ∃ τ, ws = [(Write.update .refreshTokens stored
      { stored with revokedAt := some now }).stamp τ]) hown fun ws τ hws => ⟨τ, by rw [hws]; rfl⟩)
      fun _ => walks_commit hψ hmay (fun W hk hw => ?_) fun _ _ => trivial
    obtain ⟨τ, hws⟩ := hw
    rw [hws]
    exact .revoke stored now τ hk.2.1 hnone
  · exact walks_pure trivial

theorem walks_changePassword {user : User} {currentPassword newPassword : String}
    (hψ : Ensures admits ψ) (hmay : may i (.changePassword user currentPassword newPassword)) :
    Rule P X C ψ may db₀ i admits (.changePassword user currentPassword newPassword)
      fun _ _ => True := by
  have hown : WorldOutline.Own (.true : Knows (tokenRules ψ) may db₀ i) := WorldOutline.own_true
  refine walks_check fun _ => walks_check fun _ => ?_
  refine Triple.bind (passing hown trivial) fun salt =>
    Triple.bind (passing hown trivial) fun now =>
      Triple.bind (walks_revokeAllActive user.id now) fun _ =>
        Triple.bind (M := fun _ => WorldOutline.Before .true (Revoking user.id now)) ?_
          fun _ => walks_commitRevoking hψ hmay
  unfold Service.update
  split
  · exact Triple.ret fun _ _ h => h
  · refine writing hown fun ws τ hws => ?_
    obtain ⟨ws₀, τ₀, ids, hws₀, rfl⟩ := hws
    refine ⟨ws₀ ++ [_], τ₀, ids, fun w hw => ?_, rfl⟩
    rcases List.mem_append.mp hw with hw | hw
    · exact hws₀ w hw
    · rw [List.mem_singleton.mp hw]
      rintro ⟨⟩

end Walks

end AuthService

/-! ## The theorem -/

section Pool

variable {P : Platform} {X : Security} {C : Settings}

/-- What is known of a call of the pool that has returned. -/
def AuthCall.Answered (X : Security) (C : Settings) :
    (c : AuthCall) → c.Ret → List (List Write) → Prop
  | refresh rawToken => fun _ cs => ∀ claims,
    TokenCodec.claims X C rawToken .refresh = some claims →
      ∃ ws, cs = [ws] ∧ Exchanges claims.tokenId ws
  | _ => fun _ _ => True

/-- The pool of the four calls, by any users and under any faults. -/
abbrev authPool (P : Platform) (X : Security) (C : Settings) : System Op.Res Exn World :=
  (authCalls P X C).system (fun _ _ => True) (fun _ _ _ _ => True) (Untouched [.refreshTokens])

/-- The committed tokens. -/
abbrev tokensOf (pool : (authPool P X C).Pool) : List RefreshToken :=
  pool.shared.store.db .refreshTokens

/-- What is true of the tokens of a reachable pool. -/
structure LinearRotation (pool : (authPool P X C).Pool) : Prop where
  /-- Two calls that have exchanged the same token are the same call. -/
  once : ∀ {i j rawToken rawToken' pair pair' claims claims'},
    pool.threads i = .finished (.refresh rawToken) (.ok pair) →
    pool.threads j = .finished (.refresh rawToken') (.ok pair') →
    TokenCodec.claims X C rawToken .refresh = some claims →
    TokenCodec.claims X C rawToken' .refresh = some claims' →
    claims.tokenId = claims'.tokenId → i = j
  /-- So are two commits, whether their calls have returned or not. -/
  commits : ∀ {x y id}, x ∈ pool.shared.store.wal → y ∈ pool.shared.store.wal →
    Exchanges id x.2 → Exchanges id y.2 → x = y
  /-- `revoked_at` stays set, and a revoked token is not given a successor any more. -/
  later : ∀ {pool'}, System.Steps pool pool' → Later (tokensOf pool) (tokensOf pool')
  /-- `replaced_by_id` is set only together with `revoked_at`. -/
  revoked : ∀ r ∈ tokensOf pool, r.replacedById ≠ none → r.revokedAt ≠ none
  /-- No token has two predecessors. -/
  single : ∀ {x y z}, Exchanged (tokensOf pool) x z → Exchanged (tokensOf pool) y z → x = y
  /-- The tokens descending from one are a finite chain without repetitions, of the same user, all
  of them revoked but for the last. -/
  chains : ∀ r ∈ tokensOf pool, ∃ c, (r :: c).IsChain (Exchanged (tokensOf pool)) ∧
    (r :: c).Nodup ∧
    (∀ y, Relation.ReflTransGen (Exchanged (tokensOf pool)) r y ↔ y ∈ r :: c) ∧
    ((r :: c).getLast (List.cons_ne_nil _ _)).replacedById = none ∧
    ∀ y ∈ r :: c, y.userId = r.userId ∧
      (y.revokedAt = none → y = (r :: c).getLast (List.cons_ne_nil _ _))

theorem Rotated.chains {rows : List RefreshToken} (h : Rotated rows) {r : RefreshToken}
    (hr : r ∈ rows) : ∃ c, (r :: c).IsChain (Exchanged rows) ∧ (r :: c).Nodup ∧
      (∀ y, Relation.ReflTransGen (Exchanged rows) r y ↔ y ∈ r :: c) ∧
      ((r :: c).getLast (List.cons_ne_nil _ _)).replacedById = none ∧
      ∀ y ∈ r :: c, y.userId = r.userId ∧
        (y.revokedAt = none → y = (r :: c).getLast (List.cons_ne_nil _ _)) := by
  obtain ⟨c, hchain, hnodup, hmem, hlast⟩ := h.linear.chain hr
  refine ⟨c, hchain, hnodup, hmem, (hlast _ (List.getLast_mem _)).mpr rfl, fun y hy => ?_⟩
  constructor
  · have hreach := (hmem y).mpr hy
    clear hy
    induction hreach with
    | refl => rfl
    | tail _ hf ih => exact (h.user hf).trans ih
  · intro hrev
    have hy' : y ∈ rows := by
      rcases Relation.ReflTransGen.cases_tail ((hmem y).mpr hy) with rfl | ⟨z, -, hf⟩
      · exact hr
      · exact hf.2.1
    refine (hlast y hy).mp ?_
    by_contra hne
    exact h.revoked y hy' hne hrev

/-- What a call commits, whichever it is. -/
theorem AuthCall.walks (hX : ∀ key payload, X.payload key (X.encode key payload) = some payload)
    {ψ : List RefreshToken → List Write → Prop} {may : Nat → AuthCall → Prop} {db₀ : Db} {i : Nat}
    {admits : Admission} {c : AuthCall} (hψ : AuthService.Ensures admits ψ) (hmay : may i c) :
    AuthService.Rule P X C ψ may db₀ i admits c (c.Answered X C) := by
  cases c with
  | login email password => exact AuthService.walks_login hX hψ hmay
  | refresh rawToken => exact AuthService.walks_refresh hX hψ hmay
  | logout rawToken => exact AuthService.walks_logout hψ hmay
  | changePassword user currentPassword newPassword =>
    exact AuthService.walks_changePassword hψ hmay

/-- **Rotation is single-use and linear.** -/
theorem rotation_is_linear
    (hX : ∀ key payload, X.payload key (X.encode key payload) = some payload) {W₀ : World}
    (hq : W₀.Quiet) (h₀ : W₀.store.db .refreshTokens = []) {pool : (authPool P X C).Pool}
    (h : System.Reachable W₀ pool) : LinearRotation pool := by
  have hreached {pool : (authPool P X C).Pool} (h : System.Reachable W₀ pool) :=
    CommitRules.reached (C := authCalls P X C) (R := tokenRules fun _ _ => True)
      (χ := AuthCall.Answered X C) hq
      (fun _ _ hmay => AuthCall.walks hX (fun _ _ _ _ => trivial) hmay) h
  have hstart : Rotated (W₀.store.db .refreshTokens) := h₀ ▸ .nil
  obtain ⟨hlegal, hanswered⟩ := hreached h
  have hrows : tokensOf pool = W₀.store.db.after pool.shared.store.wal .refreshTokens :=
    hlegal.rows _ (List.mem_singleton.mpr rfl)
  have hrotated : Rotated (tokensOf pool) := by
    rw [hrows]
    exact rotated_after hlegal hstart List.prefix_rfl
  -- the commit of a call that has exchanged a token
  have hcommit {i rawToken pair claims}
      (hi : pool.threads i = .finished (.refresh rawToken) (.ok pair))
      (hclaims : TokenCodec.claims X C rawToken .refresh = some claims) :
      ∃ ws, (i, ws) ∈ pool.shared.store.wal ∧ Exchanges claims.tokenId ws := by
    obtain ⟨ws, hws, he⟩ := hanswered i _ pair hi claims hclaims
    exact ⟨ws, mem_of_commitsOf (hws ▸ List.mem_singleton.mpr rfl), he⟩
  refine
    { once := fun hi hj hc hc' hid => ?_, commits := exchanged_once hlegal hstart,
      later := fun hsteps => ?_, revoked := hrotated.revoked,
      single := fun hx hy => hrotated.linear.single hx.1 hy.1 hx.2.2 hy.2.2,
      chains := fun r hr => hrotated.chains hr }
  · obtain ⟨ws, hws, he⟩ := hcommit hi hc
    obtain ⟨ws', hws', he'⟩ := hcommit hj hc'
    rw [← hid] at he'
    exact congrArg Prod.fst (exchanged_once hlegal hstart hws hws' he he')
  · have hlegal' := (hreached (h.trans hsteps)).1
    obtain ⟨more, hmore⟩ := Calls.wal_prefix (fun _ _ h => h.wal) hsteps
    rw [hrows, show tokensOf _ = _ from hlegal'.rows _ (List.mem_singleton.mpr rfl), ← hmore]
    exact later_after hlegal' hstart (by rw [hmore])

end Pool

/-! ## A run -/

namespace Security

/-- A text in quotes, the first of them left out. -/
def quoted : List Char → List Char
  | [] => ['"']
  | c :: cs => if c = '"' ∨ c = '\\' then '\\' :: c :: quoted cs else c :: quoted cs

/-- The quoted text at the front of another, and what follows it. -/
def unquote : List Char → Option (List Char × List Char)
  | [] => none
  | '"' :: rest => some ([], rest)
  | '\\' :: c :: rest => (unquote rest).map fun x => (c :: x.1, x.2)
  | c :: rest => (unquote rest).map fun x => (c :: x.1, x.2)

theorem unquote_quoted (cs rest : List Char) : unquote (quoted cs ++ rest) = some (cs, rest) := by
  induction cs with
  | nil => rfl
  | cons c cs ih =>
    rw [quoted]
    split
    · simp [unquote, ih]
    · rename_i hc
      rw [not_or] at hc
      rw [List.cons_append, unquote, ih]
      · rfl
      · exact fun h => absurd h hc.1
      · exact fun d rest h => absurd h hc.2

/-- The digits of a number. -/
def bits (n : Nat) : List Char := Lib.Text.numeral 2 (n.log2 + 1) n

theorem value_bits (n : Nat) : Lib.Text.value 2 (bits n) = some n :=
  Lib.Text.value_numeral (by omega) (by omega) Nat.lt_log2_self

/-- Tokens that are the key and the claims in the clear. -/
def clear : Security where
  encode key p := String.ofList (quoted key.toList ++ (quoted p.sub.toList ++
    (quoted p.jti.toList ++ (quoted p.type.toList ++
      (quoted (bits p.iat) ++ quoted (bits p.exp))))))
  payload key token := do
    let (signer, cs) ← unquote token.toList
    let (sub, cs) ← unquote cs
    let (jti, cs) ← unquote cs
    let (type, cs) ← unquote cs
    let (iat, cs) ← unquote cs
    let (exp, _) ← unquote cs
    if String.ofList signer = key then
      some ⟨String.ofList sub, String.ofList jti, String.ofList type, ← Lib.Text.value 2 iat,
        ← Lib.Text.value 2 exp⟩
    else none
  hash _ password := password
  verify password hash := decide (password = hash)

theorem payload_clear (key : String) (p : TokenPayload) :
    clear.payload key (clear.encode key p) = some p := by
  have hlast := unquote_quoted (bits p.exp) []
  rw [List.append_nil] at hlast
  simp [clear, unquote_quoted, hlast, value_bits]

end Security

/-- A platform whose digests are the data. -/
def Platform.verbatim : Platform :=
  { Platform.plain with sha256Hex := fun data => String.ofList (data.data.toList.map Char.ofUInt8) }

/-- A database with one user. -/
def Db.oneUser : Db
  | .users => [⟨1, "a@b.c", "password", true, 0, 0⟩]
  | _ => []

/-- A user logs in, exchanges the token, and presents it once more: the new one is revoked, too. -/
theorem rotation_is_linear_reused :
    ∃ pool : (authPool .verbatim .clear { authSecretKey := "k" }).Pool,
      System.Reachable (World.fresh Db.oneUser) pool ∧
      (tokensOf pool).map (fun t => (t.id, t.revokedAt, t.replacedById)) =
        [(2, some 0, some 4), (4, some 0, none)] ∧ LinearRotation pool := by
  let raw : String := Security.clear.encode "k"
    ⟨(1 : UUID).str, (2 : UUID).str, "refresh", 0, 604800⟩
  let moves : List (System.Move AuthCall Choice Empty) := [
    .start 0 (.login "a@b.c" "password"),
    .ops 0 [{}, {}, { uuid := 1 }, {}, { uuid := 2 }, {}, {}], .finish 0,
    .start 1 (.refresh raw),
    .ops 1 [{}, {}, {}, {}, {}, {}, { uuid := 3 }, {}, { uuid := 4 }, {}, {}, {}, {}], .finish 1,
    .start 2 (.refresh raw),
    .ops 2 [{}, {}, {}, {}, {}, {}, {}, {}], .finish 2]
  obtain ⟨pool, hreach, hobs⟩ := ((authCalls .verbatim .clear { authSecretKey := "k" }).player
    (Untouched [.refreshTokens]) (fun _ _ => true)
    fun _ _ _ => trivial).replay_map moves (.init (World.fresh Db.oneUser))
    (fun pool => (tokensOf pool).map fun t => (t.id, t.revokedAt, t.replacedById))
    (b := [(2, some 0, some 4), (4, some 0, none)]) (by decide +kernel)
  exact ⟨pool, hreach, hobs,
    rotation_is_linear Security.payload_clear (World.quiet_fresh _) rfl hreach⟩

end Ticketing
