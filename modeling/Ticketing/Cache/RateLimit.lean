import Ticketing.Services.Auth
import Mathlib.Data.List.Basic
import Mathlib.Data.List.Infix

/-!
# `cache/redis.py` and `services/rate_limit.py`: the login rate limit

The fixed-window script on a Redis that runs it atomically and drops a key when its expiry time is
reached, and `LoginRateLimiter.check` on top of it.

* `Redis.fixedWindowScript` is `_FIXED_WINDOW_SCRIPT`, made of `incr`, `expire` and `ttl`.
  `RateLimitDecision.ofReply` is what `RedisCache.rate_limit` makes of its reply.
* `rateLimitKey` is `rate_limit_key`. An identity is the host and the email, stripped and in lower
  case (`Check.normalizedIdentity`).
* A `Window` is the specification: it starts with the first call after the last window has ended
  and lasts `window_seconds`, whatever the calls in it were answered. `Check.group` are the calls
  with the same host and normalised email.

Results:
* **`checks_are_windowed`**: of any timed sequence of checks, each is decided by its place in the
  current window of its own group, as it would be if the other groups had made no calls; no
  counter is ever without an expiry; and texts under which `login` finds one account are in one
  group.
* `counter_of_group`: the counter of a key stands for the last window of the group.

Assumed: SHA-256 has no collision among the identities checked, and no email has a colon
(`Separated`). Redis counts in milliseconds and freezes its clock for the length of a script, and
a counter gets nowhere near the end of its 64-bit integers. Out of scope: a Redis that cannot be
reached, where `check` allows the call with `degraded` set.
-/

namespace Ticketing

open Lib.Text (strip)

/-! ## Redis -/

structure Redis.Entry where
  value : Int
  /-- In milliseconds. -/
  expiresAt : Option Nat
  deriving DecidableEq, Repr

abbrev Redis := String → Option Redis.Entry

namespace Redis

/-- The entry of a key whose expiry time has not been reached. -/
def live (r : Redis) (now : Nat) (key : String) : Option Entry :=
  (r key).filter fun e => match e.expiresAt with
    | none => true
    | some t => now < t

/-- `INCR key`. -/
def incr (r : Redis) (now : Nat) (key : String) : Int × Redis :=
  match r.live now key with
  | none => (1, Function.update r key (some ⟨1, none⟩))
  | some e => (e.value + 1, Function.update r key (some { e with value := e.value + 1 }))

/-- `EXPIRE key seconds`. -/
def expire (r : Redis) (now : Nat) (key : String) (seconds : Nat) : Redis :=
  match r.live now key with
  | none => r
  | some e => Function.update r key (some { e with expiresAt := some (now + seconds * 1000) })

/-- Milliseconds left, in seconds, rounded. -/
def secondsLeft (t now : Nat) : Int := ((t - now + 500) / 1000 : Nat)

/-- `TTL key`. -/
def ttl (r : Redis) (now : Nat) (key : String) : Int :=
  match r.live now key with
  | none => -2
  | some ⟨_, none⟩ => -1
  | some ⟨_, some t⟩ => secondsLeft t now

/-- `_FIXED_WINDOW_SCRIPT`. -/
def fixedWindowScript (r : Redis) (now : Nat) (key : String) (window : Nat) : (Int × Int) × Redis :=
  let (current, r) := r.incr now key
  let r := if current = 1 then r.expire now key window else r
  ((current, r.ttl now key), r)

end Redis

/-! ## The limiter -/

structure RateLimitDecision where
  allowed : Bool
  limit : Nat
  remaining : Int
  retryAfterSeconds : Int
  degraded : Bool
  deriving DecidableEq, Repr

/-- `RedisCache.rate_limit`, by the reply of the script; `none` is an error of the client. -/
def RateLimitDecision.ofReply (limit : Nat) : Option (Int × Int) → RateLimitDecision
  | none => ⟨true, limit, limit, 0, true⟩
  | some (current, ttl) => ⟨current ≤ limit, limit, max 0 (limit - current), max 1 ttl, false⟩

/-- `_SCOPE_PATTERN`. -/
def isScope (scope : String) : Bool :=
  match scope.toList with
  | [] => false
  | c :: cs => c.isLower && cs.length ≤ 31 && cs.all fun c => c.isLower || c.isDigit || c = '-'

structure LoginRateLimiter where
  limit : Nat
  windowSeconds : Nat
  limit_pos : 1 ≤ limit
  window_pos : 1 ≤ windowSeconds

namespace LoginRateLimiter

variable (P : Platform) (L : LoginRateLimiter)

def keyPrefix (scope : String) : String := "ticketing:v1:rate-limit:" ++ scope ++ ":"

/-- `rate_limit_key`. -/
def rateLimitKey (scope identifier : String) : Except Exn String :=
  if isScope scope then .ok (keyPrefix scope ++ P.sha256Hex identifier.toUTF8)
  else .error .valueError

/-- A call of `check`, and the milliseconds at which Redis runs its script. -/
structure Check where
  email : String
  clientHost : String
  time : Nat

def Check.normalizedIdentity (c : Check) : String :=
  c.clientHost ++ ":" ++ P.lower (strip c.email)

/-- `LoginRateLimiter.check`. -/
def check (c : Check) (r : Redis) : Except Exn RateLimitDecision × Redis :=
  match rateLimitKey P "login" (c.normalizedIdentity P) with
  | .error e => (.error e, r)
  | .ok key =>
    let (reply, r) := r.fixedWindowScript c.time key L.windowSeconds
    (.ok (.ofReply L.limit (some reply)), r)

/-- Redis after a sequence of checks. -/
def after (calls : List Check) (r : Redis) : Redis :=
  calls.foldl (fun r c => (L.check P c r).2) r

/-! ## Windows -/

/-- A window: when its first call came, and how many calls it has had. -/
structure Window where
  start : Nat
  count : Nat
  deriving DecidableEq, Repr

/-- The window a call at `t` falls in. -/
def Window.next (length : Nat) (last : Option Window) (t : Nat) : Window :=
  match last with
  | some w => if t < w.start + length then ⟨w.start, w.count + 1⟩ else ⟨t, 1⟩
  | none => ⟨t, 1⟩

/-- The last window of a group whose calls came at `ts`. -/
def Window.last (length : Nat) (ts : List Nat) : Option Window :=
  ts.foldl (fun w t => some (Window.next length w t)) none

theorem Window.last_append (length : Nat) (ts : List Nat) (t : Nat) :
    Window.last length (ts ++ [t]) = some (Window.next length (Window.last length ts) t) := by
  simp [Window.last]

/-- The group of a check: its host, and the email as `login` looks it up. -/
def Check.group (c : Check) : String × String := (c.clientHost, P.lower (strip c.email))

/-- When the calls of `c`'s group came. -/
def groupTimes (c : Check) (calls : List Check) : List Nat :=
  (calls.filter fun d => d.group P = c.group P).map Check.time

/-- What the place in a window decides, whatever the time left. -/
def Decides (k : Nat) (d : RateLimitDecision) : Prop :=
  d.allowed = decide (k ≤ L.limit) ∧ d.limit = L.limit ∧ d.remaining = max 0 ((L.limit : Int) - k) ∧
    1 ≤ d.retryAfterSeconds ∧ d.degraded = false

/-! ## One key -/

/-- The entry that stands for a window. -/
def Window.entry (length : Nat) (w : Window) : Redis.Entry := ⟨w.count, some (w.start + length)⟩

theorem Window.next_count_pos (length : Nat) (last : Option Window) (t : Nat) :
    0 < (Window.next length last t).count := by
  unfold Window.next
  split
  · split_ifs <;> simp
  · simp

theorem Window.last_count_pos {length : Nat} {ts : List Nat} {w : Window}
    (h : Window.last length ts = some w) : 0 < w.count := by
  rcases List.eq_nil_or_concat ts with rfl | ⟨ts, t, rfl⟩
  · cases h
  · rw [List.concat_eq_append, Window.last_append] at h
    exact Option.some.inj h ▸ Window.next_count_pos ..

/-- What a check is answered in a window. -/
def Window.decision (w : Window) (now : Nat) : RateLimitDecision :=
  .ofReply L.limit (some (w.count, Redis.secondsLeft (w.start + L.windowSeconds * 1000) now))

theorem decides_decision (w : Window) (now : Nat) : L.Decides w.count (w.decision L now) := by
  refine ⟨by simp [Window.decision, RateLimitDecision.ofReply], rfl, rfl, ?_, rfl⟩
  exact le_max_left ..

/-- A script that finds no live counter starts one, and lets it expire. -/
theorem script_fresh {r : Redis} {key : String} {now window : Nat} (h : r.live now key = none)
    (hpos : 1 ≤ window) :
    r.fixedWindowScript now key window =
      ((1, Redis.secondsLeft (now + window * 1000) now),
        Function.update r key (some ⟨1, some (now + window * 1000)⟩)) := by
  have hlive : Redis.live (Function.update r key (some ⟨1, none⟩)) now key = some ⟨1, none⟩ := by
    simp [Redis.live]
  have hlive' : Redis.live (Function.update r key (some ⟨1, some (now + window * 1000)⟩)) now key =
      some ⟨1, some (now + window * 1000)⟩ := by
    simp [Redis.live]
    omega
  have hexpire : Redis.expire (Function.update r key (some ⟨1, none⟩)) now key window =
      Function.update r key (some ⟨1, some (now + window * 1000)⟩) := by
    rw [Redis.expire, hlive]
    simp
  rw [Redis.fixedWindowScript, Redis.incr, h]
  simp only [if_true, hexpire, Redis.ttl, hlive']

/-- A script that finds a live counter raises it, and leaves its expiry alone. -/
theorem script_running {r : Redis} {key : String} {now window t : Nat} {n : Int} (hn : 0 < n)
    (h : r key = some ⟨n, some t⟩) (ht : now < t) :
    r.fixedWindowScript now key window =
      ((n + 1, Redis.secondsLeft t now), Function.update r key (some ⟨n + 1, some t⟩)) := by
  have hlive : r.live now key = some ⟨n, some t⟩ := by
    simp [Redis.live, h, ht]
  have hlive' : Redis.live (Function.update r key (some ⟨n + 1, some t⟩)) now key =
      some ⟨n + 1, some t⟩ := by
    simp [Redis.live, ht]
  rw [Redis.fixedWindowScript, Redis.incr, hlive]
  have hne : ¬ n + 1 = 1 := by omega
  simp only [hne, if_false, Redis.ttl, hlive']

/-- **The script counts a call into the window it falls in.** -/
theorem script_spec {r : Redis} {key : String} {now : Nat} {last : Option Window}
    (hr : r key = last.map (Window.entry (L.windowSeconds * 1000)))
    (hpos : ∀ w, last = some w → 0 < w.count) :
    let w := Window.next (L.windowSeconds * 1000) last now
    r.fixedWindowScript now key L.windowSeconds =
      (((w.count : Int), Redis.secondsLeft (w.start + L.windowSeconds * 1000) now),
        Function.update r key (some (w.entry (L.windowSeconds * 1000)))) := by
  cases last with
  | none =>
    have hlive : r.live now key = none := by simp [Redis.live, hr]
    exact script_fresh hlive L.window_pos
  | some w =>
    by_cases ht : now < w.start + L.windowSeconds * 1000
    · have hw : Window.next (L.windowSeconds * 1000) (some w) now = ⟨w.start, w.count + 1⟩ := by
        rw [Window.next, if_pos ht]
      have hcount : (0 : Int) < w.count := by exact_mod_cast hpos w rfl
      simp only [hw]
      rw [script_running hcount hr ht]
      rfl
    · have hw : Window.next (L.windowSeconds * 1000) (some w) now = ⟨now, 1⟩ := by
        rw [Window.next, if_neg ht]
      have hlive : r.live now key = none := by simp [Redis.live, hr, Window.entry, ht]
      simp only [hw]
      rw [script_fresh hlive L.window_pos]
      rfl

/-! ## All keys -/

/-- The key of a check's counter. -/
def Check.key (c : Check) : String :=
  keyPrefix "login" ++ P.sha256Hex (c.normalizedIdentity P).toUTF8

theorem isScope_login : isScope "login" = true := by decide +kernel

theorem rateLimitKey_login (c : Check) :
    rateLimitKey P "login" (c.normalizedIdentity P) = .ok (c.key P) := by
  rw [rateLimitKey, if_pos isScope_login, Check.key]

theorem check_eq (c : Check) (r : Redis) :
    L.check P c r =
      (.ok (.ofReply L.limit (some (r.fixedWindowScript c.time (c.key P) L.windowSeconds).1)),
        (r.fixedWindowScript c.time (c.key P) L.windowSeconds).2) := by
  rw [check, rateLimitKey_login]

/-- The hash has no collision among the identities of `calls`, and no email of them has a
colon. -/
structure Separated (calls : List Check) : Prop where
  hash : ∀ c ∈ calls, ∀ d ∈ calls, P.sha256Hex (c.normalizedIdentity P).toUTF8 =
    P.sha256Hex (d.normalizedIdentity P).toUTF8 → c.normalizedIdentity P = d.normalizedIdentity P
  colon : ∀ c ∈ calls, ':' ∉ (P.lower (strip c.email)).toList

variable {P L}

/-- The last colon of a text is where the part without colons starts. -/
theorem eq_of_last_colon {a b x y : List Char} (hx : ':' ∉ x) (hy : ':' ∉ y)
    (h : a ++ ':' :: x = b ++ ':' :: y) : a = b ∧ x = y := by
  rcases List.append_eq_append_iff.mp h with ⟨m, rfl, he⟩ | ⟨m, rfl, he⟩ <;> cases m with
  | nil => exact ⟨by simp, by simpa [eq_comm] using he⟩
  | cons c m =>
    obtain ⟨-, rfl⟩ := List.cons.inj he
    first
      | exact absurd (by simp) hx
      | exact absurd (by simp) hy

/-- Identities separated by their last colon are told apart by host and email. -/
theorem group_of_identity {c d : Check} (hc : ':' ∉ (P.lower (strip c.email)).toList)
    (hd : ':' ∉ (P.lower (strip d.email)).toList)
    (h : c.normalizedIdentity P = d.normalizedIdentity P) : c.group P = d.group P := by
  have h := congrArg String.toList h
  simp only [Check.normalizedIdentity, String.toList_append] at h
  rw [show ":".toList = [':'] from rfl, List.append_assoc, List.append_assoc] at h
  obtain ⟨h₁, h₂⟩ := eq_of_last_colon hc hd h
  exact Prod.ext (String.toList_injective h₁) (String.toList_injective h₂)

theorem key_eq_iff {calls : List Check} (hs : Separated P calls) {c d : Check} (hc : c ∈ calls)
    (hd : d ∈ calls) : c.key P = d.key P ↔ c.group P = d.group P := by
  constructor
  · intro h
    have hhash := (String.append_right_inj _).mp h
    exact group_of_identity (hs.colon c hc) (hs.colon d hd) (hs.hash c hc d hd hhash)
  · intro h
    obtain ⟨h₁, h₂⟩ := Prod.mk.inj h
    rw [Check.key, Check.key, Check.normalizedIdentity, Check.normalizedIdentity, h₁, h₂]

theorem groupTimes_append (c d : Check) (calls : List Check) :
    groupTimes P c (calls ++ [d]) =
      groupTimes P c calls ++ if d.group P = c.group P then [d.time] else [] := by
  rw [groupTimes, groupTimes, List.filter_append, List.map_append]
  by_cases h : d.group P = c.group P <;> simp [h]

theorem groupTimes_congr {c d : Check} (h : c.group P = d.group P) (calls : List Check) :
    groupTimes P c calls = groupTimes P d calls := by
  rw [groupTimes, groupTimes, h]

theorem after_append (calls : List Check) (c : Check) (r : Redis) :
    L.after P (calls ++ [c]) r = (L.check P c (L.after P calls r)).2 := by
  simp [after]

/-- The counter of each group stands for its last window. -/
theorem counter_of_group {all : List Check} (hs : Separated P all) {r : Redis}
    (hr : ∀ c ∈ all, r (c.key P) = none) {calls : List Check} (hsub : calls ⊆ all) {c : Check}
    (hc : c ∈ all) :
    L.after P calls r (c.key P) = (Window.last (L.windowSeconds * 1000)
      (groupTimes P c calls)).map (Window.entry (L.windowSeconds * 1000)) := by
  induction calls using List.reverseRecOn generalizing c with
  | nil => exact hr c hc
  | append_singleton calls d ih =>
    have hd : d ∈ all := hsub (by simp)
    have hcalls : calls ⊆ all := fun x hx => hsub (by simp [hx])
    rw [after_append, check_eq, script_spec L (ih hcalls hd) fun w hw => Window.last_count_pos hw,
      groupTimes_append]
    dsimp only
    by_cases hg : d.group P = c.group P
    · rw [if_pos hg, Window.last_append, (key_eq_iff hs hc hd).mpr hg.symm, Function.update_self,
        groupTimes_congr hg]
      rfl
    · rw [if_neg hg, List.append_nil, Function.update_of_ne]
      · exact ih hcalls hc
      · exact fun h => hg ((key_eq_iff hs hc hd).mp h).symm

/-- A check is answered by its place in its group's window. -/
theorem check_after {all : List Check} (hs : Separated P all) {r : Redis}
    (hr : ∀ c ∈ all, r (c.key P) = none) {calls : List Check} (hsub : calls ⊆ all) {c : Check}
    (hc : c ∈ all) :
    (L.check P c (L.after P calls r)).1 = .ok ((Window.next (L.windowSeconds * 1000)
      (Window.last (L.windowSeconds * 1000) (groupTimes P c calls)) c.time).decision L c.time) := by
  rw [check_eq, script_spec L (counter_of_group hs hr hsub hc) fun w hw => Window.last_count_pos hw]
  rfl

/-- The account `login` finds for an email. -/
def account (P : Platform) (email : String) (db : Db) : Option User :=
  (db .users).find? fun u => u.email = P.lower (strip email)

/-- `login` uses its email to find the account, and for nothing else. -/
theorem login_by_account (X : Security) (C : Settings) (password : String) :
    ∃ answer : Option User → Service TokenPair, ∀ email,
      AuthService.login P X C email password = (do answer (← Service.select (account P email))) :=
  ⟨_, fun _ => rfl⟩

/-- Emails under which one account is found are in one group. -/
theorem group_of_account {db : Db} {user : User} {email email' : String} (host : String)
    (t t' : Nat) (h : account P email db = some user) (h' : account P email' db = some user) :
    (Check.mk email host t).group P = (Check.mk email' host t').group P := by
  have he : user.email = P.lower (strip email) := by simpa using List.find?_some h
  have he' : user.email = P.lower (strip email') := by simpa using List.find?_some h'
  exact Prod.ext rfl (he.symm.trans he')

/-- **Login attempts are limited per account and host in every window** (module doc). -/
theorem checks_are_windowed (P : Platform) (L : LoginRateLimiter) (calls : List Check)
    (hs : Separated P calls) (r : Redis) (hr : ∀ c ∈ calls, r (c.key P) = none) :
    (∀ before c rest, calls = before ++ c :: rest →
      ∃ d w, (L.check P c (L.after P before r)).1 = .ok d ∧
        Window.last (L.windowSeconds * 1000) (groupTimes P c (before ++ [c])) = some w ∧
        L.Decides w.count d ∧
        L.after P (before ++ [c]) r (c.key P) =
          some ⟨w.count, some (w.start + L.windowSeconds * 1000)⟩ ∧
        (L.check P c (L.after P (before.filter fun b => b.group P = c.group P) r)).1 = .ok d) ∧
      (∀ c ∈ calls, ∀ e, L.after P calls r (c.key P) = some e → e.expiresAt ≠ none) ∧
      (∀ (X : Security) (C : Settings) (password : String),
        ∃ answer : Option User → Service TokenPair, ∀ email,
          AuthService.login P X C email password =
            (do answer (← Service.select (account P email)))) ∧
      ∀ (db : Db) (user : User) (email email' host : String) (t t' : Nat),
        account P email db = some user → account P email' db = some user →
          (Check.mk email host t).group P = (Check.mk email' host t').group P := by
  refine ⟨?_, ?_, fun X C password => login_by_account X C password,
    fun db user email email' host t t' h h' => group_of_account host t t' h h'⟩
  · rintro before c rest rfl
    have hc : c ∈ before ++ c :: rest := by simp
    have hbefore : before ⊆ before ++ c :: rest := List.subset_append_left ..
    have hown : (before.filter fun b => b.group P = c.group P) ⊆ before ++ c :: rest :=
      fun b hb => hbefore (List.mem_of_mem_filter hb)
    have hlast : groupTimes P c (before ++ [c]) = groupTimes P c before ++ [c.time] := by
      rw [groupTimes_append, if_pos rfl]
    have htimes : groupTimes P c (before.filter fun b => b.group P = c.group P) =
        groupTimes P c before := by
      rw [groupTimes, groupTimes, List.filter_filter]
      simp
    refine ⟨_, _, check_after hs hr hbefore hc, by rw [hlast, Window.last_append],
      L.decides_decision _ _, ?_, ?_⟩
    · rw [counter_of_group hs hr (by simp) hc, hlast, Window.last_append]
      rfl
    · rw [check_after hs hr hown hc, htimes]
  · intro c hc e he
    rw [counter_of_group hs hr (List.Subset.refl calls) hc] at he
    obtain ⟨w, -, rfl⟩ := Option.map_eq_some_iff.mp he
    nofun

/-- A platform whose hash is SHA-256 on the identities of `threeChecks`. -/
def digesting : Platform :=
  { Platform.plain with
    sha256Hex := fun data =>
      if data.data = "h:a@b".toUTF8.data then
        "424bc34b40e628e69cc20c29aec8590414625d5bfe83cbb309ddda50d43fe309"
      else if data.data = "h:c@d".toUTF8.data then
        "e3262b5807a25fa2b8ab33e7cf274bd73c44d197812f3a9f6e2fb229dd046841"
      else "" }

def twoPerSecond : LoginRateLimiter := ⟨2, 1, by decide, by decide⟩

def threeChecks : List Check := [⟨"a@b", "h", 0⟩, ⟨" a@b", "h", 10⟩, ⟨"c@d", "h", 20⟩]

theorem separated_threeChecks : Separated digesting threeChecks :=
  ⟨by decide +kernel, by decide +kernel⟩

/-- The second spelling of an email counts with the first. -/
theorem threeChecks_are_windowed :
    ∃ d w, (twoPerSecond.check digesting ⟨" a@b", "h", 10⟩
        (twoPerSecond.after digesting [⟨"a@b", "h", 0⟩] fun _ => none)).1 = .ok d ∧
      Window.last 1000 (groupTimes digesting ⟨" a@b", "h", 10⟩
        [⟨"a@b", "h", 0⟩, ⟨" a@b", "h", 10⟩]) = some w ∧
      twoPerSecond.Decides w.count d := by
  obtain ⟨d, w, hd, hw, hn, -⟩ := (checks_are_windowed digesting twoPerSecond threeChecks
    separated_threeChecks (fun _ => none) fun _ _ => rfl).1 [⟨"a@b", "h", 0⟩] _ _ rfl
  exact ⟨d, w, hd, hw, hn⟩

end LoginRateLimiter

end Ticketing
