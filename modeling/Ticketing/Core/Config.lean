import Mathlib.Data.String.Basic

/-!
# `core/config.py`

`Settings`: the fields the modelled code reads, with their names, defaults and bounds (`Bounded`),
and `reject_insecure_production_secret`, the validator over all of them.

* `Accepted` is what pydantic lets through: every field within its bounds, and the validator
  content.
* `accepted_default`: the defaults of the class are accepted.

Out of scope: the fields that only set up the application (URLs, pool sizes, log level), and where
the values come from.
-/

namespace Ticketing

inductive Environment
  | «local»
  | test
  | staging
  | production
  deriving DecidableEq, Repr

inductive EmailBackend
  | console
  | smtp
  deriving DecidableEq, Repr

/-- `backend_name` of the two senders. -/
def EmailBackend.name : EmailBackend → String
  | .console => "console_simulation"
  | .smtp => "smtp"

structure Settings where
  environment : Environment := .local
  authSecretKey : String := "development-only-change-me-32-chars"
  accessTokenTtlMinutes : Nat := 15
  refreshTokenTtlDays : Nat := 7
  attachmentMaxSizeBytes : Nat := 5 * 1024 * 1024
  permissionCacheTtlSeconds : Nat := 300
  permissionCacheTtlJitterSeconds : Nat := 30
  backgroundJobMaxAttempts : Nat := 5
  backgroundJobLeaseSeconds : Nat := 120
  backgroundJobSoftTimeLimitSeconds : Nat := 60
  backgroundJobHardTimeLimitSeconds : Nat := 75
  backgroundJobRetryBaseSeconds : Nat := 2
  backgroundJobRetryMaxSeconds : Nat := 300
  outboxBatchSize : Nat := 100
  exportMaxRows : Nat := 10000
  emailBackend : EmailBackend := .console
  smtpHost : Option String := none
  deriving DecidableEq, Repr

namespace Settings

/-- `Field(ge=lo, le=hi)`. -/
def Within (lo hi n : Nat) : Prop := lo ≤ n ∧ n ≤ hi

instance (lo hi n : Nat) : Decidable (Within lo hi n) := inferInstanceAs (Decidable (_ ∧ _))

/-- The bounds of the fields. -/
def Bounded (s : Settings) : Prop :=
  Within 1 60 s.accessTokenTtlMinutes ∧
  Within 1 30 s.refreshTokenTtlDays ∧
  Within 1 (50 * 1024 * 1024) s.attachmentMaxSizeBytes ∧
  Within 1 3600 s.permissionCacheTtlSeconds ∧
  Within 0 300 s.permissionCacheTtlJitterSeconds ∧
  Within 1 20 s.backgroundJobMaxAttempts ∧
  Within 10 3600 s.backgroundJobLeaseSeconds ∧
  Within 1 3600 s.backgroundJobSoftTimeLimitSeconds ∧
  Within 2 3600 s.backgroundJobHardTimeLimitSeconds ∧
  Within 1 300 s.backgroundJobRetryBaseSeconds ∧
  Within 1 3600 s.backgroundJobRetryMaxSeconds ∧
  Within 1 1000 s.outboxBatchSize ∧
  Within 1 100000 s.exportMaxRows

instance (s : Settings) : Decidable s.Bounded := inferInstanceAs (Decidable (_ ∧ _))

/-- `reject_insecure_production_secret`. -/
def rejectInsecureProductionSecret (s : Settings) : Except String Settings :=
  if s.environment = .production ∧ (s.authSecretKey.length < 32 ∨ s.authSecretKey ∈
      ["development-only-change-me-32-chars", "replace-with-at-least-32-random-characters"]) then
    throw "Production requires a non-placeholder auth secret of 32+ characters"
  else if s.backgroundJobHardTimeLimitSeconds ≤ s.backgroundJobSoftTimeLimitSeconds then
    throw "Background job hard time limit must exceed the soft time limit"
  else if s.backgroundJobRetryMaxSeconds < s.backgroundJobRetryBaseSeconds then
    throw "Background job retry maximum must be at least the retry base"
  else if s.emailBackend = .smtp ∧ s.smtpHost = none then
    throw "SMTP email backend requires smtp_host"
  else pure s

/-- What the validators accept. -/
def Accepted (s : Settings) : Prop := s.Bounded ∧ s.rejectInsecureProductionSecret = .ok s

/-- The defaults pass their own checks. -/
theorem accepted_default : ({} : Settings).Accepted := ⟨by decide, rfl⟩

end Settings

end Ticketing
