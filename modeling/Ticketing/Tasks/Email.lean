import Ticketing.Model.World

/-!
# `tasks/email.py`: the SMTP dialogue

`SMTPEmailSender.send` as the stages it goes through, each of which may raise: writing the
message, connecting, `STARTTLS` and `AUTH` where they are configured, `send_message`, and the
`QUIT` with which `smtplib.SMTP.__exit__` leaves the `with` block, whether by its end or by an
exception.

* A `Dialogue` says which stages raise, and with what text. `result` is how `send` ends.
* `accepted`: the server has accepted the message, that is, `send_message` has returned.

**`result_ok_iff`**: once the message is accepted, `send` returns exactly when `QUIT` does not
fail.

Out of scope: `ConsoleEmailSender`, which only writes a log line, and how long a stage may take.
-/

namespace Ticketing

inductive SmtpStage
  | compose
  | connect
  | starttls
  | login
  | sendMessage
  | quit
  deriving DecidableEq, Repr

/-- The text of the exception a stage raises, if it raises. -/
abbrev Dialogue := SmtpStage → Option String

structure SMTPEmailSender where
  starttls : Bool
  username : Option String

namespace SMTPEmailSender

variable (S : SMTPEmailSender) (d : Dialogue)

/-- The stages of the `with` block. -/
def block : List SmtpStage :=
  (if S.starttls then [.starttls] else []) ++ (if S.username.isSome then [.login] else []) ++
    [.sendMessage]

/-- The first exception of a sequence of stages. -/
def firstError : List SmtpStage → Option String
  | [] => none
  | stage :: stages => match d stage with
    | some text => some text
    | none => firstError stages

/-- Leaving the `with` block: an exception of `__exit__` takes the place of the block's. -/
def leave (raised : Option String) : Except String Unit :=
  match d .quit, raised with
  | some text, _ => .error text
  | none, some text => .error text
  | none, none => .ok ()

/-- How `send` ends. -/
def result : Except String Unit :=
  match firstError d [.compose, .connect] with
  | some text => .error text
  | none => leave d (firstError d S.block)

/-- The server has accepted the message. -/
def accepted : Bool := (firstError d ([.compose, .connect] ++ S.block)).isNone

variable {S d}

theorem firstError_append (l l' : List SmtpStage) :
    firstError d (l ++ l') = (firstError d l).or (firstError d l') := by
  induction l with
  | nil => rfl
  | cons stage l ih =>
    rw [List.cons_append, firstError, firstError]
    cases d stage with
    | some text => rfl
    | none => exact ih

/-- **A message handed over makes `send` return exactly when `QUIT` does not fail.** -/
theorem result_ok_iff (h : S.accepted d = true) : S.result d = .ok () ↔ d .quit = none := by
  rw [accepted, firstError_append, Option.isNone_iff_eq_none, Option.or_eq_none_iff] at h
  rw [result, h.1]
  dsimp only
  rw [h.2]
  cases hq : d .quit <;> simp [leave, hq]

end SMTPEmailSender

end Ticketing
