import Ticketing.Services.Ticket

/-!
# `schemas/ticket.py`, `schemas/ticket_collaboration.py` and `schemas/customer.py`

The request models that carry texts into tickets, comments, events and customers. A model is
checked field by field; `validate` is `none` where it is refused (422).

* All of them set `str_strip_whitespace`: `trim` removes the characters with the Unicode
  White_Space property, then `TextField.validate` checks the lengths of a `Field`.
* `TicketUpdateRequest` and `CustomerUpdateRequest`: the fields that are set are those given,
  `none` inside being a null. `requireUpdateField` is `require_update_field`, and `changes` is
  what the endpoint makes of the request for the service.
* What `EmailStr` makes of an address is the parameter `validateEmail`.

`isSpace_iff`: `str.strip`, with which the services strip a text once more, removes U+001C to
U+001F as well, which `trim` leaves. `Concurrency.Texts` says what comes of it.
-/

namespace Ticketing

open Lib.Text (isSpace stripChars)

/-- The characters with the Unicode White_Space property. -/
def isWhiteSpace (c : Char) : Bool :=
  let n := c.toNat
  (9 ≤ n && n ≤ 13) || n == 32 || n == 0x85 || n == 0xA0 || n == 0x1680 ||
    (0x2000 ≤ n && n ≤ 0x200A) || n == 0x2028 || n == 0x2029 || n == 0x202F || n == 0x205F ||
    n == 0x3000

/-- `str.strip` removes four characters more than a request model does. -/
theorem isSpace_iff (c : Char) :
    isSpace c = true ↔ isWhiteSpace c = true ∨ 0x1C ≤ c.toNat ∧ c.toNat ≤ 0x1F := by
  simp only [isSpace, isWhiteSpace, Bool.or_eq_true, Bool.and_eq_true, decide_eq_true_eq,
    beq_iff_eq]
  omega

/-- `str_strip_whitespace`. -/
def trim (s : String) : String := String.ofList (stripChars isWhiteSpace s.toList)

/-- `Field(min_length=…, max_length=…)` of a text. -/
structure TextField where
  minLength : Nat
  maxLength : Nat
  deriving DecidableEq, Repr

/-- The text as the model keeps it, if it is accepted. -/
def TextField.validate (f : TextField) (s : String) : Option String :=
  if f.minLength ≤ (trim s).length ∧ (trim s).length ≤ f.maxLength then some (trim s) else none

/-- A field that may be null. -/
def TextField.validateOptional (f : TextField) : Option String → Option (Option String)
  | none => some none
  | some s => (f.validate s).map some

/-- A field that may be missing, or null. -/
def TextField.validateUnset (f : TextField) :
    Option (Option String) → Option (Option (Option String))
  | none => some none
  | some s => (f.validateOptional s).map some

namespace TextField

def subject : TextField := ⟨3, 200⟩
def description : TextField := ⟨1, 10000⟩
def note : TextField := ⟨1, 2000⟩
def body : TextField := ⟨1, 5000⟩
def name : TextField := ⟨2, 100⟩
def phone : TextField := ⟨3, 32⟩

theorem validate_eq_some {f : TextField} {s t : String} (h : f.validate s = some t) :
    t = trim s ∧ f.minLength ≤ t.length ∧ t.length ≤ f.maxLength := by
  unfold validate at h
  split at h
  · rename_i hl
    cases h
    exact ⟨rfl, hl⟩
  · cases h

end TextField

structure TicketCreateRequest where
  customerId : Option UUID := none
  subject : String
  description : String
  priority : TicketPriority := .normal
  deriving DecidableEq, Repr

def TicketCreateRequest.validate (r : TicketCreateRequest) : Option TicketCreateRequest := do
  let subject ← TextField.subject.validate r.subject
  let description ← TextField.description.validate r.description
  pure { r with subject, description }

structure TicketUpdateRequest where
  subject : Option (Option String) := none
  description : Option (Option String) := none
  priority : Option (Option TicketPriority) := none
  deriving DecidableEq, Repr

namespace TicketUpdateRequest

/-- `model_fields_set`. -/
def fieldsSet (r : TicketUpdateRequest) : List String :=
  (if r.subject.isSome then ["subject"] else []) ++
    (if r.description.isSome then ["description"] else []) ++
    if r.priority.isSome then ["priority"] else []

/-- `require_update_field`. -/
def requireUpdateField (r : TicketUpdateRequest) : Option TicketUpdateRequest :=
  if r.fieldsSet = [] ∨ r.subject = some none ∨ r.description = some none ∨
      r.priority = some none then none
  else some r

def validate (r : TicketUpdateRequest) : Option TicketUpdateRequest := do
  let subject ← TextField.subject.validateUnset r.subject
  let description ← TextField.description.validateUnset r.description
  requireUpdateField { r with subject, description }

/-- The changes `update_ticket` passes on. -/
def changes (r : TicketUpdateRequest) : TicketChanges :=
  ⟨r.fieldsSet, r.subject.join, r.description.join, r.priority.join⟩

end TicketUpdateRequest

structure TicketActionRequest where
  note : Option String := none
  deriving DecidableEq, Repr

def TicketActionRequest.validate (r : TicketActionRequest) : Option TicketActionRequest := do
  let note ← TextField.note.validateOptional r.note
  pure { note }

structure TicketTransferRequest extends TicketActionRequest where
  assigneeMembershipId : UUID
  deriving DecidableEq, Repr

def TicketTransferRequest.validate (r : TicketTransferRequest) :
    Option TicketTransferRequest := do
  let action ← r.toTicketActionRequest.validate
  pure { r with toTicketActionRequest := action }

structure TicketCommentCreateRequest where
  body : String
  visibility : CommentVisibility := .public
  deriving DecidableEq, Repr

def TicketCommentCreateRequest.validate (r : TicketCommentCreateRequest) :
    Option TicketCommentCreateRequest := do
  let body ← TextField.body.validate r.body
  pure { r with body }

structure CustomerCreateRequest where
  name : String
  email : String
  phone : Option String := none
  deriving DecidableEq, Repr

/-- `validateEmail` is `EmailStr`. -/
def CustomerCreateRequest.validate (validateEmail : String → Option String)
    (r : CustomerCreateRequest) : Option CustomerCreateRequest := do
  let name ← TextField.name.validate r.name
  let email ← validateEmail r.email
  let phone ← TextField.phone.validateOptional r.phone
  pure { name, email, phone }

structure CustomerUpdateRequest where
  name : Option (Option String) := none
  email : Option (Option String) := none
  phone : Option (Option String) := none
  isActive : Option (Option Bool) := none
  deriving DecidableEq, Repr

namespace CustomerUpdateRequest

/-- `model_fields_set`. -/
def fieldsSet (r : CustomerUpdateRequest) : List String :=
  (if r.name.isSome then ["name"] else []) ++ (if r.email.isSome then ["email"] else []) ++
    (if r.phone.isSome then ["phone"] else []) ++ if r.isActive.isSome then ["is_active"] else []

/-- `require_update_field`. -/
def requireUpdateField (r : CustomerUpdateRequest) : Option CustomerUpdateRequest :=
  if r.fieldsSet = [] ∨ r.name = some none ∨ r.email = some none ∨ r.isActive = some none then none
  else some r

/-- An address that may be missing, or null. -/
def validateUnsetEmail (validateEmail : String → Option String) :
    Option (Option String) → Option (Option (Option String))
  | some (some email) => (validateEmail email).map fun email => some (some email)
  | unset => some unset

def validate (validateEmail : String → Option String) (r : CustomerUpdateRequest) :
    Option CustomerUpdateRequest := do
  let name ← TextField.name.validateUnset r.name
  let email ← validateUnsetEmail validateEmail r.email
  let phone ← TextField.phone.validateUnset r.phone
  requireUpdateField { r with name, email, phone }

/-- The changes `update_customer` passes on. -/
def changes (r : CustomerUpdateRequest) : CustomerChanges :=
  ⟨r.fieldsSet, r.name.join, r.email.join, r.phone.join, r.isActive.join⟩

end CustomerUpdateRequest

end Ticketing
