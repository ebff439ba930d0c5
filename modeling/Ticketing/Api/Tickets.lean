import Ticketing.Services.Auth
import Ticketing.Services.Ticket

/-!
# `api/dependencies.py` and `api/v1/tickets.py`: requests that change tickets

A request authenticates its caller and resolves its tenant in the session that the service then
uses, so its transaction has begun before the service's first query.

* `getCurrentTenant` is `get_current_user` and `get_current_tenant`: the access token names the
  user, the header `X-Tenant-ID` the tenant. `ensurePathTenant` is `ensure_path_tenant`.
* `TicketEndpoint` are the endpoints that write tickets, with what each of them passes to
  `TicketService`; `TicketRequest.serve` is a request from its token on.

Left out: the HTTP status an error becomes, the body of the response, and the validation of the
request body (`Schemas/Requests.lean`).
-/

namespace Ticketing

open Lib (Prog)

section Dependencies

variable (X : Security) (C : Settings)

/-- `get_current_user` and `get_current_tenant`. -/
def getCurrentTenant (rawToken : String) (xTenantId : UUID) : Service CurrentTenant := do
  let user ← AuthService.authenticateAccessToken X C rawToken
  TenantService.resolveCurrent user xTenantId

def ensurePathTenant (tenantId : UUID) (context : CurrentTenant) : Service Unit :=
  if context.tenant.id ≠ tenantId then throw .tenantNotFound else pure ()

theorem quiet_getCurrentTenant (rawToken : String) (xTenantId : UUID) :
    Service.Quiet (fun _ => True) (getCurrentTenant X C rawToken xTenantId) := by
  refine .bind (.bind (.bind (.perform trivial) fun now => ?_) fun claims => ?_) fun user => ?_
  · rcases TokenCodec.decode X C now rawToken .access with _ | claims <;> trivial
  · refine .bind (.perform trivial) fun found => ?_
    rcases found with _ | user
    · trivial
    · show Service.Quiet _ (if _ then _ else _)
      split <;> trivial
  · refine .bind (.perform trivial) fun found => ?_
    rcases found with _ | membership
    · trivial
    show Service.Quiet _ (if _ then _ else _)
    split
    · trivial
    · refine .bind (.perform trivial) fun found => ?_
      rcases found with _ | tenant
      · trivial
      · show Service.Quiet _ (if _ then _ else _)
        split <;> trivial

theorem quiet_ensurePathTenant (tenantId : UUID) (context : CurrentTenant) :
    Service.Quiet (fun _ => True) (ensurePathTenant tenantId context) := by
  unfold ensurePathTenant
  split <;> trivial

end Dependencies

/-- The endpoints that create or change a ticket. -/
inductive TicketEndpoint
  | createTicket (r : CreationRequest) (idempotencyKey : String)
  | updateTicket (ticketId : UUID) (changes : TicketChanges)
  | claimTicket (ticketId : UUID) (note : Option String)
  | transferTicket (ticketId assigneeMembershipId : UUID) (note : Option String)
  | resolveTicket (ticketId : UUID) (note : Option String)
  | reopenTicket (ticketId : UUID) (note : Option String)
  | closeTicket (ticketId : UUID) (note : Option String)
  deriving DecidableEq

namespace TicketEndpoint

abbrev Ret : TicketEndpoint → Type
  | createTicket .. => TicketCreationResult
  | _ => Ticket

/-- What the endpoint asks of the service. -/
def serve (P : Platform) (S : RBACService) (context : CurrentTenant) :
    (e : TicketEndpoint) → Service e.Ret
  | createTicket r key => TicketService.create P S context r key
  | updateTicket id changes => TicketService.update S context id changes
  | claimTicket id note => TicketService.claim S context id note
  | transferTicket id assignee note => TicketService.transfer S context id assignee note
  | resolveTicket id note => TicketService.resolve S context id note
  | reopenTicket id note => TicketService.reopen S context id note
  | closeTicket id note => TicketService.close S context id note

end TicketEndpoint

/-- A request: the bearer token, the tenant of the header and of the path, and the endpoint. -/
structure TicketRequest where
  rawToken : String
  xTenantId : UUID
  tenantId : UUID
  endpoint : TicketEndpoint
  deriving DecidableEq

def TicketRequest.serve (P : Platform) (X : Security) (C : Settings) (S : RBACService)
    (q : TicketRequest) : Service q.endpoint.Ret := do
  let context ← getCurrentTenant X C q.rawToken q.xTenantId
  ensurePathTenant q.tenantId context
  q.endpoint.serve P S context

end Ticketing
