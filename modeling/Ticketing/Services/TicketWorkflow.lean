import Ticketing.Model.World

/-!
# `services/ticket_workflow.py`

The transitions of a ticket's status: `transitions` is `_TRANSITIONS` and `nextTicketStatus` is
`next_ticket_status`, whose exception is already the one `TicketService._next_status` turns it
into. `eventTypes` is the table of `_save_action` from an action to the event it writes.
-/

namespace Ticketing

/-- `_TRANSITIONS`. -/
def transitions : TicketAction → List (TicketStatus × TicketStatus)
  | .claim => [(.open, .inProgress)]
  | .transfer => [(.inProgress, .inProgress)]
  | .resolve => [(.inProgress, .resolved)]
  | .reopen => [(.resolved, .open), (.closed, .open)]
  | .close => [(.resolved, .closed)]

/-- `next_ticket_status`, with the exception `TicketService._next_status` turns its own into. -/
def nextTicketStatus (currentStatus : TicketStatus) (action : TicketAction) :
    Except Exn TicketStatus :=
  match (transitions action).lookup currentStatus with
  | some next => .ok next
  | none => .error (.ticketTransitionConflict action currentStatus)

/-- `event_types` of `_save_action`. -/
def eventTypes : TicketAction → TicketEventType
  | .claim => .claimed
  | .transfer => .transferred
  | .resolve => .resolved
  | .reopen => .reopened
  | .close => .closed

end Ticketing
