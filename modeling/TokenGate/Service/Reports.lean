/-
The responses of the forge in a course of events.

A validation that hears an answer takes in the response that brought it, and any other call of the forge reports on its
own. What the validations make of the answers does not matter here. The forge has no calls left when the responses have
said so last, until a renewal that they have told of.
-/
import TokenGate.Budget.History
import TokenGate.Service.Course

namespace TokenGate

variable {Q : Type} {Answer : Q → Type}

namespace Service

variable [DecidableEq Q]

/-- The response that is taken in with an event. -/
def received? (w : Wiring Answer) (s : Service Answer) : Event Answer → Option Http.Headers
  | .answer id q a => (s.heard? id (.answer id q a)).map fun x => w.provider.headers x.1 x.2
  | .report hs => .some hs
  | _ => .none

/-- The responses that are taken in in the course of `events`, in order. -/
def received (w : Wiring Answer) (s : Service Answer) : List (Event Answer) → List Http.Headers
  | [] => []
  | e :: events => (s.received? w e).toList ++ received w (s.step w e).1 events

end Service

end TokenGate
