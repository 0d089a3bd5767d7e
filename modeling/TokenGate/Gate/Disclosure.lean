/-
Denials, and what there is to know when one is answered.

A validation ends in a denial when it fails, with whatever error, and also when it comes to an identity that cannot be
told. A denial is answered at the gate, where any number of requests may wait, or by the server, which attends to one
request at a time. When that happens there is a time, and the budget is renewed at a time, if that is known. All else is
between the gate and whoever asks: the token, the state of the service, what the provider is and what it answers.
-/
import TokenGate.Gate.Admission

namespace TokenGate

namespace Gate

/-- What the validation of a token came to is a denial of this kind. -/
inductive EndsIn : Except ValidationError Identity → Denial → Prop where
  | failed (e : ValidationError) : EndsIn (.error e) e.denial
  /-- An identity that cannot be told is an internal failure. -/
  | untold {i : Identity} : ¬ CanTell i → EndsIn (.ok i) .internal

/-- Somebody is answered with `r` at the Unix time `now`, when the budget is known to be renewed at `resetAt`, or not
known to be if that is zero; of the response, only the head is given if `headOnly` says so. -/
inductive Given : (resetAt now : Nat) → (headOnly : Bool) → Http.Response → Prop where
  /-- One of the requests at the gate is responded to with an input. -/
  | responded {Q : Type} {Answer : Q → Type} [DecidableEq Q] {w : Wiring Answer} {limit epoch : Nat}
      {t : Traffic Answer} {i : Traffic.Input Answer} {s' : Service Answer} {id : Nat} {r : Http.Response}
      (hafter : (t.step w limit epoch i).1.service = s') (hresponse : .responded id r ∈ (t.step w limit epoch i).2) :
      Given s'.budget.resetAt (s'.unixTime epoch) false r
  /-- The server attends to a request, whatever that is for. -/
  | served {Q : Type} {Answer : Q → Type} [DecidableEq Q] {w : Wiring Answer} {outside : Outside Answer}
      {timeout epoch : Nat} {s s' : Service Answer} {request : Http.Request} {peer : Option Net.SocketAddress}
      {r : Http.Response}
      (hasks : ∀ token, (Validation.resolve w.provider w.policy token).AsksAtMost Simulation.tasksPerJob)
      (hafter : (Server.serve w outside s timeout epoch request peer).1 = s')
      (hresponse : (Server.serve w outside s timeout epoch request peer).2.1.response = r) :
      Given s'.budget.resetAt (s'.unixTime epoch) (request.method == "HEAD") r

/-- Somebody is answered with `r` because the validation of a token ends in a denial of the kind `d`. -/
inductive Denied (d : Denial) : (resetAt now : Nat) → (headOnly : Bool) → Http.Response → Prop where
  /-- The validation of one of the requests at the gate is finished with an input. -/
  | finished {Q : Type} {Answer : Q → Type} [DecidableEq Q] {w : Wiring Answer} {limit epoch : Nat}
      {t : Traffic Answer} {i : Traffic.Input Answer} {e : Event Answer} {opened : List (Nat × Nat)}
      {s' : Service Answer} {id : Nat} {result : Except ValidationError Identity} {r : Http.Response}
      (heffect : t.effect? limit i = .some (e, opened)) (hfinished : .finished id result ∈ (t.service.step w e).2)
      (hends : EndsIn result d) (hafter : (t.step w limit epoch i).1.service = s')
      (hresponse : .responded id r ∈ (t.step w limit epoch i).2) :
      Denied d s'.budget.resetAt (s'.unixTime epoch) false r
  /-- The server attends to a request for the gate that bears a token. -/
  | served {Q : Type} {Answer : Q → Type} [DecidableEq Q] {w : Wiring Answer} {outside : Outside Answer}
      {timeout epoch : Nat} {s s' : Service Answer} {request : Http.Request} {peer : Option Net.SocketAddress}
      {token : String} {r : Http.Response}
      (hroute : Http.Route.ofPath? (Http.Route.pathOf request.target) = .some .validate)
      (hasks : (Validation.resolve w.provider w.policy token).AsksAtMost Simulation.tasksPerJob)
      (hclaims : ¬ ClaimsIdentity request.headers) (hbears : Bears request.headers token)
      (hends : EndsIn (s.validated w outside timeout token) d)
      (hafter : (Server.serve w outside s timeout epoch request peer).1 = s')
      (hresponse : (Server.serve w outside s timeout epoch request peer).2.1.response = r) :
      Denied d s'.budget.resetAt (s'.unixTime epoch) (request.method == "HEAD") r

/-- The header that tells after how many seconds to try again. -/
def retryAfter? (r : Http.Response) : Option String :=
  r.headers.lookup "retry-after"

end Gate

end TokenGate
