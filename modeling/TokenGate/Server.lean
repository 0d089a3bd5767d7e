/-
Answering requests. The paths of the service are the gate, the health report, a sign that it is ready, and the
metrics page.
-/
import TokenGate.Config
import TokenGate.Health
import TokenGate.Metrics
import TokenGate.Simulation
import TokenGate.Traffic

namespace TokenGate

variable {Q : Type} {Answer : Q → Type}

/-- Whom a service with this configuration lets through. -/
def Config.policy (c : Config) : Policy := ⟨c.org, c.rejectClassicPats⟩

/-- The service with this configuration when it starts. -/
def Service.ofConfig (c : Config) : Service Answer :=
  Service.start (c.cacheTtl * Clock.second) c.cacheMaxSize

/-- What came of a request. -/
structure Served where
  response : Http.Response
  /-- Where the request came from, as the gate saw it; nothing where the request did not reach the gate. -/
  client : Option String
  /-- The header that only the gate may set, if the request had one. -/
  injected : Option String

namespace Server

/-- How far off the timer of a validation is put that begins at `now`, where the configuration grants it `secs`
seconds. -/
def deadline (now secs : Nat) : Nat :=
  Clock.postponed now (secs * Clock.second)

/-- What is served besides the gate. -/
def page (s : Service Answer) (unixTime : Nat) : Http.Route → Http.Response
  | .validate => .empty 200
  | .health =>
    let report := Health.report s.cache s.budget unixTime
    .ofJson report.status.httpStatus report.toJson
  | .ready => .ofText 200 "text/plain" "ok"
  | .metrics => .ofText 200 "application/openmetrics-text; version=1.0.0; charset=utf-8" (Metrics.page s)

variable [DecidableEq Q]

/-- What happens next at the gate while one request waits for the answer to a question, and when: the outside answers,
unless the timer of the request goes off before that. -/
def upcoming (outside : Outside Answer) (t : Traffic Answer) (id : Nat) (q : Q) : Option (Nat × Traffic.Input Answer) :=
  let now := t.service.now
  (t.deadlines.lookup id).map fun due =>
    match outside q with
    | .some (d, a) =>
      if Timer.isBefore now (now + d) due then (now + d, .answer id q a) else (Timer.goesOff now due, .expire id)
    | .none => (Timer.goesOff now due, .expire id)

/-- Goes on at the gate from the outputs of an input until the one request that waits is answered, if the fuel lasts:
its response, and the questions asked. -/
def attend (w : Wiring Answer) (outside : Outside Answer) (limit epoch : Nat) :
    (fuel : Nat) → Traffic Answer → List (Traffic.Output Q) → Traffic Answer × Option Http.Response × List Q
  | _, t, .responded _ r :: _ => (t, .some r, [])
  | fuel + 1, t, .asked id q :: _ =>
    match upcoming outside t id q with
    | .some (due, i) =>
      let t := if t.service.now < due then (t.step w limit epoch (.pass (due - t.service.now))).1 else t
      let (t, outputs) := t.step w limit epoch i
      let (t, r, qs) := attend w outside limit epoch fuel t outputs
      (t, r, q :: qs)
    | .none => (t, .none, [q])
  | _, t, _ => (t, .none, [])

/-- Lets a request through the gate or refuses it, where no other waits. A validation that has not come to an end within
`timeout` is given up. The clock started at the Unix time `epoch`. -/
def passGate (w : Wiring Answer) (outside : Outside Answer) (s : Service Answer) (timeout epoch : Nat)
    (hs : Http.Headers) : Service Answer × Http.Response × List Q :=
  match Gate.screen hs with
  | .error r => (s, r.response, [])
  | .ok _ =>
    let (t, outputs) := (Traffic.ofService s).step w timeout epoch (.request 0 hs)
    let (t, r, asked) := attend w outside timeout epoch Simulation.tasksPerJob t outputs
    let t := (t.step w timeout epoch .settle).1
    (t.service, r.getD (Gate.respond t.service.budget (t.service.unixTime epoch) (.error .cancelled)), asked)

/-- Answers a request. -/
def serve (w : Wiring Answer) (outside : Outside Answer) (s : Service Answer) (timeout epoch : Nat)
    (request : Http.Request) (peer : Option Net.SocketAddress) : Service Answer × Served × List Q :=
  let headOnly (r : Http.Response) := if request.method = "HEAD" then r.head else r
  match Http.Route.ofPath? (Http.Route.pathOf request.target) with
  | .none => (s, ⟨Http.notFound, .none, .none⟩, [])
  | .some route =>
    if !route.takes request.method then (s, ⟨Http.methodNotAllowed, .none, .none⟩, [])
    else if route = .validate then
      let (s, response, asked) := passGate w outside s timeout epoch request.headers
      (s, ⟨headOnly response, .some (Gate.client request.headers peer), Gate.injected? request.headers⟩, asked)
    else (s, ⟨headOnly (page s (s.unixTime epoch) route), .none, .none⟩, [])

end Server

end TokenGate
