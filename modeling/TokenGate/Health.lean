/-
The health report: whether the cache is swept, and whether calls of the forge are left.
-/
import TokenGate.Budget
import TokenGate.Cache.Basic
import TokenGate.Json.Value

namespace TokenGate

/-- The state of one part. -/
structure Check where
  ok : Bool
  detail : String
deriving DecidableEq

/-- The state of the service as a whole. -/
inductive HealthStatus where
  | ok
  | degraded
  | unhealthy
deriving DecidableEq

namespace HealthStatus

/-- The name of a state. -/
def name : HealthStatus → String
  | ok => "ok"
  | degraded => "degraded"
  | unhealthy => "unhealthy"

/-- The HTTP status that a report is answered with. -/
def httpStatus : HealthStatus → Nat
  | ok => 200
  | degraded => 200
  | unhealthy => 503

end HealthStatus

/-- A health report. -/
structure Health where
  cache : Check
  forge : Check
deriving DecidableEq

namespace Health

/-- The check of the cache. A cache that is switched off is never at fault. -/
def checkCache (c : Cache) : Check :=
  if c.ttl = 0 then ⟨true, "disabled"⟩
  else
    let detail := s!"{c.size} / {c.maxSize} entries"
    if c.isSweeping then ⟨true, detail⟩ else ⟨false, "sweeper not running (" ++ detail ++ ")"⟩

/-- The check of the budget at the Unix time `now`. -/
def checkBudget (b : Budget) (now : Nat) : Check :=
  match b.remaining with
  | .none => ⟨true, "rate limit not yet observed"⟩
  | .some 0 =>
    match b.retryAfter now with
    | .some 0 => ⟨true, "rate limit window has reset"⟩
    | .some secs => ⟨false, s!"rate limit exhausted, resets in {secs}s"⟩
    | .none => ⟨false, "rate limit exhausted"⟩
  | .some n => ⟨true, s!"{n} calls remaining"⟩

/-- The report on a cache and a budget at the Unix time `now`. -/
def report (c : Cache) (b : Budget) (now : Nat) : Health :=
  ⟨checkCache c, checkBudget b now⟩

/-- The state as a whole: a cache at fault counts more than a spent budget. -/
def status (h : Health) : HealthStatus :=
  if !h.cache.ok then .unhealthy else if !h.forge.ok then .degraded else .ok

/-- The JSON form of a check. -/
def checkJson (c : Check) : Json :=
  .object [Json.member "ok" (.bool c.ok), Json.member "detail" (.ofText c.detail)]

/-- The JSON form of a report. -/
def toJson (h : Health) : Json :=
  .object
    [Json.member "status" (.ofText h.status.name),
     Json.member "checks" (.object
       [Json.member "cache" (checkJson h.cache), Json.member "upstream" (checkJson h.forge)])]

end Health

end TokenGate
