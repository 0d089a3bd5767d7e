/-
The gate: which requests are let in to be validated, and how a finished validation is answered.

A request that claims an identity of its own is refused, whatever else it holds, because the headers that claim it
would be believed behind the gate. A refusal says no more than its kind.
-/
import TokenGate.Budget
import TokenGate.Failure
import TokenGate.Http.Message
import TokenGate.Net.Address

namespace TokenGate.Gate

/-- Why a request is refused. -/
inductive Refusal where
  /-- The request has a header that only the gate may set. -/
  | injected (name : String)
  | noCredentials
  | denied (d : Denial) (retryAfter : Option Nat)
  /-- The identity cannot be written as header values. -/
  | unwritable
deriving DecidableEq

namespace Refusal

/-- The status of a refusal. -/
def status : Refusal → Nat
  | injected _ => 403
  | noCredentials => 401
  | denied .unauthorized _ => 401
  | denied .notMember _ => 403
  | denied .classicPat _ => 403
  | denied .rateLimited _ => 429
  | denied .cancelled _ => 504
  | denied .internal _ => 500
  | unwritable => 500

/-- What a refusal tells the caller. -/
def message : Refusal → String
  | injected _ => "forbidden: request contains disallowed headers"
  | noCredentials => "missing or malformed Authorization header"
  | denied .unauthorized _ => "access denied"
  | denied .notMember _ => "access denied"
  | denied .classicPat _ => "forbidden: classic PATs are not allowed"
  | denied .rateLimited _ => "rate limit exceeded, try again later"
  | denied .cancelled _ => "upstream timeout"
  | denied .internal _ => "internal server error"
  | unwritable => "internal server error"

/-- The seconds after which the caller may try again, where a refusal tells. -/
def retryAfter : Refusal → Option Nat
  | denied _ secs => secs
  | _ => .none

/-- The response to a refused request. -/
def response (r : Refusal) : Http.Response :=
  let plain := Http.Response.ofJson r.status (.object [Json.member "error" (.ofText r.message)])
  match r.retryAfter with
  | .some secs => { plain with headers := plain.headers ++ [("retry-after", String.ofList (Text.decimal secs))] }
  | .none => plain

end Refusal

/-! ## Admission -/

/-- What the names of the headers begin with that only the gate may set. -/
def reserved : List Char := "x-auth-user-".toList

/-- The name of the first header that only the gate may set. -/
def injected? (hs : Http.Headers) : Option String :=
  (hs.find? fun h => reserved.isPrefixOf h.lowerName.toList).map Http.Header.lowerName

/-- The rest of `s` behind `front`, if `s` begins with it. -/
def behind? (front s : List Char) : Option (List Char) :=
  if front.isPrefixOf s then .some (s.drop front.length) else .none

/-- The token that the first Authorization header bears. -/
def bearer? (hs : Http.Headers) : Option String := do
  let value ← hs.firstText? "authorization"
  match Text.trim (← behind? "Bearer ".toList value.toList) with
  | [] => .none
  | token => .some (String.ofList token)

/-- The token of a request that is let in, or why it is not. -/
def screen (hs : Http.Headers) : Except Refusal String :=
  match injected? hs with
  | .some name => .error (.injected name)
  | .none =>
    match bearer? hs with
    | .some token => .ok token
    | .none => .error .noCredentials

/-- Where a request comes from, for the log: the leftmost address that it was forwarded for, else its peer. -/
def client (hs : Http.Headers) (peer : Option Net.SocketAddress) : String :=
  let forwarded := (hs.firstText? "x-forwarded-for").map fun s =>
    Text.trim (s.toList.takeWhile (· != ','))
  match forwarded with
  | .some (c :: s) => String.ofList (c :: s)
  | _ => (peer.map fun p => p.address.render).getD "unknown"

/-! ## Answers -/

/-- Whether a text can be a header value: it has no control characters but tabs. -/
def isWritable (s : String) : Bool :=
  s.toList.all fun c => (0x20 ≤ c.toNat && c.toNat != 0x7F) || c == '\t'

/-- The value that holds all teams. -/
def teamsValue (teams : List String) : String :=
  String.ofList (Text.join ',' (teams.map String.toList))

/-- The headers that tell an identity, if all of them can be written. -/
def identityHeaders? (i : Identity) : Option (List (String × String)) :=
  let headers :=
    [("x-auth-user-login", i.login), ("x-auth-user-id", String.ofList (Text.decimalInt i.id.toInt)),
     ("x-auth-user-org", i.org), ("x-auth-user-teams", teamsValue i.teams)] ++
    (match i.email with
      | .some e => [("x-auth-user-email", e)]
      | .none => [])
  if headers.all fun h => isWritable h.2 then .some headers else .none

/-- What a finished validation is answered with: the identity as headers, or a refusal. When the budget is spent,
the caller is told when it is renewed. -/
def answer (b : Budget) (now : Nat) : Except ValidationError Identity → Except Refusal (List (String × String))
  | .ok i =>
    match identityHeaders? i with
    | .some headers => .ok headers
    | .none => .error .unwritable
  | .error e => .error (.denied e.denial (if e.denial = .rateLimited then b.retryAfter now else .none))

/-- The response to a request that was let in. -/
def respond (b : Budget) (now : Nat) (result : Except ValidationError Identity) : Http.Response :=
  match answer b now result with
  | .ok headers => ⟨200, headers, ""⟩
  | .error r => r.response

end TokenGate.Gate
