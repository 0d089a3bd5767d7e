/-
What the gate owes a request, told apart from how it is done: which headers only the gate may set, which token a request
bears, which identities can be told in headers and what these headers are, and from these what the response is.
-/
import TokenGate.Exchange.Deadline
import TokenGate.Server

namespace TokenGate

namespace Gate

/-- A header of this name tells an identity, and only the gate may set it; the case of ASCII letters does not count. -/
def IsReserved (name : String) : Prop :=
  "x-auth-user-".toList <+: Text.lower name.toList

/-- A request has headers that tell an identity. -/
def ClaimsIdentity (hs : Http.Headers) : Prop :=
  ∃ h ∈ hs, IsReserved h.name

/-- The first header called Authorization bears the token: its value is text, which is the word Bearer, one space and
the token, with any white space around that. -/
def Bears (hs : Http.Headers) (token : String) : Prop :=
  ∃ before h after rest, hs = before ++ h :: after ∧ (∀ x ∈ before, x.lowerName ≠ "authorization") ∧
    h.lowerName = "authorization" ∧ (∀ b ∈ h.value, 0x20 ≤ b ∧ b ≤ 0x7E ∨ b = 0x09) ∧
    h.value.map (fun b => Char.ofNat b.toNat) = "Bearer ".toList ++ rest ∧ Text.IsCore rest token.toList

/-- No byte of a text is a control character, tabs apart. -/
def IsWritable (s : String) : Prop :=
  ∀ b ∈ Text.Utf8.encode s.toList, 0x20 ≤ b ∧ b ≠ 0x7F ∨ b = 0x09

/-- An identity can be told in headers. -/
structure CanTell (i : Identity) : Prop where
  login : IsWritable i.login
  org : IsWritable i.org
  teams : IsWritable (",".intercalate i.teams)
  email : ∀ e, i.email = .some e → IsWritable e

/-- The headers that tell an identity. -/
def told (i : Identity) : List (String × String) :=
  [("x-auth-user-login", i.login), ("x-auth-user-id", toString i.id.toInt), ("x-auth-user-org", i.org),
    ("x-auth-user-teams", ",".intercalate i.teams)] ++ (i.email.map fun e => ("x-auth-user-email", e)).toList

/-- `r` is the response to a request with the headers `hs`, where the validation of a token comes to
`validated token`. -/
structure Answers (hs : Http.Headers) (validated : String → Except ValidationError Identity) (r : Http.Response) :
    Prop where
  /-- Who is let through. -/
  lets : r.status = 200 ↔
    ¬ ClaimsIdentity hs ∧ ∃ token i, Bears hs token ∧ validated token = .ok i ∧ CanTell i
  /-- What is told of whoever is let through. -/
  tells : r.status = 200 → ∀ token i, Bears hs token → validated token = .ok i → r.headers = told i
  /-- Nothing is told of anybody else. -/
  silent : r.status ≠ 200 → ∀ h ∈ r.headers, ¬ IsReserved h.1
  claiming : ClaimsIdentity hs → r.status = 403
  tokenless : ¬ ClaimsIdentity hs → (∀ token, ¬ Bears hs token) → r.status = 401
  untold : ¬ ClaimsIdentity hs → ∀ token i, Bears hs token → validated token = .ok i → ¬ CanTell i → r.status = 500

end Gate

/-- The result of a validation that has come to a resolution in time, or else has been given up. -/
def Validation.resultOf : Option Resolution → Except ValidationError Identity
  | .some r => r.result
  | .none => .error .cancelled

variable {Q : Type} {Answer : Q → Type}

/-- What the validation of a token comes to that begins now and is given up after `limit`: what the cache knows, or else
what the provider's answers come to before that. Where the clock cannot tell when that is, nothing begins. -/
def Service.validated (w : Wiring Answer) (outside : Outside Answer) (s : Service Answer) (limit : Nat)
    (token : String) : Except ValidationError Identity :=
  match Timer.set? s.now limit, (s.cache.get s.now token).1 with
  | .none, _ => .error .cancelled
  | .some _, .some o => o.result
  | .some due, .none =>
    Validation.resultOf ((Validation.resolve w.provider w.policy token).within outside s.now due)

end TokenGate
