/-
Failures: the causes that an account of a failure is made of, what a provider can report in place of an answer,
and the errors of a validation.

Only the causes carry detail. `ValidationError.denial` forgets it, and callers are told the denial alone.
-/
import TokenGate.Denial
import TokenGate.Url.Fault

namespace TokenGate

/-- The requests that a forge is asked. -/
inductive Endpoint where
  | user
  | membership
  | teams
deriving DecidableEq

namespace Endpoint

/-- All endpoints, in the order in which a validation asks them. -/
def all : List Endpoint :=
  [user, membership, teams]

/-- The name under which an endpoint is counted and mentioned. -/
def name : Endpoint → String
  | user => "get_user"
  | membership => "check_org_membership"
  | teams => "list_user_teams"

end Endpoint

/-- One link of an account of a failure. -/
inductive Cause where
  /-- A text that a provider gave. -/
  | reported (text : String)
  /-- What the validation was about to find out. -/
  | whileAsking (e : Endpoint)
  | requestFailed (e : Endpoint)
  | undecodable (e : Endpoint)
  | unexpectedStatus (e : Endpoint) (status : Nat) (body : String)
  | tooManyPages (limit : Nat)
  | foreignPage (next api : String)
  | invalidNextPage (target : String)
  | url (fault : Url.Fault)
  | notABase (address : String)
  /-- A fault inside the HTTP client, which words it itself. -/
  | httpClient
  | tokenRejected
  | notAMember
  | budgetSpent
  | cachedInternal
deriving DecidableEq

/-- The wording of a cause. -/
def Cause.message : Cause → String
  | reported text => text
  | whileAsking .user => "resolving token owner"
  | whileAsking .membership => "checking organization membership"
  | whileAsking .teams => "listing teams"
  | requestFailed e => s!"{e.name}: request failed"
  | undecodable e => s!"{e.name}: failed to decode response"
  | unexpectedStatus e status body => s!"{e.name}: unexpected status {status}: {body}"
  | tooManyPages limit => s!"list_user_teams: more than {limit} pages"
  | foreignPage next api => s!"list_user_teams: next page {next} is outside {api}"
  | invalidNextPage target => s!"invalid next page URL: {target}"
  | url fault => fault.message
  | notABase address => s!"GitHub API URL cannot be a base: {address}"
  | httpClient => "<http>"
  | tokenRejected => "token rejected by upstream"
  | notAMember => "user is not a member of the organization"
  | budgetSpent => "upstream API rate limit exceeded"
  | cachedInternal => "cached internal error"

/-- An account of a failure, from the outermost cause to the innermost. -/
abbrev Account := List Cause

/-- The wording of an account. -/
def Account.message (a : Account) : String :=
  ": ".intercalate (a.map Cause.message)

/-- What a provider reports in place of an answer. -/
inductive ProviderError where
  | unauthorized
  | notMember
  | rateLimited
  | other (account : Account)
deriving DecidableEq

namespace ProviderError

/-- The account of the failure. -/
def account : ProviderError → Account
  | unauthorized => [.tokenRejected]
  | notMember => [.notAMember]
  | rateLimited => [.budgetSpent]
  | other a => a

/-- The wording of the failure. -/
def message (e : ProviderError) : String :=
  e.account.message

end ProviderError

/-- Why a validation did not yield an identity. -/
inductive ValidationError where
  | unauthorized
  | notMember
  | classicPat
  | rateLimited
  | cancelled
  | internal (account : Account)
deriving DecidableEq

namespace ValidationError

/-- The kind of the error, without its account. -/
def denial : ValidationError → Denial
  | unauthorized => .unauthorized
  | notMember => .notMember
  | classicPat => .classicPat
  | rateLimited => .rateLimited
  | cancelled => .cancelled
  | internal _ => .internal

/-- The error that a remembered denial gives. -/
def ofDenial : Denial → ValidationError
  | .unauthorized => unauthorized
  | .notMember => notMember
  | .classicPat => classicPat
  | .rateLimited => rateLimited
  | .cancelled => cancelled
  | .internal => internal [.cachedInternal]

/-- The wording for logs. -/
def message : ValidationError → String
  | unauthorized => "unauthorized: invalid or revoked token"
  | notMember => "forbidden: user is not a member of the organization"
  | classicPat => "forbidden: classic PATs are not allowed, use a fine-grained PAT"
  | rateLimited => "rate limited: upstream API rate limit exceeded"
  | cancelled => "validation cancelled before the upstream call completed"
  | internal a => "internal error: " ++ a.message

@[simp] theorem denial_ofDenial (d : Denial) : (ofDenial d).denial = d := by
  cases d <;> rfl

end ValidationError

/-- The class under which a finished validation is counted. -/
inductive Verdict where
  | success
  | unauthorized
  | forbidden
  | rateLimited
  | cancelled
  | error
deriving DecidableEq

namespace Verdict

/-- All classes. -/
def all : List Verdict :=
  [success, unauthorized, forbidden, rateLimited, cancelled, error]

/-- The name of the class. -/
def label : Verdict → String
  | success => "success"
  | unauthorized => "unauthorized"
  | forbidden => "forbidden"
  | rateLimited => "rate_limited"
  | cancelled => "cancelled"
  | error => "error"

/-- The class of a denial. -/
def ofDenial : Denial → Verdict
  | .unauthorized => unauthorized
  | .notMember => forbidden
  | .classicPat => forbidden
  | .rateLimited => rateLimited
  | .cancelled => cancelled
  | .internal => error

/-- The class of a result. -/
def ofResult : Except ValidationError Identity → Verdict
  | .ok _ => success
  | .error e => ofDenial e.denial

end Verdict

end TokenGate
