/-
The validation of a credential that the cache does not know: the owner first, then the kind of the credential,
then the membership, then the roster of teams. The first of them that decides ends the validation.

Only two decisions are remembered: an identity, and a credential that the provider rejects outright. Every other
denial is decided anew next time.
-/
import TokenGate.Denial
import TokenGate.Provider
import TokenGate.Text.Pieces

namespace TokenGate

/-- Whom the service lets through. -/
structure Policy where
  /-- The organization that a caller has to be a member of. -/
  org : String
  /-- Whether credentials of the classic kind are refused. -/
  rejectClassicPats : Bool
deriving DecidableEq

/-- How a validation ended: its result, and what the cache is to remember. -/
structure Resolution where
  result : Except ValidationError Identity
  memo : Option Outcome

namespace Resolution

/-- A refusal that is not remembered. -/
def refuse (e : ValidationError) : Resolution := ⟨.error e, .none⟩

/-- A failure of a provider at a step where it means nothing in particular. -/
def fail (asked : Endpoint) (e : ProviderError) : Resolution :=
  refuse (.internal (.whileAsking asked :: e.account))

/-- The identity of a caller who is let through, which is remembered. -/
def grant (i : Identity) : Resolution := ⟨.ok i, .some (.authorized i)⟩

end Resolution

namespace Validation

/-- The slugs of the teams that belong to `org`; the case of ASCII letters does not count. -/
def teamsOf (org : String) (teams : List Team) : List String :=
  (teams.filter fun t => Text.sameLetters t.org.toList org.toList).map Team.slug

/-- The identity that the replies of a provider add up to. -/
def assemble (policy : Policy) (user : UserProfile) (teams : List Team) : Identity :=
  ⟨user.login, user.id, user.email, policy.org, teamsOf policy.org teams⟩

/-- What the first reply decides: the owner to go on with, or the end. -/
def acceptOwner (policy : Policy) : Except ProviderError Owner → Except Resolution UserProfile
  | .ok owner =>
    if policy.rejectClassicPats && owner.isClassic then .error (.refuse .classicPat)
    else .ok owner.profile
  | .error .unauthorized => .error ⟨.error .unauthorized, .some (.denied .unauthorized)⟩
  | .error .rateLimited => .error (.refuse .rateLimited)
  | .error e => .error (.fail .user e)

/-- What the second reply decides. -/
def acceptMembership : Except ProviderError Unit → Except Resolution Unit
  | .ok () => .ok ()
  | .error .notMember => .error (.refuse .notMember)
  | .error .rateLimited => .error (.refuse .rateLimited)
  | .error e => .error (.fail .membership e)

/-- What the third reply decides, which is the end in any case. -/
def acceptRoster (policy : Policy) (user : UserProfile) : Except ProviderError (List Team) → Resolution
  | .ok teams => .grant (assemble policy user teams)
  | .error .rateLimited => .refuse .rateLimited
  | .error e => .fail .teams e

variable {Q : Type} {Answer : Q → Type}

/-- The validation of a token, as far as the cache has nothing to say. -/
def resolve (provider : Provider Answer) (policy : Policy) (token : String) : Exchange Answer Resolution :=
  (provider.whoAmI token).bind fun reply =>
    match acceptOwner policy reply with
    | .error r => .done r
    | .ok user =>
      (provider.checkMembership token policy.org user.login).bind fun reply =>
        match acceptMembership reply with
        | .error r => .done r
        | .ok () => (provider.listGroups token policy.org).map (acceptRoster policy user)

end Validation

/-- The result that a remembered outcome gives at once. -/
def Outcome.result : Outcome → Except ValidationError Identity
  | .authorized i => .ok i
  | .denied d => .error (.ofDenial d)

end TokenGate
