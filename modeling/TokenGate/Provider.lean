/-
Identity providers. A provider resolves a credential to its owner, tells whether the owner is a member of an
organization, and lists the owner's teams. Each of these calls is an exchange with the outside.
-/
import TokenGate.Exchange
import TokenGate.Failure
import TokenGate.Http.Header

namespace TokenGate

/-- The owner of a credential, and whether the credential is of the classic kind. -/
structure Owner where
  profile : UserProfile
  isClassic : Bool
deriving DecidableEq

/-- A provider that reaches the outside through questions `Q` with the answers `Answer`. -/
structure Provider {Q : Type} (Answer : Q → Type) where
  /-- Whose credential it is. -/
  whoAmI : (token : String) → Exchange Answer (Except ProviderError Owner)
  /-- Whether `login` is a member of `org`. -/
  checkMembership : (token org login : String) → Exchange Answer (Except ProviderError Unit)
  /-- Every team that the credential can see, those of other organizations included. -/
  listGroups : (token org : String) → Exchange Answer (Except ProviderError (List Team))
  /-- The endpoint that a question counts for, if it is counted. -/
  counted : Q → Option Endpoint
  /-- The headers that an answer brings with it. -/
  headers : (q : Q) → Answer q → Http.Headers

/-! ## Providers that answer whole calls -/

/-- A call of a provider, seen as one question. -/
inductive Call where
  | whoAmI (token : String)
  | checkMembership (token org login : String)
  | listGroups (token org : String)
deriving DecidableEq

/-- The replies to a call. -/
def Call.Reply : Call → Type
  | whoAmI _ => Except ProviderError Owner
  | checkMembership _ _ _ => Except ProviderError Unit
  | listGroups _ _ => Except ProviderError (List Team)

/-- The provider each of whose calls is answered from outside as a whole. -/
def Provider.direct : Provider Call.Reply where
  whoAmI token := .ask (.whoAmI token) .done
  checkMembership token org login := .ask (.checkMembership token org login) .done
  listGroups token org := .ask (.listGroups token org) .done
  counted _ := .none
  headers _ _ := []

end TokenGate
