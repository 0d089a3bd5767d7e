/-
The calls of a provider that asks a forge.

A response that says that the budget is spent ends a call before anything else about it counts. A page of teams may
name the page that follows; such an address comes from the other side, so it is followed only where the token may go,
to the origin of the forge, and only so many times.
-/
import TokenGate.Budget
import TokenGate.Forge.Api
import TokenGate.Forge.Link
import TokenGate.Json.Bytes
import TokenGate.Provider

namespace TokenGate.Forge

/-- The answers to the requests to a forge. -/
abbrev Answer (_ : Request) : Type := Delivery

/-- A piece of a call. -/
abbrev Talk (α : Type) := Exchange Answer (Except ProviderError α)

namespace Talk

/-- A piece of a call that ends with an account of a failure. -/
def fail {α : Type} (a : Account) : Talk α :=
  .done (.error (.other a))

/-- First `x`, and then what `f` makes of its result, unless it fails. -/
def andThen {α β : Type} (x : Talk α) (f : α → Talk β) : Talk β :=
  x.bind fun
    | .ok a => f a
    | .error e => .done (.error e)

/-- Goes on with an address, if there is one. -/
def withUrl {α : Type} (url : Except Account Url) (f : Url → Talk α) : Talk α :=
  match url with
  | .ok u => f u
  | .error a => fail a

end Talk

/-- The response of a delivery, as long as there is one and it does not say that the budget is spent. -/
def Delivery.accept (e : Endpoint) : Delivery → Except ProviderError Response
  | .failed => .error (.other [.requestFailed e, .httpClient])
  | .received r => if Budget.isExhausted r.status r.headers then .error .rateLimited else .ok r

/-- Asks a forge. -/
def ask (e : Endpoint) (url : Url) (token : String) : Talk Response :=
  .ask ⟨e, url, token⟩ fun d => .done (d.accept e)

/-- A response with a status that means nothing here. -/
def unexpected (e : Endpoint) (r : Response) : ProviderError :=
  .other [.unexpectedStatus e r.status (String.ofList (Text.trim r.bodyText.toList))]

/-- What the body of a response holds. -/
def decodeBody {α : Type} (e : Endpoint) (r : Response) (read : Json → Option α) : Except ProviderError α :=
  match r.body.bind (Json.decodeBytes read) with
  | .some a => .ok a
  | .none => .error (.other [.undecodable e, .httpClient])

/-! ## The owner -/

/-- Whether a response shows that the token is of the classic kind: only those come with scopes. -/
def isClassic (hs : Http.Headers) : Bool :=
  (hs.first? "x-oauth-scopes").any fun v => !v.isEmpty

/-- What a response says about the owner of a token. -/
def readOwner (r : Response) : Except ProviderError Owner :=
  if r.status = 401 then .error .unauthorized
  else if !r.isSuccess then .error (unexpected .user r)
  else (decodeBody .user r UserProfile.ofJson?).map fun u => ⟨u, isClassic r.headers⟩

/-- Asks for the owner of a token. -/
def whoAmI (api : Api) (token : String) : Talk Owner :=
  Talk.withUrl api.userUrl fun url =>
    (ask .user url token).andThen fun r => .done (readOwner r)

/-! ## The membership -/

/-- What a response says about a membership. -/
def readMembership (r : Response) : Except ProviderError Unit :=
  if r.status = 204 then .ok ()
  else if r.status = 404 then .error .notMember
  else if r.status = 401 then .error .unauthorized
  else .error (unexpected .membership r)

/-- Asks for a membership. -/
def checkMembership (api : Api) (token org login : String) : Talk Unit :=
  Talk.withUrl (api.membershipUrl org login) fun url =>
    (ask .membership url token).andThen fun r => .done (readMembership r)

/-! ## The teams -/

/-- The address of the page that follows, if a response names one. -/
def nextPage (hs : Http.Headers) : Except ProviderError (Option Url) :=
  match (hs.firstText? "link").bind Link.next? with
  | .none => .ok .none
  | .some target =>
    match Url.parse target with
    | .ok u => .ok (.some u)
    | .error f => .error (.other [.invalidNextPage target, .url f])

/-- A page of teams: the teams, and the address of the page that follows. -/
structure Page where
  teams : List Team
  next : Option Url

/-- What a response says as a page of teams. -/
def readPage (r : Response) : Except ProviderError Page :=
  if r.status = 401 then .error .unauthorized
  else if !r.isSuccess then .error (unexpected .teams r)
  else do
    let next ← nextPage r.headers
    let teams ← decodeBody .teams r Team.page?
    .ok ⟨teams, next⟩

/-- How many pages are read at most. -/
def maxPages : Nat := 50

/-- Reads the page at `url` and those that follow it, at most `left`, behind the teams so far. -/
def readPages (api : Api) (token : String) : (left : Nat) → (soFar : List Team) → (url : Url) → Talk (List Team)
  | 0, _, _ => Talk.fail [.tooManyPages maxPages]
  | left + 1, soFar, url =>
    if !url.isSameOrigin api.base then Talk.fail [.foreignPage url.text api.base.text]
    else
      (ask .teams url token).andThen fun r =>
        match readPage r with
        | .error e => .done (.error e)
        | .ok ⟨teams, .none⟩ => .done (.ok (soFar ++ teams))
        | .ok ⟨teams, .some next⟩ => readPages api token left (soFar ++ teams) next

/-- Asks for all teams of the owner of a token. -/
def listGroups (api : Api) (token : String) : Talk (List Team) :=
  Talk.withUrl api.teamsUrl (readPages api token maxPages [])

/-! ## The provider -/

/-- The provider that asks a forge. Its requests are counted unless `isCounted` says otherwise. -/
def provider (api : Api) (isCounted : Bool) : Provider Answer where
  whoAmI := whoAmI api
  checkMembership := checkMembership api
  listGroups token _ := listGroups api token
  counted r := if isCounted then .some r.endpoint else .none
  headers _ d := d.headers

end TokenGate.Forge
