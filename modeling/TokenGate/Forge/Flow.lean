/-
The flow of a validation at a forge: what becomes of it with each delivery.

The first delivery is about the owner of the token, the second about the membership, and those that follow are pages
of teams. By its place in this order, a delivery passes, so that the next request is made, or it stops the flow, and
then it settles what the validation comes to: a kind of denial, or none where the caller is let in. A response that
says that the budget is spent stops the flow in any place, whatever else it is.
-/
import TokenGate.Forge.Calls
import TokenGate.Validation

namespace TokenGate

/-- The kind of denial that a result is, if it is one. -/
def Validation.denial? : Except ValidationError Identity → Option Denial
  | .ok _ => .none
  | .error e => .some e.denial

namespace Forge

namespace Response

/-- The response says that the budget is spent: by its status, or because the calls that remain, as the first header of
that name has them, are none. -/
def Limited (r : Response) : Prop :=
  r.status = 429 ∨ ∃ s, r.headers.firstText? "x-ratelimit-remaining" = .some s ∧
    Text.readWord (Text.trim s.toList) = .some 0

/-- The body is there and means something to `read`. -/
def Decodes {α : Type} (r : Response) (read : Json → Option α) : Prop :=
  ∃ bytes a, r.body = .some bytes ∧ Json.decodeBytes read bytes = .some a

/-- The token has scopes, as those of the classic kind do. -/
def HasScopes (r : Response) : Prop :=
  ∃ scopes, r.headers.first? "x-oauth-scopes" = .some scopes ∧ scopes ≠ []

/-- The target of the first link to a page that follows. -/
def nextTarget? (r : Response) : Option String :=
  (r.headers.firstText? "link").bind Link.next?

/-- In the place `k`, the response passes. -/
inductive Passes (api : Api) (policy : Policy) (r : Response) : (k : Nat) → Prop where
  | owner : r.isSuccess = true → r.Decodes UserProfile.ofJson? →
      ¬ (policy.rejectClassicPats = true ∧ r.HasScopes) → Passes api policy r 0
  | membership : r.status = 204 → Passes api policy r 1
  | page {n : Nat} {target : String} {next : Url} : r.isSuccess = true → r.Decodes Team.page? →
      r.nextTarget? = .some target → Url.parse target = .ok next → next.isSameOrigin api.base = true →
      n + 1 < maxPages → Passes api policy r (n + 2)

/-- In the place `k`, the response stops the flow, and what it settles. -/
inductive Stops (api : Api) (policy : Policy) (r : Response) : (k : Nat) → Option Denial → Prop where
  | rejected : r.status = 401 → Stops api policy r 0 (.some .unauthorized)
  | classic : r.isSuccess = true → r.Decodes UserProfile.ofJson? → policy.rejectClassicPats = true → r.HasScopes →
      Stops api policy r 0 (.some .classicPat)
  | ownerStatus : r.status ≠ 401 → r.isSuccess = false → Stops api policy r 0 (.some .internal)
  | ownerBody : r.isSuccess = true → ¬ r.Decodes UserProfile.ofJson? → Stops api policy r 0 (.some .internal)
  | stranger : r.status = 404 → Stops api policy r 1 (.some .notMember)
  | membershipStatus : r.status ≠ 204 → r.status ≠ 404 → Stops api policy r 1 (.some .internal)
  | pageStatus {n : Nat} : r.isSuccess = false → Stops api policy r (n + 2) (.some .internal)
  | pageBody {n : Nat} : r.isSuccess = true → ¬ r.Decodes Team.page? → Stops api policy r (n + 2) (.some .internal)
  | badNext {n : Nat} {target : String} : r.isSuccess = true → r.Decodes Team.page? →
      r.nextTarget? = .some target → (∀ next, Url.parse target ≠ .ok next) →
      Stops api policy r (n + 2) (.some .internal)
  | foreignNext {n : Nat} {target : String} {next : Url} : r.isSuccess = true → r.Decodes Team.page? →
      r.nextTarget? = .some target → Url.parse target = .ok next → next.isSameOrigin api.base = false →
      Stops api policy r (n + 2) (.some .internal)
  | tooManyPages {n : Nat} {target : String} : r.isSuccess = true → r.Decodes Team.page? →
      r.nextTarget? = .some target → maxPages ≤ n + 1 → Stops api policy r (n + 2) (.some .internal)
  | lastPage {n : Nat} : r.isSuccess = true → r.Decodes Team.page? → r.nextTarget? = .none →
      Stops api policy r (n + 2) .none

end Response

namespace Delivery

/-- In the place `k`, the delivery passes. -/
inductive Passes (api : Api) (policy : Policy) (k : Nat) : Delivery → Prop where
  | received {r : Response} : ¬ r.Limited → r.Passes api policy k → Passes api policy k (.received r)

/-- In the place `k`, the delivery stops the flow, and what it settles. -/
inductive Stops (api : Api) (policy : Policy) (k : Nat) : Delivery → Option Denial → Prop where
  | failed : Stops api policy k .failed (.some .internal)
  | limited {r : Response} : r.Limited → Stops api policy k (.received r) (.some .rateLimited)
  | received {r : Response} {denied : Option Denial} : ¬ r.Limited → r.Stops api policy k denied →
      Stops api policy k (.received r) denied

end Delivery

/-- What a sequence of deliveries settles: that is up to the first one that stops the flow. -/
def Settles (api : Api) (policy : Policy) (ds : Nat → Delivery) (denied : Option Denial) : Prop :=
  ∃ n, (∀ k < n, (ds k).Passes api policy k) ∧ (ds n).Stops api policy n denied

end Forge

end TokenGate
