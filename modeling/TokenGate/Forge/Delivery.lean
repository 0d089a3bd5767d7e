/-
What is sent to a forge, and what comes back.
-/
import TokenGate.Failure
import TokenGate.Http.Header
import TokenGate.Url.Parser

namespace TokenGate.Forge

/-- A request to a forge. It is a GET that bears the token. -/
structure Request where
  endpoint : Endpoint
  url : Url
  token : String
deriving DecidableEq

/-- A response of a forge. The body is missing where it broke off. -/
structure Response where
  status : Nat
  headers : Http.Headers
  body : Option (List UInt8)
deriving DecidableEq

/-- What comes of a request: a response, or nothing where the connection failed. -/
inductive Delivery where
  | failed
  | received (r : Response)
deriving DecidableEq

namespace Response

/-- Whether the status reports success. -/
def isSuccess (r : Response) : Bool :=
  200 ≤ r.status && r.status < 300

/-- The body as a text for people: what is not well formed is replaced, and a body that broke off counts as empty. -/
def bodyText (r : Response) : String :=
  String.ofList (Text.Utf8.decodeLossy (r.body.getD []))

end Response

/-- The headers that a delivery brings. -/
def Delivery.headers : Delivery → Http.Headers
  | failed => []
  | received r => r.headers

end TokenGate.Forge
