/-
Requests and responses, and the paths that the service serves.
-/
import TokenGate.Http.Header
import TokenGate.Json.Value

namespace TokenGate.Http

/-- A request. -/
structure Request where
  method : String
  /-- The target as it stands in the request line. -/
  target : String
  headers : Headers

/-- A response. Header names are in small letters. -/
structure Response where
  status : Nat
  headers : List (String × String)
  body : String
deriving DecidableEq

namespace Response

/-- A response without a body. -/
def empty (status : Nat) : Response := ⟨status, [], ""⟩

/-- A response with a body of the given type. -/
def ofText (status : Nat) (contentType body : String) : Response :=
  ⟨status, [("content-type", contentType)], body⟩

/-- A response with a JSON body. -/
def ofJson (status : Nat) (v : Json) : Response :=
  ofText status "application/json" v.text

/-- The response to a request for the head alone. -/
def head (r : Response) : Response := { r with body := "" }

end Response

/-- What the service serves. -/
inductive Route where
  | validate
  | health
  | ready
  | metrics
deriving DecidableEq

namespace Route

/-- The route of a path. -/
def ofPath? (path : String) : Option Route :=
  if path = "/validate" then .some validate
  else if path = "/healthz" then .some health
  else if path = "/ready" then .some ready
  else if path = "/metrics" then .some metrics
  else .none

/-- `s` after the first slash-slash, if there is one. -/
def afterScheme : List Char → Option (List Char)
  | ':' :: '/' :: '/' :: s => .some s
  | '/' :: _ => .none
  | _ :: s => afterScheme s
  | [] => .none

/-- The path of a request target, without query and fragment. A target with scheme and host has the path that
follows the host. -/
def pathOf (target : String) : String :=
  let path := target.toList.takeWhile fun c => c != '?' && c != '#'
  String.ofList <| match afterScheme path with
    | .some rest =>
      match rest.dropWhile (· != '/') with
      | [] => ['/']
      | p => p
    | .none => path

/-- Whether a route takes a method. The gate itself takes all of them. -/
def takes (r : Route) (method : String) : Bool :=
  r = validate || method == "GET" || method == "HEAD"

end Route

/-- The response where there is nothing to serve. -/
def notFound : Response := .empty 404

/-- The response where a route does not take the method. -/
def methodNotAllowed : Response := ⟨405, [("allow", "GET,HEAD")], ""⟩

end TokenGate.Http
