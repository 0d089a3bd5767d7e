/-
The address of a forge, and the addresses of what the service asks it.
-/
import TokenGate.Config
import TokenGate.Gate
import TokenGate.Forge.Delivery

namespace TokenGate.Forge

/-- A forge. -/
structure Api where
  /-- The address below which everything is asked. -/
  base : Url
deriving DecidableEq

/-- Why there is no access to a forge. -/
inductive AccessFault where
  /-- The name that the service calls itself cannot be sent. -/
  | unwritableAgent
  | invalidUrl (apiUrl : String) (f : Url.Fault)
  | rootlessUrl (base : Url)
deriving DecidableEq

/-- The wording of a fault. -/
def AccessFault.message : AccessFault → String
  | unwritableAgent => "failed to build HTTP client: " ++ Cause.httpClient.message
  | invalidUrl apiUrl f => "invalid GitHub API URL: " ++ apiUrl ++ ": " ++ f.message
  | rootlessUrl base => (Cause.notABase base.text).message

namespace Api

/-- The forge at an address. Slashes at the end of the address do not count. -/
def ofUrl (apiUrl : String) : Except AccessFault Api :=
  match Url.parse (Config.withoutSlashes apiUrl) with
  | .error f => .error (.invalidUrl apiUrl f)
  | .ok base => if base.isRootless then .error (.rootlessUrl base) else .ok ⟨base⟩

/-- The forge that a configuration names, asked under the name that it gives. -/
def ofConfig (c : Config) : Except AccessFault Api :=
  if Gate.isWritable c.userAgent then ofUrl c.apiUrl else .error .unwritableAgent

/-- The address of a path of names below that of the forge. -/
def endpoint (api : Api) (names : List String) : Except Account Url :=
  if api.base.isRootless then .error [.notABase api.base.text]
  else .ok (api.base.below (names.map String.toList))

/-- The address of the owner of a token. -/
def userUrl (api : Api) : Except Account Url :=
  api.endpoint ["user"]

/-- The address of a membership. -/
def membershipUrl (api : Api) (org login : String) : Except Account Url :=
  api.endpoint ["orgs", org, "members", login]

/-- How many teams a page is to have. -/
def pageSetting : List Char := "per_page=100".toList

/-- The address of the first page of teams. -/
def teamsUrl (api : Api) : Except Account Url :=
  (api.endpoint ["user", "teams"]).map (Url.withSetting · pageSetting)

end Api

end TokenGate.Forge
