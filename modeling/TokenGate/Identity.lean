/-
Who a credential belongs to: the identity that a validation yields, the profile and the teams that a forge
reports, and the JSON forms of the first two.
-/
import TokenGate.Json.Record

namespace TokenGate

/-- The caller that a credential stands for. -/
structure Identity where
  login : String
  id : Int64
  /-- The address, where it is known. -/
  email : Option String
  /-- The organization that the membership was checked for. -/
  org : String
  /-- The slugs of the caller's teams in that organization, in the order in which the forge lists them. -/
  teams : List String
deriving DecidableEq

/-- The owner of a credential, as the forge reports it. -/
structure UserProfile where
  login : String
  id : Int64
  email : Option String
deriving DecidableEq

/-- A team of the owner, with the login of the organization that it belongs to. -/
structure Team where
  slug : String
  org : String
deriving DecidableEq

namespace Identity

/-- The JSON form. An unknown address is left out. -/
def toJson (i : Identity) : Json :=
  .object <|
    [Json.member "login" (.ofText i.login), Json.member "id" (.ofInt i.id.toInt)] ++
    (match i.email with
      | .some e => [Json.member "email" (.ofText e)]
      | .none => []) ++
    [Json.member "org" (.ofText i.org), Json.member "teams" (.array (i.teams.map .ofText))]

/-- The identity that a JSON value stands for: an object, or an array of the fields in order. -/
def ofJson? (v : Json) : Option Identity :=
  match v.fields? ["login", "id", "email", "org", "teams"] with
  | .some [.some login, .some id, email, .some org, .some teams] => do
    .some ⟨← login.text?, ← id.int64?, ← (email.getD .null).optionalText?, ← org.text?, ← teams.texts?⟩
  | _ => .none

/-- The compact JSON text. -/
def encode (i : Identity) : String :=
  i.toJson.text

/-- The identity that a JSON text stands for. -/
def decode (s : String) : Option Identity :=
  Json.decode ofJson? s

end Identity

namespace UserProfile

/-- The profile that a JSON value stands for: an object, or an array of the fields in order. -/
def ofJson? (v : Json) : Option UserProfile :=
  match v.fields? ["login", "id", "email"] with
  | .some [.some login, .some id, email] => do
    .some ⟨← login.text?, ← id.int64?, ← (email.getD .null).optionalText?⟩
  | _ => .none

/-- The profile that a JSON text stands for. -/
def decode (s : String) : Option UserProfile :=
  Json.decode ofJson? s

end UserProfile

namespace Team

/-- The team that an item of a listing stands for; the organization is a record of its own. -/
def ofJson? (v : Json) : Option Team :=
  match v.fields? ["slug", "organization"] with
  | .some [.some slug, .some organization] =>
    match organization.fields? ["login"] with
    | .some [.some login] => do .some ⟨← slug.text?, ← login.text?⟩
    | _ => .none
  | _ => .none

/-- The teams that a page of a listing holds, in order. -/
def page? : Json → Option (List Team)
  | .array items => items.mapM ofJson?
  | _ => .none

end Team

end TokenGate
