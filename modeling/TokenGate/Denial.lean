/-
Decisions: the kinds of denial, and the outcome of a validation as the cache remembers it.
-/
import TokenGate.Identity

namespace TokenGate

/-- The reasons for which a credential can be refused. -/
inductive Denial where
  | unauthorized
  | notMember
  | classicPat
  | rateLimited
  | cancelled
  | internal
deriving DecidableEq

namespace Denial

/-- All kinds of denial. -/
def all : List Denial :=
  [unauthorized, notMember, classicPat, rateLimited, cancelled, internal]

/-- The name of the kind. -/
def name : Denial → String
  | unauthorized => "unauthorized"
  | notMember => "not_member"
  | classicPat => "classic_pat"
  | rateLimited => "rate_limited"
  | cancelled => "cancelled"
  | internal => "internal"

/-- The kind of this name. -/
def ofName? (s : String) : Option Denial :=
  all.find? fun d => d.name == s

/-- The kind that a JSON value stands for: its name, or an object that maps its name to null. -/
def ofJson? : Json → Option Denial
  | .string s => (Json.text? (.string s)).bind ofName?
  | .object [(k, .null)] => (Json.text? (.string k)).bind ofName?
  | _ => .none

/-- The kind that a JSON text stands for. -/
def decode (s : String) : Option Denial :=
  Json.decode ofJson? s

theorem ofName?_name (d : Denial) : ofName? d.name = .some d := by
  cases d <;> rfl

end Denial

/-- What a validation decided. -/
inductive Outcome where
  | authorized (i : Identity)
  | denied (d : Denial)
deriving DecidableEq

end TokenGate
