/-
Link headers: finding the page that follows.
-/
import TokenGate.Text.Blank
import TokenGate.Text.Pieces

namespace TokenGate.Forge.Link

/-- The parameter that marks the link to the next page. -/
def nextRelation : List Char := "rel=\"next\"".toList

/-- What stands between one pair of angle brackets that begins and ends `s`. -/
def bracketed? : List Char → Option (List Char)
  | '<' :: s => if s.getLast? = .some '>' then .some s.dropLast else .none
  | _ => .none

/-- Whether a parameter marks the link to the next page; the case of letters does not count. -/
def isNext (param : List Char) : Bool :=
  Text.sameLetters (Text.trim param) nextRelation

/-- The target of a link, if the link is to the next page: the target comes first, and semicolons stand in front of
the parameters. -/
def nextTarget? (link : List Char) : Option (List Char) :=
  match Text.pieces ';' link with
  | [] => .none
  | target :: params =>
    (bracketed? (Text.trim target)).filter fun _ => params.any isNext

/-- The target of the first link to a next page in a header; commas stand between the links. -/
def next? (header : String) : Option String :=
  ((Text.pieces ',' header.toList).findSome? nextTarget?).map String.ofList

end TokenGate.Forge.Link
