/-
Reading documents, and what their scalars mean where a flag, a number or a text is wanted.
-/
import TokenGate.Text.Decimal
import TokenGate.Yaml.Node
import TokenGate.Yaml.Token.Lexer

namespace TokenGate.Yaml

/-- The document that a text writes. A text that writes nothing has an empty document, and one that writes more than
one document has none. -/
def Document.parse (s : List Char) : Option Document := do
  let root ← NodeReader.readDocument (← tokenize s)
  .some (Document.ofRoot (root.getD .empty))

namespace Scalar

/-- Whether a scalar can be anything but a text: it is plain, or it is a literal block with the tag wanted. -/
def isOpen (s : Scalar) (wanted : String) : Bool :=
  s.style = .plain || (s.style = .literal && s.tag == .some wanted.toList)

/-- The flag that a scalar is. -/
def flag? (s : Scalar) : Option Bool :=
  if s.isOpen "tag:yaml.org,2002:bool" then
    if ["true", "True", "TRUE"].contains (String.ofList s.text) then .some true
    else if ["false", "False", "FALSE"].contains (String.ofList s.text) then .some false
    else .none
  else .none

/-- The number that digits behind the sign of a base write. -/
def readBased (s : List Char) : Option Nat :=
  match s with
  | '0' :: 'x' :: ds => Text.readDigits 16 ds
  | '0' :: 'o' :: ds => Text.readDigits 8 ds
  | '0' :: 'b' :: ds => Text.readDigits 2 ds
  | '0' :: _ :: _ => .none
  | ds => Text.readDigits 10 ds

/-- The word of 64 bits that a scalar is. A decimal number has no zero in front, and one plus sign is allowed. -/
def word? (s : Scalar) : Option Nat :=
  if s.isOpen "tag:yaml.org,2002:int" then
    (readBased (if s.text.head? = .some '+' then s.text.drop 1 else s.text)).bind Text.fitWord
  else .none

end Scalar

namespace Document

/-- The text of a scalar, whatever else it could mean. -/
def text? (d : Document) (n : Node) : Option String :=
  match d.resolve n with
  | .scalar _ s => .some (String.ofList s.text)
  | _ => .none

/-- The flag of a scalar. -/
def flag? (d : Document) (n : Node) : Option Bool :=
  match d.resolve n with
  | .scalar _ s => s.flag?
  | _ => .none

/-- The number of a scalar. -/
def word? (d : Document) (n : Node) : Option Nat :=
  match d.resolve n with
  | .scalar _ s => s.word?
  | _ => .none

/-- The entries of a mapping by name. Where nothing is written, there are none. -/
def entries? (d : Document) (n : Node) : Option (List (String × Node)) :=
  match d.resolve n with
  | .mapping _ es => es.mapM fun (k, v) => (d.text? k).map (·, v)
  | .scalar _ s => if s.style = .plain ∧ s.text.isEmpty then .some [] else .none
  | _ => .none

/-- The value of the entry called `name`, which may not be there twice. -/
def field? (entries : List (String × Node)) (name : String) : Option (Option Node) :=
  match entries.filter fun e => e.1 == name with
  | [] => .some .none
  | [e] => .some (.some e.2)
  | _ => .none

/-- Reads the entry called `name` by `read`, or takes `preset` where there is none. -/
def fieldOr {α : Type} (entries : List (String × Node)) (name : String) (preset : α) (read : Node → Option α) :
    Option α := do
  match ← field? entries name with
  | .some n => read n
  | .none => .some preset

end Document

end TokenGate.Yaml
