/-
JSON values as they stand in a text, and the compact form that writes them.

A value keeps its strings and numbers the way they are spelled. What a spelling means is settled only where a
value of some type is wanted, so a spelling that means nothing does no harm where nobody looks at it.
-/
import TokenGate.Text.Decimal
import TokenGate.Text.Hex

namespace TokenGate

/-- A JSON value. A string is what stands between its quotes, and the members of an object keep their order
and their repetitions. -/
inductive Json where
  | null
  | bool (b : Bool)
  | number (spelling : List Char)
  | string (spelling : List Char)
  | array (items : List Json)
  | object (members : List (List Char × Json))

namespace Json

/-- How a character is written inside a string: quotes, backslashes and control characters are escaped, the
common ones by a letter. -/
def escapeChar (c : Char) : List Char :=
  if c = '"' then ['\\', '"']
  else if c = '\\' then ['\\', '\\']
  else if c = '\n' then ['\\', 'n']
  else if c = '\r' then ['\\', 'r']
  else if c = '\t' then ['\\', 't']
  else if c = Char.ofNat 8 then ['\\', 'b']
  else if c = Char.ofNat 12 then ['\\', 'f']
  else if c.toNat < 32 then ['\\', 'u', '0', '0', Text.hexDigit (c.toNat / 16), Text.hexDigit (c.toNat % 16)]
  else [c]

/-- How a text is written inside a string. -/
def escape (s : List Char) : List Char :=
  s.flatMap escapeChar

/-- The string that holds a text. -/
def ofText (s : String) : Json :=
  .string (escape s.toList)

/-- The number that is an integer. -/
def ofInt (i : Int) : Json :=
  .number (Text.decimalInt i)

/-- A member of an object. -/
def member (key : String) (v : Json) : List Char × Json :=
  (escape key.toList, v)

mutual

/-- The compact form: no white space outside strings. -/
def render : Json → List Char
  | null => ['n', 'u', 'l', 'l']
  | bool true => ['t', 'r', 'u', 'e']
  | bool false => ['f', 'a', 'l', 's', 'e']
  | number s => s
  | string s => '"' :: s ++ ['"']
  | array [] => ['[', ']']
  | array (v :: vs) => '[' :: render v ++ renderItems vs
  | object [] => [Char.ofNat 0x7B, Char.ofNat 0x7D]
  | object ((k, v) :: ms) => Char.ofNat 0x7B :: '"' :: k ++ '"' :: ':' :: render v ++ renderMembers ms

/-- The further items of an array, and its end. -/
def renderItems : List Json → List Char
  | [] => [']']
  | v :: vs => ',' :: render v ++ renderItems vs

/-- The further members of an object, and its end. -/
def renderMembers : List (List Char × Json) → List Char
  | [] => [Char.ofNat 0x7D]
  | (k, v) :: ms => ',' :: '"' :: k ++ '"' :: ':' :: render v ++ renderMembers ms

end

/-- The compact form as a text. -/
def text (v : Json) : String :=
  String.ofList v.render

end Json

end TokenGate
