/-
HTTP headers: names, which are compared without regard to case, and values, which are bytes and need not be text.
-/
import TokenGate.Text.Pieces
import TokenGate.Text.Utf8

namespace TokenGate.Http

/-- A header as it is received. -/
structure Header where
  name : String
  value : List UInt8
deriving DecidableEq

/-- The headers of a message, in order. -/
abbrev Headers := List Header

namespace Header

/-- The header whose value is the UTF-8 form of a text. -/
def ofText (name value : String) : Header :=
  ⟨name, Text.Utf8.encode value.toList⟩

/-- Whether `b` may stand in a value that is text: a printable ASCII character or a tab. -/
def isTextByte (b : UInt8) : Bool :=
  (0x20 ≤ b && b ≤ 0x7E) || b == 0x09

/-- The text of a value, if the value is text. -/
def text? (value : List UInt8) : Option String :=
  if value.all isTextByte then .some (String.ofList (value.map fun b => Char.ofNat b.toNat)) else .none

/-- The name in small letters. -/
def lowerName (h : Header) : String :=
  String.ofList (Text.lower h.name.toList)

end Header

namespace Headers

/-- The value of the first header called `name`, which is given in small letters. -/
def first? (hs : Headers) (name : String) : Option (List UInt8) :=
  (hs.find? fun h => h.lowerName == name).map Header.value

/-- The text of the first header called `name`, if its value is text. -/
def firstText? (hs : Headers) (name : String) : Option String :=
  (hs.first? name).bind Header.text?

end Headers

end TokenGate.Http
