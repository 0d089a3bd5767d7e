/-
Reading JSON from bytes.

The grammar is one of ASCII signs, so each byte is taken for a sign of its own. What stands between quotes is to be
UTF-8, but that counts only where somebody wants to know what it means: a string or a name that is ill-formed becomes a
spelling that means nothing.
-/
import TokenGate.Json.Record
import TokenGate.Text.Utf8

namespace TokenGate.Json

/-- The sign that a byte is taken for. -/
def signOf (b : UInt8) : Char :=
  Char.ofNat b.toNat

/-- A spelling that means nothing: a backslash has to have something behind it. -/
def meaningless : List Char := ['\\']

/-- What the bytes spell that the signs stand for. -/
def respell (s : List Char) : List Char :=
  (Text.Utf8.decode? (s.map fun c => UInt8.ofNat c.toNat)).getD meaningless

mutual

/-- The value whose strings and names are spelled in signs that stand for bytes. -/
def ofSigns : Json → Json
  | null => null
  | bool b => bool b
  | number s => number s
  | string s => string (respell s)
  | array vs => array (itemsOfSigns vs)
  | object ms => object (membersOfSigns ms)

/-- The items of an array, each such a value. -/
def itemsOfSigns : List Json → List Json
  | [] => []
  | v :: vs => ofSigns v :: itemsOfSigns vs

/-- The members of an object, each such a value with a name. -/
def membersOfSigns : List (List Char × Json) → List (List Char × Json)
  | [] => []
  | (k, v) :: ms => (respell k, ofSigns v) :: membersOfSigns ms

end

/-- The value that bytes write. -/
def parseBytes (bs : List UInt8) : Option Json :=
  (parse (bs.map signOf)).map ofSigns

/-- What bytes mean to `read`. -/
def decodeBytes {α : Type} (read : Json → Option α) (bs : List UInt8) : Option α :=
  (parseBytes bs).bind read

theorem unescape_meaningless : unescape meaningless = .none := rfl

end TokenGate.Json
