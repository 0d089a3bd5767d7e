/-
Percent-encoding: which characters each part of a URL cannot hold as they are, how they are written, and how they
are read back.
-/
import TokenGate.Text.Decimal
import TokenGate.Text.Utf8

namespace TokenGate.Url

/-! ## Sets -/

/-- Control characters and everything that is not ASCII. -/
def escapesAlways (c : Char) : Bool :=
  c.toNat < 0x20 || 0x7F ≤ c.toNat

/-- What a fragment cannot hold. -/
def escapesInFragment (c : Char) : Bool :=
  escapesAlways c || c == ' ' || c == '"' || c == '<' || c == '>' || c == Char.ofNat 0x60

/-- What a path cannot hold. -/
def escapesInPath (c : Char) : Bool :=
  escapesInFragment c || c == '#' || c == '?' || c == Char.ofNat 0x7B || c == Char.ofNat 0x7D

/-- What a segment cannot hold that is to be read back as it was given. -/
def escapesInSegment (isSpecial : Bool) (c : Char) : Bool :=
  escapesInPath c || c == '/' || c == '%' || (isSpecial && c == '\\')

/-- What a user name or a password cannot hold. -/
def escapesInUserinfo (c : Char) : Bool :=
  escapesInPath c || "/:;=@[\\]^|".toList.contains c

/-- What a query cannot hold. -/
def escapesInQuery (isSpecial : Bool) (c : Char) : Bool :=
  escapesAlways c || c == ' ' || c == '"' || c == '#' || c == '<' || c == '>' || (isSpecial && c == '\'')

/-! ## Encoding and decoding -/

/-- The capital hexadecimal digit worth `n`, where `n` is below sixteen. -/
def capitalDigit (n : Nat) : Char :=
  if n < 10 then Char.ofNat ('0'.toNat + n) else Char.ofNat ('A'.toNat + (n - 10))

/-- A byte behind a percent sign. -/
def escapeByte (b : UInt8) : List Char :=
  ['%', capitalDigit (b.toNat / 16), capitalDigit (b.toNat % 16)]

/-- A text with the characters in a set written as their bytes. -/
def percentEncode (escapes : Char → Bool) (s : List Char) : List Char :=
  s.flatMap fun c => if escapes c then (String.utf8EncodeChar c).flatMap escapeByte else [c]

/-- The byte that two hexadecimal digits write. -/
def hexByte? (a b : Char) : Option UInt8 := do
  .some (UInt8.ofNat ((← Text.digitValue 16 a) * 16 + (← Text.digitValue 16 b)))

/-- The bytes of a text, where a percent sign in front of two hexadecimal digits gives a byte. -/
def percentDecode : List Char → List UInt8
  | '%' :: a :: b :: s =>
    match hexByte? a b with
    | .some byte => byte :: percentDecode s
    | .none => String.utf8EncodeChar '%' ++ percentDecode (a :: b :: s)
  | c :: s => String.utf8EncodeChar c ++ percentDecode s
  | [] => []

end TokenGate.Url
