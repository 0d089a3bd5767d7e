/-
International domain names: the form in ASCII of a name in any script.

Characters are mapped first: letters become small, full-width forms become plain ones, the full stops of other
scripts become dots, and characters that cannot be seen are dropped. Then each label that is not ASCII is written in
Punycode. The letters that have a small form here are those of the Latin, Greek, Cyrillic and Armenian scripts; a
character that is not in the tables stands for itself.
-/
import TokenGate.Text.Pieces
import TokenGate.Text.Utf8
import TokenGate.Url.Punycode

namespace TokenGate.Url.Idna

/-- Whether `n` lies in one of the ranges. -/
def isWithin (ranges : List (Nat × Nat)) (n : Nat) : Bool :=
  ranges.any fun (low, high) => low ≤ n && n ≤ high

/-- Characters that are dropped. -/
def ignored : List (Nat × Nat) :=
  [(0xAD, 0xAD), (0x34F, 0x34F), (0x180B, 0x180D), (0x180F, 0x180F), (0x200B, 0x200B), (0x2060, 0x2060),
   (0x2064, 0x2064), (0xFE00, 0xFE0F), (0xFEFF, 0xFEFF), (0xE0100, 0xE01EF)]

/-- Characters that no name may hold: controls, spaces, marks of direction, private use and what is no character. -/
def refused : List (Nat × Nat) :=
  [(0x80, 0xA0), (0x61C, 0x61C), (0x1680, 0x1680), (0x180E, 0x180E), (0x2000, 0x200A), (0x200C, 0x200F),
   (0x2028, 0x202F), (0x205F, 0x205F), (0x2061, 0x2063), (0x2065, 0x206F), (0x2FF0, 0x2FFF), (0x3000, 0x3000),
   (0xE000, 0xF8FF), (0xFFF9, 0xFFFF), (0xE0000, 0xE00FF), (0xE01F0, 0x10FFFF)]

/-- Marks that combine with the character before them, with which no label may begin. -/
def combining : List (Nat × Nat) :=
  [(0x300, 0x36F), (0x483, 0x489), (0x591, 0x5BD), (0x610, 0x61A), (0x64B, 0x65F), (0x1AB0, 0x1AFF),
   (0x1DC0, 0x1DFF), (0x20D0, 0x20FF), (0x302A, 0x302F), (0x3099, 0x309A), (0xFE20, 0xFE2F)]

/-- The capital letters that have their small form a fixed distance on. -/
def capitals : List (Nat × Nat × Nat) :=
  [(0x41, 0x5A, 32), (0xC0, 0xD6, 32), (0xD8, 0xDE, 32), (0x391, 0x3A1, 32), (0x3A3, 0x3AB, 32), (0x410, 0x42F, 32),
   (0x400, 0x40F, 80), (0x531, 0x556, 48)]

/-- The ranges in which small letters follow their capitals, which are even. -/
def evenCapitals : List (Nat × Nat) :=
  [(0x100, 0x12F), (0x132, 0x137), (0x14A, 0x177), (0x370, 0x373), (0x3D8, 0x3EF), (0x460, 0x481), (0x48A, 0x4BF),
   (0x4D0, 0x52F), (0x1E00, 0x1E95), (0x1EA0, 0x1EFF)]

/-- The ranges in which small letters follow their capitals, which are odd. -/
def oddCapitals : List (Nat × Nat) :=
  [(0x139, 0x148), (0x179, 0x17E), (0x1CD, 0x1DC), (0x4C1, 0x4CE)]

/-- The small form of a letter. -/
def small (n : Nat) : Nat :=
  match capitals.find? fun (low, high, _) => low ≤ n && n ≤ high with
  | .some (_, _, distance) => n + distance
  | .none =>
    if (isWithin evenCapitals n && n % 2 == 0) || (isWithin oddCapitals n && n % 2 == 1) then n + 1 else n

/-- What a character is mapped to, if a name may hold it. -/
def mapChar (c : Char) : Option (List Char) :=
  let n := c.toNat
  if isWithin ignored n then .some []
  else if isWithin refused n then .none
  else if n == 0x3002 || n == 0xFF0E || n == 0xFF61 then .some ['.']
  else if 0xFF01 ≤ n && n ≤ 0xFF5E then .some [Char.ofNat (small (n - 0xFEE0))]
  else .some [Char.ofNat (small n)]

/-- The characters of ASCII that no name may hold. -/
def isForbidden (c : Char) : Bool :=
  c.toNat ≤ 0x20 || c.toNat == 0x7F || "%#/:<>?@[\\]^|".toList.contains c

/-- What stands in front of a label that is written in Punycode. -/
def punycodeMark : List Char := "xn--".toList

/-- Whether a label in any script is in its final form. -/
def isFinal (label : List Char) : Bool :=
  label.all (fun c => mapChar c == .some [c]) &&
    !label.head?.any (fun c => isWithin combining c.toNat) && label.any (0x80 ≤ ·.toNat)

/-- The form in ASCII of a label whose characters have been mapped. -/
def labelToAscii (label : List Char) : Option (List Char) :=
  if punycodeMark.isPrefixOf label then
    if label.all (·.toNat < 0x80) && ((Punycode.decode (label.drop 4)).any isFinal) then .some label else .none
  else if label.all (·.toNat < 0x80) then .some label
  else if isFinal label then .some (punycodeMark ++ Punycode.encode label)
  else .none

/-- The form in ASCII of a name that is given by its bytes. -/
def toAscii (name : List UInt8) : Option (List Char) := do
  let mapped ← (Text.Utf8.decodeLossy name).mapM mapChar
  let labels ← (Text.pieces '.' mapped.flatten).mapM labelToAscii
  let ascii := Text.join '.' labels
  if ascii.any isForbidden then .none else .some ascii

end TokenGate.Url.Idna
