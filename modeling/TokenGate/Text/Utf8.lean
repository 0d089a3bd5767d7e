/-
UTF-8: the bytes of a text, the text of bytes that are well formed, and the reading that replaces each
ill-formed run by U+FFFD.
-/
namespace TokenGate.Text.Utf8

/-- The bytes of a text. -/
def encode (s : List Char) : List UInt8 :=
  s.flatMap String.utf8EncodeChar

/-- Whether `b` may follow the first byte of a character of several bytes. -/
def isContinuation (b : UInt8) : Bool :=
  0x80 ≤ b && b ≤ 0xBF

/-- How a first byte goes on: how many more bytes there are, and the bounds of the next one. -/
structure Lead where
  more : Nat
  low : UInt8
  high : UInt8
  payload : Nat

/-- What a first byte above 0x7F announces. Bytes that could only start an overlong form, a surrogate or a
value past U+10FFFF announce nothing. -/
def Lead.of? (b : UInt8) : Option Lead :=
  if 0xC2 ≤ b && b ≤ 0xDF then .some ⟨1, 0x80, 0xBF, b.toNat - 0xC0⟩
  else if b == 0xE0 then .some ⟨2, 0xA0, 0xBF, 0⟩
  else if b == 0xED then .some ⟨2, 0x80, 0x9F, 0xD⟩
  else if 0xE1 ≤ b && b ≤ 0xEF then .some ⟨2, 0x80, 0xBF, b.toNat - 0xE0⟩
  else if b == 0xF0 then .some ⟨3, 0x90, 0xBF, 0⟩
  else if 0xF1 ≤ b && b ≤ 0xF3 then .some ⟨3, 0x80, 0xBF, b.toNat - 0xF0⟩
  else if b == 0xF4 then .some ⟨3, 0x80, 0x8F, 4⟩
  else .none

/-- Reads `more` bytes after a first byte: the character they complete, or nothing, and how many bytes of the
input belong to it. -/
def follow : (more : Nat) → (low high : UInt8) → (payload : Nat) → List UInt8 → Option Char × Nat
  | 0, _, _, payload, _ => (.some (Char.ofNat payload), 0)
  | _ + 1, _, _, _, [] => (.none, 0)
  | more + 1, low, high, payload, b :: bs =>
    if low ≤ b && b ≤ high then
      let (c, used) := follow more 0x80 0xBF (payload * 64 + (b.toNat - 0x80)) bs
      (c, used + 1)
    else (.none, 0)

/-- The first character of the bytes `b :: bs`, if they start with one, and how many of `bs` it uses. A run
that breaks off counts the bytes up to the break. -/
def first (b : UInt8) (bs : List UInt8) : Option Char × Nat :=
  if b < 0x80 then (.some (Char.ofNat b.toNat), 0)
  else match Lead.of? b with
    | .none => (.none, 0)
    | .some l => follow l.more l.low l.high l.payload bs

/-- The text of well-formed bytes. -/
def decode? : List UInt8 → Option (List Char)
  | [] => .some []
  | b :: bs =>
    match first b bs with
    | (.none, _) => .none
    | (.some c, used) => (decode? (bs.drop used)).map (c :: ·)
termination_by bs => bs.length
decreasing_by simp only [List.length_drop, List.length_cons]; omega

/-- The text of any bytes, each ill-formed run replaced by U+FFFD. -/
def decodeLossy : List UInt8 → List Char
  | [] => []
  | b :: bs =>
    let found := first b bs
    found.1.getD (Char.ofNat 0xFFFD) :: decodeLossy (bs.drop found.2)
termination_by bs => bs.length
decreasing_by simp only [List.length_drop, List.length_cons]; omega

end TokenGate.Text.Utf8
