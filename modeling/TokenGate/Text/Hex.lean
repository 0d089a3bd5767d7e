/-
Bytes written as pairs of small hexadecimal digits.
-/
namespace TokenGate.Text

/-- The hexadecimal digit worth `n`, where `n` is below sixteen. -/
def hexDigit (n : Nat) : Char :=
  if n < 10 then Char.ofNat ('0'.toNat + n) else Char.ofNat ('a'.toNat + (n - 10))

/-- The two digits of a byte, the high one first. -/
def hexByte (b : UInt8) : List Char :=
  [hexDigit (b.toNat / 16), hexDigit (b.toNat % 16)]

/-- The digits of all bytes in order. -/
def hexBytes (bs : List UInt8) : List Char :=
  bs.flatMap hexByte

theorem length_hexBytes (bs : List UInt8) : (hexBytes bs).length = 2 * bs.length := by
  induction bs with
  | nil => rfl
  | cons b bs ih => simp [hexBytes, hexByte] at ih ⊢; omega

end TokenGate.Text
