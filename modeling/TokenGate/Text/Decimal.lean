/-
Numbers written in digits: reading a word of 64 bits, and the decimal form of a number.
-/
namespace TokenGate.Text

/-- One more than the largest number that a word of 64 bits holds. -/
def wordLimit : Nat := 1 <<< 64

/-- The value of a digit in a base of at most 36, if `c` is one. -/
def digitValue (base : Nat) (c : Char) : Option Nat :=
  let value :=
    if '0' ≤ c ∧ c ≤ '9' then c.toNat - '0'.toNat
    else if 'a' ≤ c ∧ c ≤ 'z' then c.toNat - 'a'.toNat + 10
    else if 'A' ≤ c ∧ c ≤ 'Z' then c.toNat - 'A'.toNat + 10
    else base
  if value < base then .some value else .none

/-- The number that a run of digits writes, after digits worth `acc`. -/
def readDigitsFrom (base acc : Nat) : List Char → Option Nat
  | [] => .some acc
  | c :: s => match digitValue base c with
    | .some d => readDigitsFrom base (acc * base + d) s
    | .none => .none

/-- The number that a non-empty run of digits writes. -/
def readDigits (base : Nat) : List Char → Option Nat
  | [] => .none
  | s => readDigitsFrom base 0 s

/-- `n` where it fits into a word of 64 bits. -/
def fitWord (n : Nat) : Option Nat :=
  if n < wordLimit then .some n else .none

/-- A decimal word of 64 bits: at least one digit, leading zeros allowed, and one plus sign in front allowed. -/
def readWord : List Char → Option Nat
  | '+' :: s => (readDigits 10 s).bind fitWord
  | s => (readDigits 10 s).bind fitWord

/-- The decimal digits of `n`, without leading zeros. -/
def decimal (n : Nat) : List Char :=
  Nat.toDigits 10 n

/-- The decimal form of an integer. -/
def decimalInt : Int → List Char
  | .ofNat n => decimal n
  | .negSucc n => '-' :: decimal (n + 1)

/-- What reads as a word fits into one. -/
theorem readWord_lt {s : List Char} {n : Nat} (h : readWord s = .some n) : n < wordLimit := by
  have key : ∀ {t : List Char}, (readDigits 10 t).bind fitWord = .some n → n < wordLimit := by
    intro t ht
    obtain ⟨m, -, hm⟩ := Option.bind_eq_some_iff.1 ht
    unfold fitWord at hm
    split at hm <;> simp_all
  unfold readWord at h
  split at h <;> exact key h

end TokenGate.Text
