/-
Reading socket addresses. An address of the older kind is written in four decimal bytes without leading zeros; one
of the newer kind in groups of at most four hexadecimal digits, in brackets, with one gap of zeros allowed and
the older notation allowed for the last two groups.
-/
import TokenGate.Net.Address

namespace TokenGate.Net

/-- Reads digits while they last: their number, their value, and what follows. -/
def readDigitRun (base : Nat) : (count acc : Nat) → List Char → Nat × Nat × List Char
  | count, acc, [] => (count, acc, [])
  | count, acc, c :: s =>
    match Text.digitValue base c with
    | .some d => readDigitRun base (count + 1) (acc * base + d) s
    | .none => (count, acc, c :: s)

/-- Reads a number below `limit`, written in digits of which there are at most `most`, if that is given. -/
def readNumber (base limit : Nat) (most : Option Nat) (zerosAllowed : Bool) (s : List Char) :
    Option (Nat × List Char) :=
  let (count, value, rest) := readDigitRun base 0 0 s
  if count = 0 ∨ most.any (· < count) ∨ limit ≤ value then .none
  else if !zerosAllowed && 1 < count && s.head? == .some '0' then .none
  else .some (value, rest)

/-- Reads one given character. -/
def readChar (c : Char) : List Char → Option (List Char)
  | d :: s => if d = c then .some s else .none
  | [] => .none

/-- Reads a byte of an address of the older kind. -/
def readByte (s : List Char) : Option (Nat × List Char) :=
  readNumber 10 256 (.some 3) false s

/-- Reads an address of the older kind. -/
def readV4 (s : List Char) : Option (List Nat × List Char) := do
  let (a, s) ← readByte s
  let (b, s) ← readByte (← readChar '.' s)
  let (c, s) ← readByte (← readChar '.' s)
  let (d, s) ← readByte (← readChar '.' s)
  .some ([a, b, c, d], s)

/-- Reads at most `limit` groups with colons between them, as many as there are; `isFirst` says that none has been
read. An address of the older kind may stand for the last two groups, and the answer says whether one does. -/
def readGroups : (limit : Nat) → (isFirst : Bool) → List Char → List Nat × Bool × List Char
  | 0, _, s => ([], false, s)
  | limit + 1, isFirst, s =>
    match if isFirst then .some s else readChar ':' s with
    | .none => ([], false, s)
    | .some t =>
      match if limit = 0 then .none else readV4 t with
      | .some ([a, b, c, d], rest) => ([a * 256 + b, c * 256 + d], true, rest)
      | _ =>
        match readNumber 16 65536 (.some 4) true t with
        | .none => ([], false, s)
        | .some (g, rest) =>
          let (gs, ended, rest) := readGroups limit false rest
          (g :: gs, ended, rest)

/-- Reads an address of the newer kind. -/
def readV6 (s : List Char) : Option (List Nat × List Char) :=
  let (front, ended, rest) := readGroups 8 true s
  if front.length = 8 then .some (front, rest)
  else if ended then .none
  else do
    let s ← readChar ':' rest
    let s ← readChar ':' s
    let (back, _, rest) := readGroups (7 - front.length) true s
    .some (front ++ List.replicate (8 - front.length - back.length) 0 ++ back, rest)

/-- Reads a colon and the number of a port. -/
def readPort (s : List Char) : Option (Nat × List Char) := do
  readNumber 10 65536 .none true (← readChar ':' s)

/-- Reads the scope of an address, which is zero where none is given. -/
def readScope (s : List Char) : Nat × List Char :=
  match (readChar '%' s).bind (readNumber 10 (1 <<< 32) .none true) with
  | .some (n, rest) => (n, rest)
  | .none => (0, s)

/-- Reads a socket address of the older kind. -/
def readSocketV4 (s : List Char) : Option (SocketAddress × List Char) := do
  let (bytes, s) ← readV4 s
  let (p, s) ← readPort s
  .some (⟨.v4 bytes, 0, p⟩, s)

/-- Reads a socket address of the newer kind. -/
def readSocketV6 (s : List Char) : Option (SocketAddress × List Char) := do
  let (groups, s) ← readV6 (← readChar '[' s)
  let (scope, s) := readScope s
  let (p, s) ← readPort (← readChar ']' s)
  .some (⟨.v6 groups, scope, p⟩, s)

/-- The socket address that a whole text writes. -/
def SocketAddress.parse (s : String) : Option SocketAddress :=
  match (readSocketV4 s.toList).or (readSocketV6 s.toList) with
  | .some (a, []) => .some a
  | _ => .none

end TokenGate.Net
