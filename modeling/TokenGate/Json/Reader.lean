/-
Reading JSON. The reader takes exactly the texts of the grammar of RFC 8259, to any depth; what the strings and
numbers mean is left to `Json.Record`.
-/
import TokenGate.Json.Value

namespace TokenGate.Json

/-- White space between the parts of a value. -/
def isSpace (c : Char) : Bool :=
  c == ' ' || c == '\n' || c == '\r' || c == '\t'

/-- `s` from its first character on that is not white space. -/
def skipSpace (s : List Char) : List Char :=
  s.dropWhile isSpace

/-- Whether four hexadecimal digits come first. -/
def startsWithUnit (s : List Char) : Bool :=
  (s.take 4).length == 4 && (s.take 4).all fun c => (Text.digitValue 16 c).isSome

/-- Reads a string after its opening quote: its spelling, and what stands after the closing quote. -/
def readSpelling : List Char → Option (List Char × List Char)
  | [] => .none
  | '"' :: s => .some ([], s)
  | '\\' :: e :: s =>
    if e ∈ ['"', '\\', '/', 'b', 'f', 'n', 'r', 't'] ∨ (e = 'u' ∧ startsWithUnit s) then
      (readSpelling s).map fun (r, rest) => ('\\' :: e :: r, rest)
    else .none
  | c :: s =>
    if c.toNat < 32 ∨ c = '\\' then .none
    else (readSpelling s).map fun (r, rest) => (c :: r, rest)

/-- Splits the digits off the front of `s`; there has to be one. -/
def readRun (s : List Char) : Option (List Char × List Char) :=
  match s.takeWhile Char.isDigit with
  | [] => .none
  | ds => .some (ds, s.dropWhile Char.isDigit)

/-- Reads the integer part of a number: no zero stands in front of another digit. -/
def readWhole (s : List Char) : Option (List Char × List Char) :=
  match readRun s with
  | .some ('0' :: _ :: _, _) => .none
  | r => r

/-- Reads the fraction of a number, if there is one. -/
def readFraction : List Char → Option (List Char × List Char)
  | '.' :: s => (readRun s).map fun (ds, rest) => ('.' :: ds, rest)
  | s => .some ([], s)

/-- Reads the exponent of a number, if there is one. -/
def readExponent : List Char → Option (List Char × List Char)
  | e :: sign :: s =>
    if e = 'e' ∨ e = 'E' then
      if sign = '+' ∨ sign = '-' then (readRun s).map fun (ds, rest) => (e :: sign :: ds, rest)
      else (readRun (sign :: s)).map fun (ds, rest) => (e :: ds, rest)
    else .some ([], e :: sign :: s)
  | [e] => if e = 'e' ∨ e = 'E' then .none else .some ([], [e])
  | [] => .some ([], [])

/-- Reads a number without its sign. -/
def readMagnitude (s : List Char) : Option (List Char × List Char) := do
  let (whole, s) ← readWhole s
  let (fraction, s) ← readFraction s
  let (exponent, s) ← readExponent s
  .some (whole ++ fraction ++ exponent, s)

/-- Reads a number. -/
def readNumber : List Char → Option (List Char × List Char)
  | '-' :: s => (readMagnitude s).map fun (m, rest) => ('-' :: m, rest)
  | s => readMagnitude s

mutual

/-- Reads the value that `s` starts with. The fuel bounds the depth of the recursion. -/
def readValue : (fuel : Nat) → (s : List Char) → Option (Json × List Char)
  | 0, _ => .none
  | fuel + 1, s =>
    match s with
    | 'n' :: 'u' :: 'l' :: 'l' :: s => .some (.null, s)
    | 't' :: 'r' :: 'u' :: 'e' :: s => .some (.bool true, s)
    | 'f' :: 'a' :: 'l' :: 's' :: 'e' :: s => .some (.bool false, s)
    | '"' :: s => (readSpelling s).map fun (r, rest) => (.string r, rest)
    | '[' :: s =>
      match skipSpace s with
      | ']' :: s => .some (.array [], s)
      | s => (readItems fuel s).map fun (vs, rest) => (.array vs, rest)
    | c :: s =>
      if c = Char.ofNat 0x7B then
        match skipSpace s with
        | [] => .none
        | d :: s =>
          if d = Char.ofNat 0x7D then .some (.object [], s)
          else (readMembers fuel (d :: s)).map fun (ms, rest) => (.object ms, rest)
      else (readNumber (c :: s)).map fun (n, rest) => (.number n, rest)
    | [] => .none

/-- Reads the items of an array from the first one on, and its end. -/
def readItems : (fuel : Nat) → (s : List Char) → Option (List Json × List Char)
  | 0, _ => .none
  | fuel + 1, s => do
    let (v, s) ← readValue fuel s
    match skipSpace s with
    | ',' :: s =>
      let (vs, rest) ← readItems fuel (skipSpace s)
      .some (v :: vs, rest)
    | ']' :: s => .some ([v], s)
    | _ => .none

/-- Reads the members of an object from the first one on, and its end. -/
def readMembers : (fuel : Nat) → (s : List Char) → Option (List (List Char × Json) × List Char)
  | 0, _ => .none
  | fuel + 1, s =>
    match s with
    | '"' :: s => do
      let (k, s) ← readSpelling s
      match skipSpace s with
      | ':' :: s =>
        let (v, s) ← readValue fuel (skipSpace s)
        match skipSpace s with
        | c :: s =>
          if c = ',' then
            let (ms, rest) ← readMembers fuel (skipSpace s)
            .some ((k, v) :: ms, rest)
          else if c = Char.ofNat 0x7D then .some ([(k, v)], s)
          else .none
        | [] => .none
      | _ => .none
    | _ => .none

end

/-- The value that a whole text writes, white space around it allowed. Each character is reached through two
calls at most, which is what the fuel allows for. -/
def parse (s : List Char) : Option Json := do
  let (v, rest) ← readValue (2 * s.length + 2) (skipSpace s)
  if (skipSpace rest).isEmpty then .some v else .none

end TokenGate.Json
