/-
Scalars in quotes.

A line break inside counts as a space, and each further one as a line feed; the gaps around them do not count. In
double quotes a backslash starts an escape, and one at the end of a line takes the break away.
-/
import TokenGate.Text.Decimal
import TokenGate.Yaml.Cursor

namespace TokenGate.Yaml

/-- What a number of line breaks counts as: the first one is `first`, and `more` follow. -/
def foldBreaks (first more : List Char) : List Char :=
  if first.head? = .some '\n' then (if more.isEmpty then [' '] else more) else first ++ more

/-- White space between the words of a scalar. -/
structure Spacing where
  /-- The gap, as long as no line has ended. -/
  gap : List Char
  /-- The first line break, if there is one that counts. -/
  first : List Char
  /-- The further line breaks. -/
  more : List Char
  /-- Whether a line has ended. -/
  isBroken : Bool

namespace Spacing

/-- No white space. -/
def none : Spacing := ⟨[], [], [], false⟩

/-- The text that the white space counts as. -/
def text (s : Spacing) : List Char :=
  if s.isBroken then foldBreaks s.first s.more else s.gap

/-- The white space with one more character of a gap. -/
def addGap (s : Spacing) (c : Char) : Spacing :=
  if s.isBroken then s else { s with gap := s.gap ++ [c] }

/-- The white space with one more line break. -/
def addBreak (s : Spacing) (b : List Char) : Spacing :=
  if s.isBroken then { s with more := s.more ++ b } else ⟨[], b, s.more, true⟩

end Spacing

/-- Reads white space, after that in `s`. -/
def readSpacing : (fuel : Nat) → Spacing → Cursor → Spacing × Cursor
  | 0, s, c => (s, c)
  | fuel + 1, s, c =>
    match c.rest with
    | x :: _ =>
      if isGap x then readSpacing fuel (s.addGap x) (c.skip 1)
      else if isBreak x then
        let (b, c) := c.readBreak
        readSpacing fuel (s.addBreak b) c
      else (s, c)
    | [] => (s, c)

/-- What the escapes of one letter stand for. -/
def escapeMeaning (c : Char) : Option Char :=
  match c with
  | '0' => .some (Char.ofNat 0)
  | 'a' => .some (Char.ofNat 7)
  | 'b' => .some (Char.ofNat 8)
  | 't' => .some '\t'
  | '\t' => .some '\t'
  | 'n' => .some '\n'
  | 'v' => .some (Char.ofNat 11)
  | 'f' => .some (Char.ofNat 12)
  | 'r' => .some '\r'
  | 'e' => .some (Char.ofNat 27)
  | ' ' => .some ' '
  | '"' => .some '"'
  | '/' => .some '/'
  | '\\' => .some '\\'
  | 'N' => .some (Char.ofNat 0x85)
  | '_' => .some (Char.ofNat 0xA0)
  | 'L' => .some (Char.ofNat 0x2028)
  | 'P' => .some (Char.ofNat 0x2029)
  | _ => .none

/-- How many hexadecimal digits follow the letter of an escape that gives a number. -/
def escapeWidth (c : Char) : Option Nat :=
  match c with
  | 'x' => .some 2
  | 'u' => .some 4
  | 'U' => .some 8
  | _ => .none

/-- Reads an escape, from the backslash on. -/
def readEscape (c : Cursor) : Option (Char × Cursor) := do
  let letter ← c.peek? 1
  match escapeWidth letter with
  | .none => .some (← escapeMeaning letter, c.skip 2)
  | .some width =>
    let digits := (c.rest.drop 2).take width
    if digits.length = width then
      let n ← Text.readDigits 16 digits
      if n.isValidChar then .some (Char.ofNat n, c.skip (2 + width)) else .none
    else .none

/-- Reads the words of a scalar up to white space or the closing quote. The white space in front of them is known to
be broken when a backslash has taken a line break away. -/
def readQuotedWord (quote : Char) : (fuel : Nat) → Cursor → Option (List Char × Spacing × Cursor)
  | 0, _ => .none
  | fuel + 1, c =>
    match c.rest with
    | [] => .some ([], .none, c)
    | x :: rest =>
      if isGap x || isBreak x then .some ([], .none, c)
      else if x = quote then
        if quote = '\'' ∧ rest.head? = .some '\'' then
          (readQuotedWord quote fuel (c.skip 2)).map fun (w, s) => ('\'' :: w, s)
        else .some ([], .none, c)
      else if quote = '"' ∧ x = '\\' then
        if rest.head?.any isBreak then .some ([], { Spacing.none with isBroken := true }, (c.skip 1).skipBreak)
        else do
          let (e, c) ← readEscape c
          (readQuotedWord quote fuel c).map fun (w, s) => (e :: w, s)
      else (readQuotedWord quote fuel (c.skip 1)).map fun (w, s) => (x :: w, s)

/-- Reads a scalar after its opening quote, and the closing quote. -/
def readQuotedFrom (quote : Char) : (fuel : Nat) → Cursor → Option (List Char × Cursor)
  | 0, _ => .none
  | fuel + 1, c =>
    if c.isAtDocumentMarker || c.isAtEnd then .none
    else do
      let (word, spacing, c) ← readQuotedWord quote (c.rest.length + 1) c
      if c.at? quote && !spacing.isBroken then .some (word, c.skip 1)
      else
        let (spacing, c) := readSpacing (c.rest.length + 1) spacing c
        let (text, c) ← readQuotedFrom quote fuel c
        .some (word ++ spacing.text ++ text, c)

/-- Reads a scalar in quotes. -/
def readQuoted (quote : Char) (c : Cursor) : Option (List Char × Cursor) :=
  readQuotedFrom quote (c.rest.length + 1) (c.skip 1)

end TokenGate.Yaml
