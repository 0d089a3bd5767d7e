/-
The place of a reader in a YAML text, and the classes of characters it tells apart.
-/
namespace TokenGate.Yaml

/-- Whether a character may stand in a YAML text at all. -/
def isPrintable (c : Char) : Bool :=
  let n := c.toNat
  n == 0x09 || n == 0x0A || n == 0x0D || (0x20 ≤ n && n ≤ 0x7E) || n == 0x85 || (0xA0 ≤ n && n ≤ 0xD7FF) ||
    (0xE000 ≤ n && n ≤ 0xFFFD) || 0x10000 ≤ n

/-- Whether a character ends a line. -/
def isBreak (c : Char) : Bool :=
  let n := c.toNat
  n == 0x0A || n == 0x0D || n == 0x85 || n == 0x2028 || n == 0x2029

/-- Whether a character is a space or a tab. -/
def isGap (c : Char) : Bool :=
  c == ' ' || c == '\t'

/-- Whether a character may stand in the name of an anchor, a handle or a directive. -/
def isWordChar (c : Char) : Bool :=
  c.isAlphanum || c == '_' || c == '-'

/-- The characters that open and close collections written in brackets, and the comma between their items. -/
def isFlowIndicator (c : Char) : Bool :=
  c == ',' || c == '[' || c == ']' || c == Char.ofNat 0x7B || c == Char.ofNat 0x7D

/-- What is left to read, and how much has been read. -/
structure Cursor where
  rest : List Char
  line : Nat
  column : Nat
  index : Nat

namespace Cursor

/-- The start of a text. -/
def ofText (s : List Char) : Cursor := ⟨s, 0, 0, 0⟩

/-- The character `n` places on. -/
def peek? (c : Cursor) (n : Nat) : Option Char :=
  c.rest[n]?

/-- Whether the next character is `x`. -/
def at? (c : Cursor) (x : Char) : Bool :=
  c.rest.head? == .some x

/-- Whether the text has ended. -/
def isAtEnd (c : Cursor) : Bool :=
  c.rest.isEmpty

/-- Whether the next character satisfies `p`. -/
def holds (c : Cursor) (p : Char → Bool) : Bool :=
  c.rest.head?.any p

/-- Whether the character `n` places on ends a word: a space, a tab, the end of a line or of the text. -/
def isWordEnd (c : Cursor) (n : Nat) : Bool :=
  (c.peek? n).all fun x => isGap x || isBreak x

/-- Passes over `n` characters of one line. -/
def skip (c : Cursor) (n : Nat) : Cursor :=
  ⟨c.rest.drop n, c.line, c.column + n, c.index + n⟩

/-- Passes over the end of a line, which may be two characters. The text that it counts as comes first: each end of
a line counts as a line feed, but for the two separators of Unicode. -/
def readBreak (c : Cursor) : List Char × Cursor :=
  match c.rest with
  | '\r' :: '\n' :: s => (['\n'], ⟨s, c.line + 1, 0, c.index + 2⟩)
  | x :: s =>
    if isBreak x then
      ((if x.toNat = 0x2028 ∨ x.toNat = 0x2029 then [x] else ['\n']), ⟨s, c.line + 1, 0, c.index + 1⟩)
    else ([], c)
  | [] => ([], c)

/-- Passes over the end of a line. -/
def skipBreak (c : Cursor) : Cursor :=
  c.readBreak.2

/-- Reads characters as long as they satisfy `p`, which holds of no character that ends a line. -/
def span (c : Cursor) (p : Char → Bool) : List Char × Cursor :=
  let taken := c.rest.takeWhile p
  (taken, c.skip taken.length)

/-- Passes over characters as long as they satisfy `p`. -/
def skipWhile (c : Cursor) (p : Char → Bool) : Cursor :=
  (c.span p).2

/-- Passes over what is left of the line. -/
def skipLine (c : Cursor) : Cursor :=
  c.skipWhile fun x => !isBreak x

/-- Passes over spaces and tabs, a comment and the end of the line; anything else is a fault. -/
def finishLine (c : Cursor) : Option Cursor :=
  let c := c.skipWhile isGap
  let c := if c.at? '#' then c.skipLine else c
  if c.isAtEnd then .some c
  else if c.holds isBreak then .some c.skipBreak
  else .none

/-- Whether a marker of three equal characters stands at the start of the line. -/
def isAtMarker (c : Cursor) (x : Char) : Bool :=
  c.column == 0 && c.rest.take 3 == [x, x, x] && c.isWordEnd 3

/-- Whether a document starts or ends here. -/
def isAtDocumentMarker (c : Cursor) : Bool :=
  c.isAtMarker '-' || c.isAtMarker '.'

end Cursor

end TokenGate.Yaml
