/-
The tokens of a text.

A key without a sign of its own is known to be one only when the colon behind it is found, so the place in front of
everything that could be a key is remembered, and the tokens that open a mapping are put there later. Such a key
lies on one line and is not longer than 1024 characters. Where the indentation says that a key has to come, its colon
may not be missing.
-/
import TokenGate.Yaml.Token.Block
import TokenGate.Yaml.Token.Plain
import TokenGate.Yaml.Token.Tag

namespace TokenGate.Yaml

/-- A place where a key may have begun. -/
structure KeyPlace where
  /-- How many tokens stand in front of it. -/
  position : Nat
  line : Nat
  column : Nat
  index : Nat
  /-- Whether nothing but a key can begin there. -/
  isRequired : Bool

/-- The state of the lexer. -/
structure Lexer where
  cursor : Cursor
  /-- The tokens so far. -/
  tokens : Array Token
  /-- The indentation of the innermost block, less than zero outside all blocks. -/
  indent : Int
  /-- The indentations of the blocks around it. -/
  outer : List Int
  /-- Whether a key may begin here. -/
  keyAllowed : Bool
  /-- Where a key may have begun outside brackets. -/
  blockKey : Option KeyPlace
  /-- Where a key may have begun inside each pair of brackets that is open, the innermost first. -/
  flowKeys : List (Option KeyPlace)

namespace Lexer

/-- The longest key that has no sign of its own. -/
def maxKeyLength : Nat := 1024

/-- The lexer at the start of a text. -/
def start (s : List Char) : Lexer where
  cursor := Cursor.ofText s
  tokens := #[]
  indent := -1
  outer := []
  keyAllowed := true
  blockKey := .none
  flowKeys := []

/-- Whether brackets are open. -/
def inFlow (l : Lexer) : Bool :=
  !l.flowKeys.isEmpty

/-- Adds a token. -/
def emit (l : Lexer) (t : Token) : Lexer :=
  { l with tokens := l.tokens.push t }

/-- Puts a token in front of those from `position` on. -/
def insert (l : Lexer) (position : Nat) (t : Token) : Lexer :=
  { l with tokens := (l.tokens.toList.take position ++ t :: l.tokens.toList.drop position).toArray }

/-! ## Keys -/

/-- Where a key may have begun inside the innermost brackets. -/
def keyPlace (l : Lexer) : Option KeyPlace :=
  match l.flowKeys with
  | k :: _ => k
  | [] => l.blockKey

/-- Changes where a key may have begun inside the innermost brackets. -/
def setKeyPlace (l : Lexer) (k : Option KeyPlace) : Lexer :=
  match l.flowKeys with
  | _ :: ks => { l with flowKeys := k :: ks }
  | [] => { l with blockKey := k }

/-- No key has begun at the place remembered; that is a fault where one had to. -/
def dropKey (l : Lexer) : Option Lexer :=
  if l.keyPlace.any KeyPlace.isRequired then .none else .some (l.setKeyPlace .none)

/-- Remembers this place, if a key may begin here. -/
def saveKey (l : Lexer) : Option Lexer :=
  if l.keyAllowed then do
    let c := l.cursor
    let isRequired := !l.inFlow && l.indent == (c.column : Int)
    let l ← l.dropKey
    .some (l.setKeyPlace (.some ⟨l.tokens.size, c.line, c.column, c.index, isRequired⟩))
  else .some l

/-- Whether the colon of a key that began at `k` can no longer come. -/
def isStale (c : Cursor) (k : KeyPlace) : Bool :=
  k.line < c.line || k.index + maxKeyLength < c.index

/-- Forgets the places whose colon can no longer come; that is a fault where a key had to begin. -/
def dropStale (l : Lexer) : Option Lexer :=
  let isGone (k : Option KeyPlace) : Bool := k.any (isStale l.cursor)
  let isFault (k : Option KeyPlace) : Bool := isGone k && k.any KeyPlace.isRequired
  let keep (k : Option KeyPlace) : Option KeyPlace := if isGone k then .none else k
  if isFault l.blockKey || l.flowKeys.any isFault then .none
  else .some { l with blockKey := keep l.blockKey, flowKeys := l.flowKeys.map keep }

/-! ## Indentation -/

/-- Opens a block at `column`, if that is further in than the innermost one. Its token goes to `position`, or to the
end. -/
def openBlock (l : Lexer) (column : Nat) (position : Option Nat) (t : Token) : Lexer :=
  if l.inFlow || (column : Int) ≤ l.indent then l
  else
    let l := { l with outer := l.indent :: l.outer, indent := column }
    match position with
    | .some p => l.insert p t
    | .none => l.emit t

/-- Closes the blocks that are further in than `column`. -/
def closeBlocks (l : Lexer) (column : Int) : Lexer :=
  if l.inFlow then l
  else
    let closed := ((l.indent :: l.outer).takeWhile (column < ·)).length
    { l with
      tokens := l.tokens ++ Array.replicate closed Token.blockEnd
      indent := ((l.indent :: l.outer).drop closed).headD (-1)
      outer := (l.indent :: l.outer).drop (closed + 1) }

/-! ## Tokens -/

/-- Passes over white space and comments. A tab is white space only where no key can begin. -/
def skipToToken : (fuel : Nat) → Lexer → Lexer
  | 0, l => l
  | fuel + 1, l =>
    let c := l.cursor
    let c := if c.column = 0 ∧ c.at? (Char.ofNat 0xFEFF) then c.skip 1 else c
    let c := c.skipWhile fun x => x == ' ' || ((l.inFlow || !l.keyAllowed) && x == '\t')
    let c := if c.at? '#' then c.skipLine else c
    if c.holds isBreak then
      skipToToken fuel { l with cursor := c.skipBreak, keyAllowed := l.keyAllowed || !l.inFlow }
    else { l with cursor := c }

/-- Adds a token of `n` characters. -/
def take (l : Lexer) (n : Nat) (t : Token) : Lexer :=
  { l.emit t with cursor := l.cursor.skip n }

/-- The marker at the start or the end of a document. -/
def documentMarker (l : Lexer) (t : Token) : Option Lexer := do
  let l ← (l.closeBlocks (-1)).dropKey
  .some ({ l with keyAllowed := false }.take 3 t)

/-- A directive. -/
def directive (l : Lexer) : Option Lexer := do
  let l ← (l.closeBlocks (-1)).dropKey
  let (t, c) ← readDirective l.cursor
  .some { l.emit t with cursor := c, keyAllowed := false }

/-- An opening bracket. -/
def openFlow (l : Lexer) (t : Token) : Option Lexer := do
  let l ← l.saveKey
  .some ({ l with flowKeys := .none :: l.flowKeys, keyAllowed := true }.take 1 t)

/-- A closing bracket. -/
def closeFlow (l : Lexer) (t : Token) : Option Lexer := do
  let l ← l.dropKey
  .some ({ l with flowKeys := l.flowKeys.drop 1, keyAllowed := false }.take 1 t)

/-- A comma between items. -/
def flowEntry (l : Lexer) : Option Lexer := do
  let l ← l.dropKey
  .some ({ l with keyAllowed := true }.take 1 .flowEntry)

/-- The dash in front of an item. -/
def blockEntry (l : Lexer) : Option Lexer :=
  if !l.inFlow && !l.keyAllowed then .none
  else do
    let l ← (l.openBlock l.cursor.column .none .blockSequenceStart).dropKey
    .some ({ l with keyAllowed := true }.take 1 .blockEntry)

/-- The question mark in front of a key. -/
def explicitKey (l : Lexer) : Option Lexer :=
  if !l.inFlow && !l.keyAllowed then .none
  else do
    let l ← (l.openBlock l.cursor.column .none .blockMappingStart).dropKey
    .some ({ l with keyAllowed := !l.inFlow }.take 1 .key)

/-- The colon in front of a value. -/
def value (l : Lexer) : Option Lexer :=
  match l.keyPlace with
  | .some k =>
    let l := (l.insert k.position .key).openBlock k.column (.some k.position) .blockMappingStart
    .some ({ l.setKeyPlace .none with keyAllowed := false }.take 1 .value)
  | .none =>
    if !l.inFlow && !l.keyAllowed then .none
    else
      let l := l.openBlock l.cursor.column .none .blockMappingStart
      .some ({ l with keyAllowed := !l.inFlow }.take 1 .value)

/-- An anchor, or an alias. -/
def anchor (l : Lexer) (t : List Char → Token) : Option Lexer := do
  let l ← l.saveKey
  let (name, c) ← readAnchorName l.cursor
  .some { l.emit (t name) with cursor := c, keyAllowed := false }

/-- A tag. -/
def tag (l : Lexer) : Option Lexer := do
  let l ← l.saveKey
  let (t, c) ← readTag l.inFlow l.cursor
  .some { l.emit t with cursor := c, keyAllowed := false }

/-- A block scalar. -/
def blockScalar (l : Lexer) (isLiteral : Bool) : Option Lexer := do
  let l ← l.dropKey
  let (text, c) ← readBlock isLiteral l.indent l.cursor
  .some { l.emit (.scalar text (if isLiteral then .literal else .folded)) with cursor := c, keyAllowed := true }

/-- A scalar in quotes. -/
def quotedScalar (l : Lexer) (quote : Char) (style : Style) : Option Lexer := do
  let l ← l.saveKey
  let (text, c) ← readQuoted quote l.cursor
  .some { l.emit (.scalar text style) with cursor := c, keyAllowed := false }

/-- A plain scalar. A key may begin behind it when its last line has ended. -/
def plainScalar (l : Lexer) : Option Lexer := do
  let l ← l.saveKey
  let (text, isBroken, c) ← readPlain l.inFlow (l.indent + 1).toNat l.cursor
  .some { l.emit (.scalar text .plain) with cursor := c, keyAllowed := isBroken }

/-- Whether a plain scalar can begin with `x`, which stands in front of the end of a word or not. -/
def beginsPlain (inFlow endsWord isGapped : Bool) (x : Char) : Bool :=
  if x == '-' then !isGapped
  else if x == '?' || x == ':' then !inFlow && !endsWord
  else !(isFlowIndicator x || "#&*!|>'\"%@".toList.contains x || x == Char.ofNat 0x60)

/-- The end of the text. -/
def finish (l : Lexer) : Option Lexer :=
  (l.closeBlocks (-1)).dropKey

/-- The next token, which begins with `x`. -/
def token (l : Lexer) (x : Char) : Option Lexer :=
  let c := l.cursor
  let endsWord := c.isWordEnd 1
  if c.column = 0 ∧ x = '%' then l.directive
  else if c.isAtMarker '-' then l.documentMarker .documentStart
  else if c.isAtMarker '.' then l.documentMarker .documentEnd
  else if x = '[' then l.openFlow .flowSequenceStart
  else if x = Char.ofNat 0x7B then l.openFlow .flowMappingStart
  else if x = ']' then l.closeFlow .flowSequenceEnd
  else if x = Char.ofNat 0x7D then l.closeFlow .flowMappingEnd
  else if x = ',' then l.flowEntry
  else if x = '-' ∧ endsWord then l.blockEntry
  else if x = '?' ∧ (l.inFlow ∨ endsWord) then l.explicitKey
  else if x = ':' ∧ (l.inFlow ∨ endsWord) then l.value
  else if x = '*' then l.anchor .reference
  else if x = '&' then l.anchor .anchor
  else if x = '!' then l.tag
  else if x = '|' ∧ !l.inFlow then l.blockScalar true
  else if x = '>' ∧ !l.inFlow then l.blockScalar false
  else if x = '\'' then l.quotedScalar '\'' .singleQuoted
  else if x = '"' then l.quotedScalar '"' .doubleQuoted
  else if beginsPlain l.inFlow endsWord ((c.peek? 1).any isGap) x && !isGap x then l.plainScalar
  else .none

/-- Reads tokens to the end of the text. -/
def run : (fuel : Nat) → Lexer → Option Lexer
  | 0, _ => .none
  | fuel + 1, l => do
    let l ← (l.skipToToken (l.cursor.rest.length + 1)).dropStale
    match l.cursor.rest with
    | [] => l.finish
    | x :: _ => run fuel (← (l.closeBlocks l.cursor.column).token x)

end Lexer

/-- The tokens of a text. -/
def tokenize (s : List Char) : Option (List Token) :=
  if s.all isPrintable then ((Lexer.start s).run (s.length + 1)).map fun l => l.tokens.toList else .none

end TokenGate.Yaml
