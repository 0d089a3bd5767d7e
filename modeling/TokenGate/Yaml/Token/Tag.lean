/-
Directives, anchors, aliases and tags.
-/
import TokenGate.Text.Decimal
import TokenGate.Yaml.Cursor
import TokenGate.Yaml.Token

namespace TokenGate.Yaml

/-- Whether a character may follow the name of an anchor or an alias at once. -/
def endsAnchor (c : Char) : Bool :=
  c == '?' || c == ':' || c == ',' || c == ']' || c == Char.ofNat 0x7D || c == '%' || c == '@' ||
    c == Char.ofNat 0x60

/-- Reads the name of an anchor or an alias after its sign. -/
def readAnchorName (c : Cursor) : Option (List Char × Cursor) :=
  let (name, c) := (c.skip 1).span isWordChar
  if name.isEmpty || !(c.isWordEnd 0 || c.holds endsAnchor) then .none else .some (name, c)

/-! ## Tags -/

/-- Whether a character may stand in the URI of a tag; a tag in angle brackets may hold some more. -/
def isUriChar (isVerbatim : Bool) (c : Char) : Bool :=
  isWordChar c || ";/?:@&=+$.!~*'()".toList.contains c || (isVerbatim && (c == ',' || c == '[' || c == ']'))

/-- How many bytes a character has whose first byte is `b`. -/
def byteCount (b : Nat) : Option Nat :=
  if b < 0x80 then .some 1
  else if b / 32 = 6 then .some 2
  else if b / 16 = 14 then .some 3
  else if b / 8 = 30 then .some 4
  else .none

/-- Reads `n` bytes of a character that are written with percent signs, the ones behind the first byte. -/
def readTrailing : (n : Nat) → Cursor → Option (List Char × Cursor)
  | 0, c => .some ([], c)
  | n + 1, c =>
    match c.rest with
    | '%' :: a :: b :: _ => do
      let byte ← Text.readDigits 16 [a, b]
      if byte / 64 = 2 then
        let (bytes, c) ← readTrailing n (c.skip 3)
        .some (Char.ofNat byte :: bytes, c)
      else .none
    | _ => .none

/-- Reads the bytes of one character that are written with percent signs. Each byte is kept as a character. -/
def readEscapedChar (c : Cursor) : Option (List Char × Cursor) :=
  match c.rest with
  | '%' :: a :: b :: _ => do
    let byte ← Text.readDigits 16 [a, b]
    let count ← byteCount byte
    let (bytes, c) ← readTrailing (count - 1) (c.skip 3)
    .some (Char.ofNat byte :: bytes, c)
  | _ => .none

/-- Reads the characters of a URI. -/
def readUri (isVerbatim : Bool) : (fuel : Nat) → Cursor → Option (List Char × Cursor)
  | 0, _ => .none
  | fuel + 1, c =>
    if c.at? '%' then do
      let (bytes, c) ← readEscapedChar c
      let (uri, c) ← readUri isVerbatim fuel c
      .some (bytes ++ uri, c)
    else if c.holds (isUriChar isVerbatim) then
      match c.span (isUriChar isVerbatim) with
      | (front, c) => (readUri isVerbatim fuel c).map fun (uri, c) => (front ++ uri, c)
    else .some ([], c)

/-- Reads a URI of at least one character. -/
def readSomeUri (isVerbatim : Bool) (c : Cursor) : Option (List Char × Cursor) :=
  (readUri isVerbatim (c.rest.length + 1) c).filter fun (uri, _) => !uri.isEmpty

/-- Reads an exclamation mark, a name and perhaps another exclamation mark. -/
def readHandle (c : Cursor) : Option (List Char × Cursor) :=
  if c.at? '!' then
    let (name, c) := (c.skip 1).span isWordChar
    if c.at? '!' then .some ('!' :: name ++ ['!'], c.skip 1) else .some ('!' :: name, c)
  else .none

/-- Whether a handle names a prefix of tags: it is more than one exclamation mark and ends in one. -/
def isNamedHandle (handle : List Char) : Bool :=
  1 < handle.length && handle.getLast? == .some '!'

/-- Reads a tag without angle brackets: its handle and its suffix. What looks like a handle but does not end in an
exclamation mark belongs to the suffix, and an exclamation mark alone is a tag of its own. -/
def readShorthandTag (c : Cursor) : Option (List Char × List Char × Cursor) := do
  let (handle, c) ← readHandle c
  if isNamedHandle handle then
    let (suffix, c) ← readSomeUri false c
    .some (handle, suffix, c)
  else
    let (rest, c) ← readUri false (c.rest.length + 1) c
    match handle.drop 1 ++ rest with
    | [] => .some ([], ['!'], c)
    | suffix => .some (['!'], suffix, c)

/-- Reads a tag in angle brackets, which has no handle. -/
def readVerbatimTag (c : Cursor) : Option (List Char × List Char × Cursor) := do
  let (uri, c) ← readSomeUri true (c.skip 2)
  if c.at? '>' then .some ([], uri, c.skip 1) else .none

/-- Reads a tag. A space, the end of a line or, inside brackets, a comma follows it. -/
def readTag (inFlow : Bool) (c : Cursor) : Option (Token × Cursor) := do
  let (handle, suffix, c) ← if c.peek? 1 == .some '<' then readVerbatimTag c else readShorthandTag c
  if c.isWordEnd 0 || (inFlow && c.at? ',') then .some (.tag handle suffix, c) else .none

/-! ## Directives -/

/-- Reads a number of at most nine digits. -/
def readVersionNumber (c : Cursor) : Option (Nat × Cursor) :=
  let (digits, c) := c.span Char.isDigit
  if digits.length ≤ 9 then (Text.readDigits 10 digits).map fun n => (n, c) else .none

/-- Reads the value of a version directive. -/
def readVersion (c : Cursor) : Option (Token × Cursor) := do
  let (major, c) ← readVersionNumber (c.skipWhile isGap)
  if c.at? '.' then
    let (minor, c) ← readVersionNumber (c.skip 1)
    .some (.versionDirective major minor, c)
  else .none

/-- Reads the value of a tag directive. -/
def readTagPrefix (c : Cursor) : Option (Token × Cursor) := do
  let (handle, c) ← readHandle (c.skipWhile isGap)
  if (handle == ['!'] || isNamedHandle handle) && c.holds isGap then
    let (uri, c) ← readSomeUri true (c.skipWhile isGap)
    if c.isWordEnd 0 then .some (.tagDirective handle uri, c) else .none
  else .none

/-- Reads a directive and the rest of its line. -/
def readDirective (c : Cursor) : Option (Token × Cursor) := do
  let (name, c) := (c.skip 1).span isWordChar
  if name.isEmpty || !c.isWordEnd 0 then .none
  else
    let (token, c) ←
      if name = "YAML".toList then readVersion c
      else if name = "TAG".toList then readTagPrefix c
      else .none
    .some (token, ← c.finishLine)

end TokenGate.Yaml
