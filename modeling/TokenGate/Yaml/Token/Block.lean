/-
Block scalars: lines that are taken as they are, or folded into paragraphs.
-/
import TokenGate.Yaml.Cursor

namespace TokenGate.Yaml

/-- What becomes of the line breaks at the end of a block. -/
inductive Chomping where
  | strip
  | clip
  | keep
deriving DecidableEq

/-- The sign of a chomping. -/
def Chomping.ofChar? (c : Char) : Option Chomping :=
  match c with
  | '-' => .some strip
  | '+' => .some keep
  | _ => .none

/-- Reads the digit that gives the indentation of a block, if there is one; it is not zero. -/
def readIncrement (c : Cursor) : Option (Option Nat × Cursor) :=
  match c.rest with
  | x :: _ =>
    if x = '0' then .none
    else if x.isDigit then .some (.some (x.toNat - '0'.toNat), c.skip 1)
    else .some (.none, c)
  | [] => .some (.none, c)

/-- Reads what stands behind the sign of a block: the chomping and the indentation, in either order. -/
def readBlockHeader (c : Cursor) : Option (Chomping × Option Nat × Cursor) :=
  match (c.rest.head?).bind Chomping.ofChar? with
  | .some chomping => do
    let (increment, c) ← readIncrement (c.skip 1)
    .some (chomping, increment, c)
  | .none => do
    let (increment, c) ← readIncrement c
    match if increment.isSome then (c.rest.head?).bind Chomping.ofChar? else .none with
    | .some chomping => .some (chomping, increment, c.skip 1)
    | .none => .some (.clip, increment, c)

/-- Reads empty lines and the indentation of the next line. Where the indentation is not known, all spaces count,
and the widest of these lines is told. -/
def readBlockBreaks (indent : Option Nat) :
    (fuel : Nat) → (widest : Nat) → Cursor → Option (List Char × Nat × Cursor)
  | 0, _, _ => .none
  | fuel + 1, widest, c =>
    let spaces := (c.rest.takeWhile (· == ' ')).length
    let taken := match indent with
      | .some n => min spaces (n - c.column)
      | .none => spaces
    let c := c.skip taken
    let widest := max widest c.column
    if c.at? '\t' && indent.all (c.column < ·) then .none
    else if c.holds isBreak then do
      let (b, c) := c.readBreak
      let (bs, widest, c) ← readBlockBreaks indent fuel widest c
      .some (b ++ bs, widest, c)
    else .some ([], widest, c)

/-- The lines of a block that have been read. -/
structure BlockText where
  text : List Char
  /-- The line break behind the last line. -/
  lineBreak : List Char
  /-- The breaks of the empty lines behind it. -/
  empty : List Char
  /-- Whether the last line starts with a gap. -/
  isGapped : Bool

namespace BlockText

/-- What stands in front of the next line, which starts with a gap or not. A folded block joins two lines by a space,
unless one of them starts with a gap or empty lines stand between them. -/
def joint (b : BlockText) (isLiteral startsGapped : Bool) : List Char :=
  if !isLiteral && b.lineBreak.head? == .some '\n' && !b.isGapped && !startsGapped then
    if b.empty.isEmpty then [' '] else b.empty
  else b.lineBreak ++ b.empty

/-- The text of the whole block. -/
def finish (b : BlockText) : Chomping → List Char
  | .strip => b.text
  | .clip => b.text ++ b.lineBreak
  | .keep => b.text ++ b.lineBreak ++ b.empty

end BlockText

/-- Reads the lines of a block that are indented by `indent`. -/
def readBlockLines (isLiteral : Bool) (indent : Nat) :
    (fuel : Nat) → BlockText → Cursor → Option (BlockText × Cursor)
  | 0, _, _ => .none
  | fuel + 1, b, c =>
    if c.column == indent && !c.isAtEnd then do
      let startsGapped := c.holds isGap
      let (line, c) := c.span fun x => !isBreak x
      let (lineBreak, c) := c.readBreak
      let (empty, _, c) ← readBlockBreaks (.some indent) (c.rest.length + 1) 0 c
      let text := b.text ++ b.joint isLiteral startsGapped ++ line
      readBlockLines isLiteral indent fuel ⟨text, lineBreak, empty, startsGapped⟩ c
    else .some (b, c)

/-- Reads a block scalar in a block whose own indentation is `parent`, less than zero for the whole text. -/
def readBlock (isLiteral : Bool) (parent : Int) (c : Cursor) : Option (List Char × Cursor) := do
  let (chomping, increment, c) ← readBlockHeader (c.skip 1)
  let c ← c.finishLine
  let given := increment.map fun n => (max parent 0).toNat + n
  let (empty, widest, c) ← readBlockBreaks given (c.rest.length + 1) 0 c
  let indent := given.getD (max (max widest (parent + 1).toNat) 1)
  let (b, c) ← readBlockLines isLiteral indent (c.rest.length + 1) ⟨[], [], empty, false⟩ c
  .some (b.finish chomping, c)

end TokenGate.Yaml
