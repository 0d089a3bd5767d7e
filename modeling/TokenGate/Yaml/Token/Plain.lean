/-
Scalars without quotes. They end where an indicator could be meant, at a comment, at a document marker, and at the
first line that is indented too little.
-/
import TokenGate.Yaml.Token.Quoted

namespace TokenGate.Yaml

/-- Reads the next word of a plain scalar. Inside brackets a colon may not run into another indicator. -/
def readPlainWord (inFlow : Bool) : (fuel : Nat) → Cursor → Option (List Char × Cursor)
  | 0, _ => .none
  | fuel + 1, c =>
    match c.rest with
    | [] => .some ([], c)
    | x :: rest =>
      if isGap x || isBreak x then .some ([], c)
      else if inFlow && x == ':' && rest.head?.any (fun y => isFlowIndicator y || y == '?') then .none
      else if (x == ':' && c.isWordEnd 1) || (inFlow && isFlowIndicator x) then .some ([], c)
      else (readPlainWord inFlow fuel (c.skip 1)).map fun (w, c) => (x :: w, c)

/-- Reads the white space behind a word of a plain scalar. A tab may not stand where the next line has to be
indented. -/
def readPlainSpacing (indent : Nat) : (fuel : Nat) → Spacing → Cursor → Option (Spacing × Cursor)
  | 0, _, _ => .none
  | fuel + 1, s, c =>
    match c.rest with
    | x :: _ =>
      if isGap x then
        if s.isBroken && c.column < indent && x == '\t' then .none
        else readPlainSpacing indent fuel (s.addGap x) (c.skip 1)
      else if isBreak x then
        let (b, c) := c.readBreak
        readPlainSpacing indent fuel (s.addBreak b) c
      else .some (s, c)
    | [] => .some (s, c)

/-- Reads a plain scalar, where `spacing` stands in front of the next word. The answer also tells whether a line has
ended behind the last word. -/
def readPlainFrom (inFlow : Bool) (indent : Nat) :
    (fuel : Nat) → Spacing → Cursor → Option (List Char × Bool × Cursor)
  | 0, _, _ => .none
  | fuel + 1, spacing, c =>
    if c.isAtDocumentMarker || c.at? '#' then .some ([], spacing.isBroken, c)
    else do
      let (word, c) ← readPlainWord inFlow (c.rest.length + 1) c
      if !c.holds (fun x => isGap x || isBreak x) then
        .some (if word.isEmpty then ([], spacing.isBroken, c) else (spacing.text ++ word, false, c))
      else
        let known := if word.isEmpty then spacing else Spacing.none
        let (next, c) ← readPlainSpacing indent (c.rest.length + 1) known c
        let front := if word.isEmpty then [] else spacing.text ++ word
        if !inFlow && c.column < indent then .some (front, next.isBroken, c)
        else
          let (text, isBroken, c) ← readPlainFrom inFlow indent fuel next c
          .some (front ++ text, isBroken, c)

/-- Reads a plain scalar. Outside brackets, its further lines have to be indented by `indent`. -/
def readPlain (inFlow : Bool) (indent : Nat) (c : Cursor) : Option (List Char × Bool × Cursor) :=
  readPlainFrom inFlow indent (c.rest.length + 1) Spacing.none c

end TokenGate.Yaml
