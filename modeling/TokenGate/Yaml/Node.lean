/-
The tree that a YAML text writes, and the tree of a sequence of tokens.
-/
import TokenGate.Yaml.Token

namespace TokenGate.Yaml

/-- A scalar as it is written, with the tag that it is given. -/
structure Scalar where
  text : List Char
  style : Style
  tag : Option (List Char)
deriving DecidableEq

/-- A node. An anchored node has the number under which aliases refer to it. -/
inductive Node where
  | scalar (anchor : Option Nat) (s : Scalar)
  | sequence (anchor : Option Nat) (items : List Node)
  | mapping (anchor : Option Nat) (entries : List (Node × Node))
  | reference (number : Nat)

namespace Node

/-- What stands where nothing is written. -/
def empty : Node := .scalar .none ⟨[], .plain, .none⟩

mutual

/-- The anchored nodes of a tree with their numbers, in the order in which they begin. -/
def anchored : Node → List (Nat × Node)
  | scalar anchor s => (anchor.map fun n => (n, scalar anchor s)).toList
  | sequence anchor items => (anchor.map fun n => (n, sequence anchor items)).toList ++ anchoredItems items
  | mapping anchor entries => (anchor.map fun n => (n, mapping anchor entries)).toList ++ anchoredEntries entries
  | reference _ => []

/-- The anchored nodes of items. -/
def anchoredItems : List Node → List (Nat × Node)
  | [] => []
  | n :: ns => n.anchored ++ anchoredItems ns

/-- The anchored nodes of the entries of a mapping. -/
def anchoredEntries : List (Node × Node) → List (Nat × Node)
  | [] => []
  | (k, v) :: es => k.anchored ++ (v.anchored ++ anchoredEntries es)

end

end Node

/-- A document: its tree, and the nodes that aliases refer to by number. -/
structure Document where
  root : Node
  targets : List (Nat × Node)

namespace Document

/-- The document of a tree. Where a number has been given out again, it means the node that was given it last. -/
def ofRoot (root : Node) : Document := ⟨root, root.anchored.reverse⟩

/-- The node that a node stands for: an alias stands for the node that it refers to. -/
def resolve (d : Document) : Node → Node
  | .reference n => (d.targets.lookup n).getD .empty
  | n => n

end Document

/-! ## Reading tokens -/

/-- The state of the reader of tokens. -/
structure NodeReader where
  tokens : List Token
  /-- The names of the anchors so far, each with the number that it has now. -/
  anchors : List (List Char × Nat)
  /-- The prefixes that the handles of tags stand for. -/
  handles : List (List Char × List Char)

namespace NodeReader

/-- The prefixes that need no directive. -/
def defaultHandles : List (List Char × List Char) :=
  [(['!'], ['!']), (['!', '!'], "tag:yaml.org,2002:".toList)]

/-- The state without the next token. -/
def next (r : NodeReader) : NodeReader := { r with tokens := r.tokens.drop 1 }

/-- Whether the next token is one of those given. -/
def isAt (r : NodeReader) (ts : List Token) : Bool :=
  r.tokens.head?.any ts.contains

/-- Gives an anchor its number: how many names there have been before. -/
def bindAnchor (r : NodeReader) : Option (List Char) → Option Nat × NodeReader
  | .none => (.none, r)
  | .some name =>
    let n := r.anchors.length
    (.some n, { r with anchors := (name, n) :: r.anchors.filter fun a => a.1 != name })

/-- The full form of a tag, if its handle is known. -/
def fullTag (r : NodeReader) (handle suffix : List Char) : Option (List Char) :=
  if handle.isEmpty then .some suffix else (r.handles.lookup handle).map (· ++ suffix)

/-- Reads a tag, if one comes next. -/
def readTagOf (r : NodeReader) : Option (Option (List Char) × NodeReader) :=
  match r.tokens with
  | .tag handle suffix :: _ => (r.fullTag handle suffix).map fun t => (.some t, r.next)
  | _ => .some (.none, r)

/-- Reads an anchor, if one comes next. -/
def readAnchorOf (r : NodeReader) : Option (List Char) × NodeReader :=
  match r.tokens with
  | .anchor name :: _ => (.some name, r.next)
  | _ => (.none, r)

/-- Reads an anchor and a tag, in either order and as far as they are there. -/
def readProperties (r : NodeReader) : Option (Option (List Char) × Option (List Char) × NodeReader) := do
  match r.readAnchorOf with
  | (.some name, r) =>
    let (tag, r) ← r.readTagOf
    .some (.some name, tag, r)
  | (.none, r) =>
    let (tag, r) ← r.readTagOf
    let (name, r) := if tag.isSome then r.readAnchorOf else (.none, r)
    .some (name, tag, r)

/-- The tag of a scalar; an exclamation mark alone is as good as none. -/
def scalarTag (tag : Option (List Char)) : Option (List Char) :=
  tag.filter (· != ['!'])

mutual

/-- Reads a node. `inBlock` says whether it may be a block, and `indentless` whether it may be a sequence that is not
indented. -/
def readNode : (fuel : Nat) → (inBlock indentless : Bool) → NodeReader → Option (Node × NodeReader)
  | 0, _, _, _ => .none
  | fuel + 1, inBlock, indentless, r =>
    match r.tokens with
    | .reference name :: _ => (r.anchors.lookup name).map fun n => (.reference n, r.next)
    | _ => do
      let (name, tag, r) ← r.readProperties
      let (anchor, r) := r.bindAnchor name
      match r.tokens.head? with
      | .some .blockEntry =>
        if indentless then
          let (items, r) ← readIndentless fuel r
          .some (.sequence anchor items, r)
        else if name.isSome || tag.isSome then .some (.scalar anchor ⟨[], .plain, tag⟩, r)
        else .none
      | .some (.scalar text style) => .some (.scalar anchor ⟨text, style, scalarTag tag⟩, r.next)
      | .some .flowSequenceStart =>
        let (items, r) ← readFlowSequence fuel true r.next
        .some (.sequence anchor items, r)
      | .some .flowMappingStart =>
        let (entries, r) ← readFlowMapping fuel true r.next
        .some (.mapping anchor entries, r)
      | t =>
        if inBlock && t == .some .blockSequenceStart then
          let (items, r) ← readBlockSequence fuel r.next
          .some (.sequence anchor items, r)
        else if inBlock && t == .some .blockMappingStart then
          let (entries, r) ← readBlockMapping fuel r.next
          .some (.mapping anchor entries, r)
        else if name.isSome || tag.isSome then .some (.scalar anchor ⟨[], .plain, tag⟩, r)
        else .none

/-- Reads a node unless one of the tokens given comes next, which means that it is left out. -/
def readUnless : (fuel : Nat) → (inBlock indentless : Bool) → List Token → NodeReader →
    Option (Node × NodeReader)
  | 0, _, _, _, _ => .none
  | fuel + 1, inBlock, indentless, ts, r =>
    if r.isAt ts then .some (.empty, r) else readNode fuel inBlock indentless r

/-- Reads the items of a block and its end. -/
def readBlockSequence : (fuel : Nat) → NodeReader → Option (List Node × NodeReader)
  | 0, _ => .none
  | fuel + 1, r =>
    match r.tokens.head? with
    | .some .blockEntry => do
      let (n, r) ← readUnless fuel true false [.blockEntry, .blockEnd] r.next
      let (ns, r) ← readBlockSequence fuel r
      .some (n :: ns, r)
    | .some .blockEnd => .some ([], r.next)
    | _ => .none

/-- Reads items that are not indented, as long as there are some. -/
def readIndentless : (fuel : Nat) → NodeReader → Option (List Node × NodeReader)
  | 0, _ => .none
  | fuel + 1, r =>
    match r.tokens.head? with
    | .some .blockEntry => do
      let (n, r) ← readUnless fuel true false [.blockEntry, .key, .value, .blockEnd] r.next
      let (ns, r) ← readIndentless fuel r
      .some (n :: ns, r)
    | _ => .some ([], r)

/-- Reads the entries of a block and its end. -/
def readBlockMapping : (fuel : Nat) → NodeReader → Option (List (Node × Node) × NodeReader)
  | 0, _ => .none
  | fuel + 1, r =>
    match r.tokens.head? with
    | .some .key => do
      let (k, r) ← readUnless fuel true true [.key, .value, .blockEnd] r.next
      let (v, r) ←
        if r.isAt [.value] then readUnless fuel true true [.key, .value, .blockEnd] r.next
        else .some (.empty, r)
      let (es, r) ← readBlockMapping fuel r
      .some ((k, v) :: es, r)
    | .some .blockEnd => .some ([], r.next)
    | _ => .none

/-- Reads the items of a sequence in brackets and the closing bracket. An item may be a single entry of a mapping. -/
def readFlowSequence : (fuel : Nat) → (isFirst : Bool) → NodeReader → Option (List Node × NodeReader)
  | 0, _, _ => .none
  | fuel + 1, isFirst, r =>
    if r.isAt [.flowSequenceEnd] then .some ([], r.next)
    else if !isFirst && !r.isAt [.flowEntry] then .none
    else
      let r := if isFirst then r else r.next
      if r.isAt [.flowSequenceEnd] then .some ([], r.next)
      else do
        let (n, r) ← if r.isAt [.key] then readFlowPair fuel r.next else readNode fuel false false r
        let (ns, r) ← readFlowSequence fuel false r
        .some (n :: ns, r)

/-- Reads an entry of a mapping that is an item of a sequence, after the sign of its key. Where the key is left out,
the token behind it is passed over. -/
def readFlowPair : (fuel : Nat) → NodeReader → Option (Node × NodeReader)
  | 0, _ => .none
  | fuel + 1, r => do
    let (k, r) ←
      if r.isAt [.value, .flowEntry, .flowSequenceEnd] then .some (.empty, r.next)
      else readNode fuel false false r
    let (v, r) ←
      if r.isAt [.value] then readUnless fuel false false [.flowEntry, .flowSequenceEnd] r.next
      else .some (.empty, r)
    .some (.mapping .none [(k, v)], r)

/-- Reads the entries of a mapping in braces and the closing brace. -/
def readFlowMapping : (fuel : Nat) → (isFirst : Bool) → NodeReader → Option (List (Node × Node) × NodeReader)
  | 0, _, _ => .none
  | fuel + 1, isFirst, r =>
    if r.isAt [.flowMappingEnd] then .some ([], r.next)
    else if !isFirst && !r.isAt [.flowEntry] then .none
    else
      let r := if isFirst then r else r.next
      if r.isAt [.flowMappingEnd] then .some ([], r.next)
      else do
        let (k, v, r) ←
          if r.isAt [.key] then do
            let (k, r) ← readUnless fuel false false [.value, .flowEntry, .flowMappingEnd] r.next
            let (v, r) ←
              if r.isAt [.value] then readUnless fuel false false [.flowEntry, .flowMappingEnd] r.next
              else .some (.empty, r)
            .some (k, v, r)
          else do
            let (k, r) ← readNode fuel false false r
            .some (k, .empty, r)
        let (es, r) ← readFlowMapping fuel false r
        .some ((k, v) :: es, r)

end

/-- Takes in the directives of a document: at most one version, which is 1.1 or 1.2, and no handle twice. -/
def readDirectives : (isVersioned : Bool) → (handles : List (List Char × List Char)) → List Token →
    Option (List (List Char × List Char) × List Token)
  | isVersioned, handles, .versionDirective major minor :: ts =>
    if isVersioned || major != 1 || !(minor == 1 || minor == 2) then .none
    else readDirectives true handles ts
  | isVersioned, handles, .tagDirective handle uri :: ts =>
    if (handles.lookup handle).isSome then .none else readDirectives isVersioned ((handle, uri) :: handles) ts
  | _, handles, ts => .some (handles, ts)

/-- The tokens that come where the content of a document is left out. -/
def leavesOutContent : Option Token → Bool
  | .none => true
  | .some (.versionDirective _ _) => true
  | .some (.tagDirective _ _) => true
  | .some t => t == .documentStart || t == .documentEnd

/-- Reads the only document, or nothing where there is none. -/
def readDocument (tokens : List Token) : Option (Option Node) := do
  let (handles, ts) ← readDirectives false [] tokens
  let hasDirectives := ts.length < tokens.length
  let r : NodeReader := ⟨ts, [], handles ++ defaultHandles⟩
  if tokens.isEmpty then .some .none
  else
    let fuel := 2 * tokens.length + 2
    let (n, r) ←
      if r.isAt [.documentStart] then
        if leavesOutContent r.next.tokens.head? then .some (.empty, r.next)
        else readNode fuel true false r.next
      else if hasDirectives then .none
      else readNode fuel true false r
    if (r.tokens.dropWhile (· == .documentEnd)).isEmpty then .some (.some n) else .none

end NodeReader

end TokenGate.Yaml
