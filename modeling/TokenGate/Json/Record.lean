/-
What JSON values mean: texts, integers and records with named fields.
-/
import TokenGate.Json.Reader

namespace TokenGate.Json

/-! ## Texts -/

/-- One part of a string: a character, or a unit of UTF-16 that was written in hexadecimal. -/
inductive Part where
  | char (c : Char)
  | unit (n : Nat)

/-- The character that a letter after a backslash stands for. -/
def escapeMeaning : Char → Option Char
  | '"' => .some '"'
  | '\\' => .some '\\'
  | '/' => .some '/'
  | 'b' => .some (Char.ofNat 8)
  | 'f' => .some (Char.ofNat 12)
  | 'n' => .some '\n'
  | 'r' => .some '\r'
  | 't' => .some '\t'
  | _ => .none

/-- The parts of a spelling. -/
def parts : List Char → Option (List Part)
  | [] => .some []
  | '\\' :: 'u' :: a :: b :: c :: d :: s => do
    let n ← Text.readDigits 16 [a, b, c, d]
    (parts s).map (.unit n :: ·)
  | '\\' :: e :: s => do
    let c ← escapeMeaning e
    (parts s).map (.char c :: ·)
  | c :: s => if c = '\\' then .none else (parts s).map (.char c :: ·)

/-- The text of the parts. Two units make a character where they are a high and a low surrogate; a surrogate
outside such a pair makes the whole text meaningless. -/
def joinParts : List Part → Option (List Char)
  | [] => .some []
  | .char c :: ps => (joinParts ps).map (c :: ·)
  | .unit h :: .unit l :: ps =>
    if 0xD800 ≤ h ∧ h ≤ 0xDBFF then
      if 0xDC00 ≤ l ∧ l ≤ 0xDFFF then
        (joinParts ps).map (Char.ofNat (0x10000 + (h - 0xD800) * 0x400 + (l - 0xDC00)) :: ·)
      else .none
    else if 0xDC00 ≤ h ∧ h ≤ 0xDFFF then .none
    else (joinParts (.unit l :: ps)).map (Char.ofNat h :: ·)
  | .unit n :: ps =>
    if 0xD800 ≤ n ∧ n ≤ 0xDFFF then .none
    else (joinParts ps).map (Char.ofNat n :: ·)

/-- The text that a spelling means. -/
def unescape (s : List Char) : Option (List Char) :=
  (parts s).bind joinParts

/-- The text that a string holds. -/
def text? : Json → Option String
  | string s => (unescape s).map String.ofList
  | _ => .none

/-- The text that a string holds, where null means that there is none. -/
def optionalText? : Json → Option (Option String)
  | null => .some .none
  | v => v.text?.map .some

/-- The texts of an array of strings. -/
def texts? : Json → Option (List String)
  | array vs => vs.mapM text?
  | _ => .none

/-! ## Integers -/

/-- The integer that a spelling writes: digits and perhaps a minus sign, and not minus zero. -/
def readInt : List Char → Option Int
  | '-' :: s => match Text.readDigits 10 s with
    | .some (n + 1) => .some (.negSucc n)
    | _ => .none
  | s => (Text.readDigits 10 s).map Int.ofNat

/-- The integer of 64 bits that a number writes. -/
def int64? : Json → Option Int64
  | number s => (readInt s).bind fun i =>
    if Int64.minValue.toInt ≤ i ∧ i ≤ Int64.maxValue.toInt then .some (Int64.ofInt i) else .none
  | _ => .none

/-! ## Records -/

/-- The value of the member called `name`; no name may be given twice. -/
def uniqueMember (name : String) (members : List (String × Json)) : Option (Option Json) :=
  match members.filter fun m => m.1 == name with
  | [] => .some .none
  | [m] => .some (.some m.2)
  | _ => .none

/-- The values of the fields called `names`, as far as they are there. An object gives them by name, and its
other members do not count; an array gives them in order from the first one on, and has no others. -/
def fields? (names : List String) : Json → Option (List (Option Json))
  | object members => do
    let members ← members.mapM fun (k, v) => (unescape k).map fun k => (String.ofList k, v)
    names.mapM fun name => uniqueMember name members
  | array items =>
    if items.length ≤ names.length then
      .some (items.map .some ++ List.replicate (names.length - items.length) .none)
    else .none
  | _ => .none

/-- What a whole text means to `read`. -/
def decode {α : Type} (read : Json → Option α) (s : String) : Option α :=
  (parse s.toList).bind read

end TokenGate.Json
