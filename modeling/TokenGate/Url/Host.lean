/-
Hosts: names, and addresses in each of the notations that the web allows.
-/
import TokenGate.Net.Address
import TokenGate.Url.Fault
import TokenGate.Url.Idna
import TokenGate.Url.Percent

namespace TokenGate

/-- The host of a URL. A name is in ASCII and in small letters where the scheme is one of the web. -/
inductive Url.Host where
  | name (s : List Char)
  | v4 (value : Nat)
  | v6 (groups : List Nat)
deriving DecidableEq

namespace Url.Host

/-- The text of a host. -/
def text : Host → List Char
  | name s => s
  | v4 n => Net.Address.renderV4 [n >>> 24 % 256, n >>> 16 % 256, n >>> 8 % 256, n % 256]
  | v6 groups => '[' :: Net.Address.renderCompressed groups ++ [']']

/-! ## Addresses of the older kind -/

/-- The number that a part of an address writes, in base ten, eight or sixteen. -/
def part? (s : List Char) : Option Nat :=
  match s with
  | [] => .none
  | '0' :: 'x' :: ds => if ds.isEmpty then .some 0 else Text.readDigits 16 ds
  | '0' :: 'X' :: ds => if ds.isEmpty then .some 0 else Text.readDigits 16 ds
  | '0' :: d :: ds => Text.readDigits 8 (d :: ds)
  | ds => Text.readDigits 10 ds

/-- The parts of a name, without an empty one at the end. -/
def parts (s : List Char) : List (List Char) :=
  match (Text.pieces '.' s).reverse with
  | [] :: ps => ps.reverse
  | ps => ps.reverse

/-- Whether a name ends in a number, so that it can only be an address. -/
def endsInNumber (s : List Char) : Bool :=
  match (parts s).getLast? with
  | .some last => (!last.isEmpty && last.all Char.isDigit) || (part? last).isSome
  | .none => false

/-- The value of the parts of an address: each but the last is a byte, and the last fills what is left. -/
def valueOf : List Nat → Option Nat
  | [] => .none
  | ns =>
    let front := ns.dropLast
    let last := ns.getLast?.getD 0
    let width := 8 * (4 - front.length)
    if front.all (· < 256) && decide (last < 1 <<< width) then
      .some (front.foldl (fun acc n => acc <<< 8 + n) 0 <<< width + last)
    else .none

/-- The address of the older kind that a name writes. -/
def readV4 (s : List Char) : Option Nat :=
  let ps := parts s
  if 4 < ps.length then .none else (ps.mapM part?).bind valueOf

/-! ## Addresses of the newer kind -/

/-- A byte in decimal without leading zeros: its value and what follows. -/
def readByte (s : List Char) : Option (Nat × List Char) :=
  let ds := s.takeWhile Char.isDigit
  if ds.head? = .some '0' ∧ 1 < ds.length then .none
  else do
    let n ← Text.readDigits 10 ds
    if n < 256 then .some (n, s.drop ds.length) else .none

/-- The two groups that four bytes at the end of an address write. -/
def readTailV4 (s : List Char) : Option (List Nat) := do
  match (Text.pieces '.' s).mapM readByte with
  | .some [(a, []), (b, []), (c, []), (d, [])] => .some [a * 256 + b, c * 256 + d]
  | _ => .none

/-- Reads groups with colons between them. The groups in front come in `done`, and `gap` tells after how many groups
two colons stood, if they did. -/
def readGroups : (fuel : Nat) → (done : List Nat) → (gap : Option Nat) → List Char →
    Option (List Nat × Option Nat)
  | 0, _, _, _ => .none
  | fuel + 1, done, gap, s =>
    if s.isEmpty then .some (done, gap)
    else if done.length = 8 then .none
    else match s with
      | ':' :: rest => if gap.isSome then .none else readGroups fuel done (.some done.length) rest
      | _ =>
        let ds := (s.take 4).takeWhile fun c => (Text.digitValue 16 c).isSome
        let group := (Text.readDigits 16 ds).getD 0
        match s.drop ds.length with
        | [] => .some (done ++ [group], gap)
        | '.' :: _ =>
          if ds.isEmpty || 6 < done.length then .none
          else (readTailV4 s).map fun gs => (done ++ gs, gap)
        | ':' :: rest => if rest.isEmpty || ds.isEmpty then .none else readGroups fuel (done ++ [group]) gap rest
        | _ => .none

/-- The groups of an address of the newer kind. Two colons stand for at least one group of zeros. -/
def readV6 (s : List Char) : Option (List Nat) := do
  let (gs, gap) ← match s with
    | ':' :: ':' :: rest => readGroups (s.length + 1) [] (.some 0) rest
    | ':' :: _ => .none
    | _ => if s.length < 2 then .none else readGroups (s.length + 1) [] .none s
  match gap with
  | .some n => if gs.length < 8 then .some (gs.take n ++ List.replicate (8 - gs.length) 0 ++ gs.drop n) else .none
  | .none => if gs.length = 8 then .some gs else .none

/-! ## Hosts -/

/-- The address in brackets, if the host begins with one; a bracket that is not closed is a fault. -/
def bracketed? (s : List Char) : Option (Except Fault Host) :=
  match s with
  | '[' :: inner =>
    .some <| match inner.getLast?, readV6 inner.dropLast with
      | .some ']', .some gs => .ok (.v6 gs)
      | _, _ => .error .invalidIpv6
  | _ => .none

/-- The host of a URL of the web. -/
def parse (s : List Char) : Except Fault Host :=
  match bracketed? s with
  | .some r => r
  | .none =>
    match Idna.toAscii (percentDecode s) with
    | .none => .error .idna
    | .some [] => .error .emptyHost
    | .some ascii =>
      if endsInNumber ascii then
        match readV4 ascii with
        | .some n => .ok (.v4 n)
        | .none => .error .invalidIpv4
      else .ok (.name ascii)

/-- The host of any other URL, which is kept as it is. -/
def parsePlain (s : List Char) : Except Fault Host :=
  match bracketed? s with
  | .some r => r
  | .none =>
    if s.any fun c => c.toNat == 0 || "\t\n\r #/:<>?@[\\]^|".toList.contains c then .error .invalidDomainCharacter
    else .ok (.name (percentEncode escapesAlways s))

end Url.Host

end TokenGate
