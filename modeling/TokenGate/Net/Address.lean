/-
IP addresses and the text that shows them.
-/
import TokenGate.Text.Decimal
import TokenGate.Text.Pieces

namespace TokenGate.Net

/-- An IP address: four bytes, or eight groups of sixteen bits. -/
inductive Address where
  | v4 (bytes : List Nat)
  | v6 (groups : List Nat)
deriving DecidableEq

/-- A socket address. A scope names an interface, and only an address of the newer kind has one. -/
structure SocketAddress where
  address : Address
  scope : Nat
  portNumber : Nat
deriving DecidableEq

namespace Address

/-- The bytes with dots between them. -/
def renderV4 (bytes : List Nat) : List Char :=
  Text.join '.' (bytes.map Text.decimal)

/-- The groups in hexadecimal with colons between them. -/
def renderGroups (groups : List Nat) : List Char :=
  Text.join ':' (groups.map (Nat.toDigits 16))

/-- How many zeros `groups` starts with. -/
def leadingZeros (groups : List Nat) : Nat :=
  (groups.takeWhile (· == 0)).length

/-- The first of the longest runs of zeros: where it starts, and how long it is. -/
def longestZeros : List Nat → Nat × Nat
  | [] => (0, 0)
  | g :: gs =>
    let (start, length) := longestZeros gs
    let here := leadingZeros (g :: gs)
    if length ≤ here then (0, here) else (start + 1, length)

/-- The text of eight groups, with two colons for the longest run of at least two zeros. -/
def renderCompressed (groups : List Nat) : List Char :=
  let (start, length) := longestZeros groups
  if 1 < length then
    renderGroups (groups.take start) ++ ':' :: ':' :: renderGroups (groups.drop (start + length))
  else renderGroups groups

/-- The text of an address of eight groups. The last two groups of a mapped address are written like the older
kind. -/
def renderV6 (groups : List Nat) : List Char :=
  match groups with
  | [0, 0, 0, 0, 0, 0xFFFF, high, low] =>
    "::ffff:".toList ++ renderV4 [high / 256, high % 256, low / 256, low % 256]
  | _ => renderCompressed groups

/-- The text of an address. -/
def render : Address → String
  | v4 bytes => String.ofList (renderV4 bytes)
  | v6 groups => String.ofList (renderV6 groups)

end Address

end TokenGate.Net
