/-
Punycode, the encoding of RFC 3492, which writes a label of any characters in letters, digits and hyphens.

The characters that are not ASCII are written in the order of their values, each as the distance from the one before.
A distance is a number whose digits have thresholds that adapt to the distances so far.
-/
namespace TokenGate.Url.Punycode

/-- The digit worth `n`: letters first. -/
def digit (n : Nat) : Char :=
  if n < 26 then Char.ofNat ('a'.toNat + n) else Char.ofNat ('0'.toNat + (n - 26))

/-- What a digit is worth. -/
def value? (c : Char) : Option Nat :=
  if 'a' ≤ c ∧ c ≤ 'z' then .some (c.toNat - 'a'.toNat)
  else if 'A' ≤ c ∧ c ≤ 'Z' then .some (c.toNat - 'A'.toNat)
  else if '0' ≤ c ∧ c ≤ '9' then .some (c.toNat - '0'.toNat + 26)
  else .none

/-- The threshold of the digit at `position`, which counts in steps of 36. -/
def threshold (bias position : Nat) : Nat :=
  max 1 (min 26 (position - bias))

/-- Divides by 35 until the distance is small, and counts the steps. -/
def shrink (delta steps : Nat) : Nat × Nat :=
  if 455 < delta then shrink (delta / 35) (steps + 36) else (delta, steps)
termination_by delta
decreasing_by omega

/-- The bias after a distance, where `count` characters have been written, this one included. -/
def adapt (delta count : Nat) (isFirst : Bool) : Nat :=
  let scaled := if isFirst then delta / 700 else delta / 2
  let (delta, steps) := shrink (scaled + scaled / count) 0
  steps + 36 * delta / (delta + 38)

/-- The digits of a distance; the fuel bounds their number. -/
def distanceDigits (bias : Nat) : (fuel position delta : Nat) → List Char
  | 0, _, _ => []
  | fuel + 1, position, delta =>
    let t := threshold bias position
    if delta < t then [digit delta]
    else digit (t + (delta - t) % (36 - t)) :: distanceDigits bias fuel (position + 36) ((delta - t) / (36 - t))

/-- The state of the encoder: what is written, the distance so far, the bias, and the number of characters done. -/
structure Encoder where
  written : List Char
  delta : Nat
  bias : Nat
  count : Nat

/-- Passes over one character of the label while those worth `n` are written. -/
def Encoder.visit (basic n : Nat) (e : Encoder) (c : Char) : Encoder :=
  if c.toNat < n then { e with delta := e.delta + 1 }
  else if c.toNat = n then
    ⟨e.written ++ distanceDigits e.bias (e.delta + 1) 36 e.delta, 0, adapt e.delta (e.count + 1) (e.count = basic),
      e.count + 1⟩
  else e

/-- Writes the characters of the label in the order of their values, from those not below `n` on. -/
def encodeFrom (label : List Char) (basic : Nat) : (values : List Nat) → (n : Nat) → Encoder → List Char
  | [], _, e => e.written
  | m :: values, n, e =>
    let e := label.foldl (Encoder.visit basic m) { e with delta := e.delta + (m - n) * (e.count + 1) }
    encodeFrom label basic values (m + 1) { e with delta := e.delta + 1 }

/-- The label in ASCII, without the mark in front that tells it from others. -/
def encode (label : List Char) : List Char :=
  let basic := label.filter fun c => c.toNat < 0x80
  let values := ((label.filter fun c => 0x80 ≤ c.toNat).map Char.toNat).mergeSort.eraseDups
  let start := if basic.isEmpty then [] else basic ++ ['-']
  encodeFrom label basic.length values 0x80 ⟨start, 0, 72, basic.length⟩

/-- Reads the digits of a distance: the distance, and the digits behind it. -/
def readDistance (bias : Nat) : (position weight delta : Nat) → List Char → Option (Nat × List Char)
  | _, _, _, [] => .none
  | position, weight, delta, c :: cs => do
    let v ← value? c
    let t := threshold bias position
    if v < t then .some (delta + v * weight, cs)
    else readDistance bias (position + 36) (weight * (36 - t)) (delta + v * weight) cs

/-- Puts characters into the label as their distances tell. The last one that was put in is worth `n` and stands in
front of `place`; the fuel bounds the number of distances. -/
def decodeFrom : (fuel n place bias : Nat) → (label digits : List Char) → Option (List Char)
  | 0, _, _, _, _, _ => .none
  | fuel + 1, n, place, bias, label, digits =>
    if digits.isEmpty then .some label
    else do
      let (delta, digits) ← readDistance bias 36 1 0 digits
      let count := label.length + 1
      let m := n + (place + delta) / count
      let here := (place + delta) % count
      if m.isValidChar then
        decodeFrom fuel m (here + 1) (adapt delta count (place = 0))
          (label.take here ++ Char.ofNat m :: label.drop here) digits
      else .none

/-- The characters in front of the last hyphen, and those behind it. Without a hyphen, all are behind it. -/
def splitAtHyphen (s : List Char) : List Char × List Char :=
  let tail := (s.reverse.takeWhile (· != '-')).reverse
  (s.take (s.length - tail.length - 1), tail)

/-- The label that is written in ASCII, without the mark in front. -/
def decode (s : List Char) : Option (List Char) :=
  let (basic, digits) := splitAtHyphen s
  decodeFrom (digits.length + 1) 0x80 0 72 basic digits

end TokenGate.Url.Punycode
