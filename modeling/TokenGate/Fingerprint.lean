/-
Fingerprints of credentials. The cache knows a token by its fingerprint only, so that no credential is kept.
-/
import TokenGate.Sha256
import TokenGate.Text.Hex
import TokenGate.Text.Utf8

namespace TokenGate

/-- The SHA-256 digest of a credential. -/
structure Fingerprint where
  digest : List UInt8
deriving DecidableEq

namespace Fingerprint

/-- The fingerprint of a token, taken over its UTF-8 bytes. -/
def ofToken (token : String) : Fingerprint :=
  ⟨Sha256.digest (Text.Utf8.encode token.toList)⟩

/-- All bytes in hexadecimal. -/
def display (f : Fingerprint) : String :=
  String.ofList (Text.hexBytes f.digest)

/-- The short form for logs, which shows the first six bytes only. -/
def abbreviated (f : Fingerprint) : String :=
  "Fingerprint(" ++ String.ofList (Text.hexBytes (f.digest.take 6)) ++ "..)"

/-- Byte strings compared like words in a dictionary. -/
def compareBytes : List UInt8 → List UInt8 → Ordering
  | [], [] => .eq
  | [], _ :: _ => .lt
  | _ :: _, [] => .gt
  | a :: as, b :: bs => if a < b then .lt else if b < a then .gt else compareBytes as bs

/-- The order of fingerprints: that of their digests as byte strings. -/
def order (f g : Fingerprint) : Ordering :=
  compareBytes f.digest g.digest

theorem length_digest_ofToken (token : String) : (ofToken token).digest.length = 32 :=
  Sha256.length_digest _

end Fingerprint

end TokenGate
