/-
Addresses of the web, and the hosts that they name.

Behind the scheme and any number of slashes stands the authority, up to where the path, the query or the fragment
begins. It is a host, with a user in front of it that an at sign ends, and a port behind it that a colon begins; user
and port may be missing. A user may hold at signs and colons itself, and a host holds colons in brackets only.
-/
import Mathlib.Data.Nat.Digits.Defs
import TokenGate.Url.Parser

namespace TokenGate.Url

/-- The characters that end an authority. -/
def authorityEnds : List Char := ['/', '\\', '?', '#']

/-- Behind `s`, a bracket is open. -/
def IsOpen (s : List Char) : Prop :=
  ∃ before inner, s = before ++ '[' :: inner ∧ ']' ∉ inner

/-- The digits of a port. There may be none, and as many zeros in front as one likes. -/
def IsPort (digits : List Char) : Prop :=
  (∀ c ∈ digits, '0' ≤ c ∧ c ≤ '9') ∧ Nat.ofDigits 10 (digits.reverse.map fun c => c.toNat - '0'.toNat) ≤ 65535

/-- `s` is a user, a host and a port, the way they are written, with `rest` behind them. -/
structure IsAuthority (s user host port rest : List Char) : Prop where
  parts : s = user ++ (host ++ (port ++ rest))
  within : ∀ c ∈ user ++ (host ++ port), c ∉ authorityEnds
  ending : ∀ c, rest.head? = .some c → c ∈ authorityEnds
  user_end : user = [] ∨ ∃ u, user = u ++ ['@']
  last_at : '@' ∉ host ++ port
  host_colons : ∀ a b, host = a ++ ':' :: b → IsOpen a
  port_start : port = [] ∨ ¬ IsOpen host ∧ ∃ digits, port = ':' :: digits ∧ IsPort digits

/-- Where an authority of the web stands, `s` names the host `h`. -/
def NamesHost (s : List Char) (h : Host) : Prop :=
  ∃ user host port rest, IsAuthority s user host port rest ∧ Host.parse host = .ok h

/-- The address, without what does not count in it, is one of the web, its scheme in small letters, and its host
is `h`. -/
def IsWebAddress (url : String) (h : Host) : Prop :=
  ∃ scheme slashes s, cleaned url.toList = scheme ++ ':' :: (slashes ++ s) ∧
    (scheme = "http".toList ∨ scheme = "https".toList) ∧ (∀ c ∈ slashes, c = '/' ∨ c = '\\') ∧ NamesHost s h

end TokenGate.Url
