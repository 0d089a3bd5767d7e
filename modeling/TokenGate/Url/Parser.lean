/-
Reading URLs by the rules of the web.
-/
import TokenGate.Url.Basic

namespace TokenGate.Url

/-- Whether a character is dropped from the ends of a text. -/
def isTrimmed (c : Char) : Bool :=
  c.toNat ≤ 0x20

/-- The text without what does not count: what is dropped at its ends, and tabs and line breaks anywhere. -/
def cleaned (s : List Char) : List Char :=
  (Text.dropEndWhile isTrimmed (s.dropWhile isTrimmed)).filter fun c => !isDropped c

/-- Whether a character may stand in a scheme. -/
def isSchemeChar (c : Char) : Bool :=
  c.isAlphanum || c == '+' || c == '-' || c == '.'

/-- The scheme of a text in small letters, and what stands behind its colon. -/
def readScheme (s : List Char) : Option (List Char × List Char) :=
  let front := s.takeWhile isSchemeChar
  match s.drop front.length with
  | ':' :: rest => if front.head?.any Char.isAlpha then .some (Text.lower front, rest) else .none
  | _ => .none

/-- Whether a character is a slash, or a backslash where that is as good. -/
def isSlash (isSpecial : Bool) (c : Char) : Bool :=
  c == '/' || (isSpecial && c == '\\')

/-- Whether a character ends the part of a URL that names the host. -/
def endsAuthority (isSpecial : Bool) (c : Char) : Bool :=
  isSlash isSpecial c || c == '?' || c == '#'

/-- Splits a text in front of the first character that satisfies `p`. -/
def splitAtFirst (p : Char → Bool) (s : List Char) : List Char × List Char :=
  (s.takeWhile fun c => !p c, s.dropWhile fun c => !p c)

/-! ## Path, query and fragment -/

/-- The pieces of a path between its slashes. -/
def pathPieces (isSpecial : Bool) (s : List Char) : List (List Char) :=
  Text.pieces '/' (s.map fun c => if isSlash isSpecial c then '/' else c)

/-- Puts the pieces of a path behind each other. -/
def placePieces : (ss : List (List Char)) → (pieces : List (List Char)) → List (List Char)
  | ss, [] => ss
  | ss, [p] => placeSegment ss (percentEncode escapesInPath p) true
  | ss, p :: ps => placePieces (placeSegment ss (percentEncode escapesInPath p) false) ps

/-- The path that a text writes. Where slashes and backslashes are alike, there is always at least one segment. -/
def readPath (isSpecial : Bool) (s : List Char) : Path :=
  match s with
  | [] => .segments (if isSpecial then [[]] else [])
  | c :: rest => .segments (placePieces [] (pathPieces isSpecial (if isSlash isSpecial c then rest else c :: rest)))

/-- The query and the fragment that stand behind a path. -/
def readTail (isSpecial : Bool) (s : List Char) : Option (List Char) × Option (List Char) :=
  let (front, back) := splitAtFirst (· == '#') s
  let query := match front with
    | '?' :: q => .some (percentEncode (escapesInQuery isSpecial) q)
    | _ => .none
  let fragment := match back with
    | '#' :: f => .some (percentEncode escapesInFragment f)
    | _ => .none
  (query, fragment)

/-- Whether a character ends a path. -/
def endsPath (c : Char) : Bool :=
  c == '?' || c == '#'

/-- Puts what stands behind the host into a URL. -/
def withRest (u : Url) (isSpecial : Bool) (s : List Char) : Url :=
  let (path, tail) := splitAtFirst endsPath s
  let (query, fragment) := readTail isSpecial tail
  { u with path := readPath isSpecial path, query := query, fragment := fragment }

/-! ## User, host and port -/

/-- Splits a user and a password off the front of a text that ends with the host. -/
def readUserinfo (isSpecial : Bool) (s : List Char) : Except Fault (List Char × List Char × List Char) :=
  let authority := s.takeWhile fun c => !endsAuthority isSpecial c
  if !authority.contains '@' then .ok ([], [], s)
  else
    let hostLength := (authority.reverse.takeWhile (· != '@')).length
    let userinfo := authority.take (authority.length - hostLength - 1)
    let rest := s.drop (userinfo.length + 1)
    if userinfo.isEmpty && rest.head?.any (endsAuthority isSpecial) then .error .emptyHost
    else
      let (username, password) := splitAtFirst (· == ':') userinfo
      .ok (percentEncode escapesInUserinfo username, percentEncode escapesInUserinfo (password.drop 1), rest)

/-- How many characters of a text name the host: it ends at a colon, but for those in brackets. -/
def hostLength (isSpecial : Bool) : (inBrackets : Bool) → List Char → Nat
  | _, [] => 0
  | inBrackets, c :: s =>
    if endsAuthority isSpecial c || (c == ':' && !inBrackets) then 0
    else hostLength isSpecial (c == '[' || (inBrackets && c != ']')) s + 1

/-- The port behind a host, unless it is `implied`, and what stands behind it. -/
def readPort (implied : Option Nat) (s : List Char) : Except Fault (Option Nat × List Char) :=
  let digits := s.takeWhile Char.isDigit
  let rest := s.drop digits.length
  let n := (Text.readDigits 10 digits).getD 0
  if 65535 < n || rest.head?.any (fun c => !endsAuthority true c) then .error .invalidPort
  else .ok (if digits.isEmpty || implied == .some n then .none else .some n, rest)

/-- The host that a text names. A scheme of the web needs one. -/
def readHost (isWeb : Bool) (s : List Char) : Except Fault Host :=
  if !isWeb then Host.parsePlain s
  else if s.isEmpty then .error .emptyHost
  else Host.parse s

/-- Reads what stands behind two slashes. -/
def readAuthority (scheme s : List Char) : Except Fault Url := do
  let isWeb := isWebScheme scheme
  let (username, password, s) ← readUserinfo isWeb s
  let length := hostLength isWeb false s
  let host ← readHost isWeb (s.take length)
  let rest := s.drop length
  let hasUser := !(username.isEmpty && password.isEmpty)
  if host = .name [] ∧ (hasUser ∨ rest.head? = .some ':') then .error .emptyHost
  else
    let (portNumber, rest) ← match rest with
      | ':' :: r => readPort (defaultPort? scheme) r
      | r => .ok (.none, r)
    .ok (withRest ⟨scheme, username, password, .some host, portNumber, .segments [], .none, .none⟩ isWeb rest)

/-- A URL with nothing but a scheme. -/
def ofScheme (scheme : List Char) : Url :=
  ⟨scheme, [], [], .none, .none, .segments [], .none, .none⟩

/-- Whether a text is the letter of a drive, which is no host although it stands in its place. -/
def isDrive : List Char → Bool
  | [letter, mark] => letter.isAlpha && (mark == ':' || mark == '|')
  | _ => false

/-- Reads what stands behind the scheme of a file. The host may be missing, and `localhost` is as good as that. -/
def readFile (scheme s : List Char) : Except Fault Url :=
  let noHost := { ofScheme scheme with host := .some (.name []) }
  match s with
  | a :: b :: rest =>
    if isSlash true a && isSlash true b then do
      let (name, rest) := splitAtFirst (endsAuthority true) rest
      let (name, rest) := if isDrive name then ([], name ++ rest) else (name, rest)
      let host ← if name.isEmpty then .ok (.name []) else Host.parse name
      let host := if host = .name "localhost".toList then .name [] else host
      .ok (withRest { ofScheme scheme with host := .some host } true rest)
    else .ok (withRest noHost true s)
  | _ => .ok (withRest noHost true s)

/-- Reads what stands behind any other scheme. Without a slash, the path has no structure. -/
def readOther (scheme s : List Char) : Except Fault Url :=
  match s with
  | '/' :: '/' :: rest => readAuthority scheme rest
  | '/' :: _ => .ok (withRest (ofScheme scheme) false s)
  | _ =>
    let (path, tail) := splitAtFirst endsPath s
    let (query, fragment) := readTail false tail
    .ok { ofScheme scheme with
      path := .rootless (percentEncode escapesAlways path), query := query, fragment := fragment }

/-- The URL that a text writes. -/
def parse (s : String) : Except Fault Url :=
  match readScheme (cleaned s.toList) with
  | .none => .error .relativeWithoutBase
  | .some (scheme, rest) =>
    if scheme = "file".toList then readFile scheme rest
    else if isWebScheme scheme then readAuthority scheme (rest.dropWhile (isSlash true))
    else readOther scheme rest

/-- Whether nothing can lie below a URL. -/
def isRootless (u : Url) : Bool :=
  match u.path with
  | .rootless _ => true
  | .segments _ => false

end TokenGate.Url
