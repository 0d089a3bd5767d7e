/-
URLs: their parts, the text that shows them, their origin, and the addressing of what lies below them.
-/
import TokenGate.Text.Blank
import TokenGate.Url.Host

namespace TokenGate

/-- The path of a URL: a text of no structure, or segments each of which stands behind a slash. -/
inductive Url.Path where
  | rootless (text : List Char)
  | segments (ss : List (List Char))
deriving DecidableEq

/-- A URL, with its parts the way they are written. -/
structure Url where
  scheme : List Char
  username : List Char
  password : List Char
  host : Option Url.Host
  /-- The port, unless it is the one that the scheme implies. -/
  portNumber : Option Nat
  path : Url.Path
  query : Option (List Char)
  fragment : Option (List Char)
deriving DecidableEq

namespace Url

/-! ## Schemes -/

/-- The ports that the schemes of the web imply. -/
def defaultPorts : List (List Char × Nat) :=
  [("http".toList, 80), ("https".toList, 443), ("ws".toList, 80), ("wss".toList, 443), ("ftp".toList, 21)]

/-- The port that a scheme implies. -/
def defaultPort? (scheme : List Char) : Option Nat :=
  defaultPorts.lookup scheme

/-- Whether a scheme is one of the web, where a host may not be missing. -/
def isWebScheme (scheme : List Char) : Bool :=
  (defaultPort? scheme).isSome

/-- Whether a scheme treats backslashes as slashes. -/
def isSpecialScheme (scheme : List Char) : Bool :=
  isWebScheme scheme || scheme == "file".toList

/-! ## Text -/

/-- The text of a path. -/
def Path.text : Path → List Char
  | .rootless s => s
  | .segments ss => ss.flatMap ('/' :: ·)

/-- The user name and the password in front of the host. -/
def userinfoText (u : Url) : List Char :=
  if u.username.isEmpty && u.password.isEmpty then []
  else u.username ++ (if u.password.isEmpty then [] else ':' :: u.password) ++ ['@']

/-- The text in front of the path. -/
def authorityText (u : Url) : List Char :=
  match u.host with
  | .none => []
  | .some h =>
    "//".toList ++ u.userinfoText ++ h.text ++ (match u.portNumber with
      | .some p => ':' :: Text.decimal p
      | .none => [])

/-- A part of a URL that may be missing, behind its sign. -/
def partText (sign : Char) : Option (List Char) → List Char
  | .some s => sign :: s
  | .none => []

/-- The text of a URL. -/
def text (u : Url) : String :=
  String.ofList
    (u.scheme ++ ':' :: u.authorityText ++ u.path.text ++ partText '?' u.query ++ partText '#' u.fragment)

/-! ## Origins -/

/-- What two URLs have to share for one to be trusted with what the other is: scheme, host and port. -/
structure Origin where
  scheme : List Char
  host : Host
  portNumber : Nat
deriving DecidableEq

/-- The origin of a URL. Only the schemes of the web have one that anything can share. -/
def origin? (u : Url) : Option Origin := do
  let implied ← defaultPort? u.scheme
  .some ⟨u.scheme, ← u.host, u.portNumber.getD implied⟩

/-- Whether two URLs have the same origin. -/
def isSameOrigin (u v : Url) : Bool :=
  match u.origin?, v.origin? with
  | .some o, .some p => o = p
  | _, _ => false

/-! ## Segments -/

/-- Whether a segment stands for the place where it is. -/
def isSingleDot (s : List Char) : Bool :=
  s == ['.'] || Text.lower s == "%2e".toList

/-- Whether a segment stands for the place above. -/
def isDoubleDot (s : List Char) : Bool :=
  s == "..".toList || Text.lower s == "%2e%2e".toList || Text.lower s == "%2e.".toList ||
    Text.lower s == ".%2e".toList

/-- Puts a segment behind others, the last one of a path or not. Dots are taken away, and leave an empty segment
where they come last. -/
def placeSegment (ss : List (List Char)) (s : List Char) (isLast : Bool) : List (List Char) :=
  if isDoubleDot s then if isLast then ss.dropLast ++ [[]] else ss.dropLast
  else if isSingleDot s then if isLast then ss ++ [[]] else ss
  else ss ++ [s]

/-- The segments without an empty one at the end, unless it is the only one. -/
def dropEmptyEnd (ss : List (List Char)) : List (List Char) :=
  if 1 < ss.length && ss.getLast? == .some [] then ss.dropLast else ss

/-- Whether a character disappears wherever it stands in a URL. -/
def isDropped (c : Char) : Bool :=
  c == '\t' || c == '\n' || c == '\r'

/-- Adds a name below segments, written so that it is read back as it is. A name that is one or two dots is left
out. -/
def addName (isSpecial : Bool) (ss : List (List Char)) (name : List Char) : List (List Char) :=
  if name == ['.'] || name == ['.', '.'] then ss
  else
    let s := percentEncode (escapesInSegment isSpecial) (name.filter fun c => !isDropped c)
    placeSegment (if ss = [[]] then [] else ss) s true

/-- The address of the names below a URL. -/
def below (u : Url) (names : List (List Char)) : Url :=
  match u.path with
  | .rootless _ => u
  | .segments ss =>
    { u with path := .segments (names.foldl (addName (isSpecialScheme u.scheme)) (dropEmptyEnd ss)) }

/-- The address with one more setting in its query. -/
def withSetting (u : Url) (setting : List Char) : Url :=
  { u with query := .some (match u.query with
      | .some (c :: q) => c :: q ++ '&' :: setting
      | _ => setting) }

end Url

end TokenGate
