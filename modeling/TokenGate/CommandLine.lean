/-
The command line.

An option takes its value from the same word or from the next one. A value in a word of its own is judged when the
next option comes or the words have ended, so an unknown word behind it is reported first.
-/
import TokenGate.Config.File

namespace TokenGate

/-- The options that take a value. -/
inductive Setting where
  | config
  | org
  | listen
  | cacheTtl
  | cacheMaxSize
  | rejectClassicPats
deriving DecidableEq

/-- What the command line says: where the configuration file is, and what takes the place of its values. -/
structure CommandLine where
  configPath : Option String
  overrides : Overrides
deriving DecidableEq

namespace CommandLine

/-- Why a command line is not carried out. -/
inductive Fault where
  | unknownArgument
  /-- A value is missing, or is none of those that are possible. -/
  | invalidValue
  /-- A number does not read as one. -/
  | valueValidation
  /-- An option is given twice. -/
  | argumentConflict
  /-- A value is given to a word that takes none. -/
  | tooManyValues
  /-- Help is asked for. -/
  | displayHelp
deriving DecidableEq

/-- The name of a fault. -/
def Fault.name : Fault → String
  | unknownArgument => "UnknownArgument"
  | invalidValue => "InvalidValue"
  | valueValidation => "ValueValidation"
  | argumentConflict => "ArgumentConflict"
  | tooManyValues => "TooManyValues"
  | displayHelp => "DisplayHelp"

/-- A command line that says nothing. -/
def empty : CommandLine := ⟨.none, Overrides.none⟩

/-- The option of a long name. -/
def ofLongName? (name : List Char) : Option Setting :=
  [("config", Setting.config), ("org", .org), ("listen", .listen), ("cache-ttl", .cacheTtl),
    ("cache-max-size", .cacheMaxSize), ("reject-classic-pats", .rejectClassicPats)].lookup (String.ofList name)

/-- Whether an option has been given. -/
def has (c : CommandLine) : Setting → Bool
  | .config => c.configPath.isSome
  | .org => c.overrides.org.isSome
  | .listen => c.overrides.listen.isSome
  | .cacheTtl => c.overrides.cacheTtl.isSome
  | .cacheMaxSize => c.overrides.cacheMaxSize.isSome
  | .rejectClassicPats => c.overrides.rejectClassicPats.isSome

/-- The number that a value writes. -/
def number (value : List Char) : Except Fault Nat :=
  match Text.readWord value with
  | .some n => .ok n
  | .none => .error .valueValidation

/-- The flag that a value writes. -/
def flag (value : List Char) : Except Fault Bool :=
  if value = "true".toList then .ok true
  else if value = "false".toList then .ok false
  else .error .invalidValue

/-- Takes in the value of an option. -/
def put (c : CommandLine) (s : Setting) (value : List Char) : Except Fault CommandLine :=
  if c.has s then .error .argumentConflict
  else
    let o := c.overrides
    match s with
    | .config => .ok { c with configPath := .some (String.ofList value) }
    | .org => .ok { c with overrides := { o with org := .some (String.ofList value) } }
    | .listen => .ok { c with overrides := { o with listen := .some (String.ofList value) } }
    | .cacheTtl => (number value).map fun n => { c with overrides := { o with cacheTtl := .some n } }
    | .cacheMaxSize => (number value).map fun n => { c with overrides := { o with cacheMaxSize := .some n } }
    | .rejectClassicPats => (flag value).map fun b => { c with overrides := { o with rejectClassicPats := .some b } }

/-- An option whose value is not judged yet, and the value, where its word has come. -/
structure Pending where
  setting : Setting
  value : Option (List Char)

/-- Judges the value of the option before, if there is one. -/
def settle (c : CommandLine) : Option Pending → Except Fault CommandLine
  | .none => .ok c
  | .some ⟨_, .none⟩ => .error .invalidValue
  | .some ⟨s, .some value⟩ => c.put s value

/-- An option, with the value that stands in the same word, if there is one. -/
def takeOption (c : CommandLine) (p : Option Pending) (s : Setting) (value : Option (List Char)) :
    Except Fault (CommandLine × Option Pending) := do
  let c ← c.settle p
  match value with
  | .some v => .ok (← c.put s v, .none)
  | .none => .ok (c, .some ⟨s, .none⟩)

/-- A word that starts with two dashes. -/
def takeLong (c : CommandLine) (p : Option Pending) (word : List Char) :
    Except Fault (CommandLine × Option Pending) :=
  let name := word.takeWhile (· != '=')
  let value := if word.contains '=' then .some (word.drop (name.length + 1)) else Option.none
  match ofLongName? name with
  | .some s => c.takeOption p s value
  | .none =>
    if name = "help".toList then
      if value.isSome then .error .tooManyValues
      else do
        let _ ← c.settle p
        .error .displayHelp
    else .error .unknownArgument

/-- A word that starts with one dash. -/
def takeShort (c : CommandLine) (p : Option Pending) (word : List Char) :
    Except Fault (CommandLine × Option Pending) :=
  match word with
  | 'c' :: [] => c.takeOption p .config .none
  | 'c' :: '=' :: value => c.takeOption p .config (.some value)
  | 'c' :: value => c.takeOption p .config (.some value)
  | 'h' :: _ => do
    let _ ← c.settle p
    .error .displayHelp
  | _ => .error .unknownArgument

/-- Reads the words from left to right. Two dashes alone end the options, and no word may follow them. -/
def parseFrom (c : CommandLine) (p : Option Pending) : List (List Char) → Except Fault CommandLine
  | [] => c.settle p
  | ['-', '-'] :: rest => if rest.isEmpty then c.settle p else .error .unknownArgument
  | ('-' :: '-' :: word) :: rest => do
    let (c, p) ← c.takeLong p word
    parseFrom c p rest
  | ('-' :: d :: word) :: rest => do
    let (c, p) ← c.takeShort p (d :: word)
    parseFrom c p rest
  | word :: rest =>
    match p with
    | .some ⟨s, .none⟩ => parseFrom c (.some ⟨s, .some word⟩) rest
    | _ => .error .unknownArgument

/-- How the program is called. -/
def usage : String :=
  "Usage: forgeauth [OPTIONS]\n\nOptions:\n" ++
  "  -c, --config <CONFIG>\n" ++
  "      --org <ORG>\n" ++
  "      --listen <LISTEN>\n" ++
  "      --cache-ttl <CACHE_TTL>\n" ++
  "      --cache-max-size <CACHE_MAX_SIZE>\n" ++
  "      --reject-classic-pats <REJECT_CLASSIC_PATS>\n" ++
  "  -h, --help"

/-- What the words of a command line say, the name of the program left out. -/
def parse (words : List String) : Except Fault CommandLine :=
  parseFrom empty .none (words.map String.toList)

/-- The configuration file to read, and whether it may be absent: only one that is not asked for may. -/
def file (c : CommandLine) : String × Bool :=
  match c.configPath with
  | .some path => (path, false)
  | .none => (Config.defaultPath, true)

/-- The overrides, with those of the environment. -/
def overridesIn (c : CommandLine) (apiUrl : Option String) : Overrides :=
  c.overrides.withEnvironment apiUrl

end CommandLine

end TokenGate
