/-
The configuration: what is in the file, what the command line and the environment put in its place, and which
configurations are accepted.

Values are merged first and judged afterwards, so the verdict depends on the merged values alone and not on where
each of them came from.
-/
import TokenGate.Net.Address.Reader
import TokenGate.Text.Blank
import TokenGate.Text.Decimal
import TokenGate.Yaml.Document

namespace TokenGate

/-- The settings of the service. Times are in seconds. -/
structure Config where
  /-- The organization whose members are let through. -/
  org : String
  /-- The socket address to listen on. -/
  listen : String
  /-- The address of the forge. -/
  apiUrl : String
  /-- How the service calls itself to the forge. -/
  userAgent : String
  /-- How long an outcome is remembered; zero switches the cache off. -/
  cacheTtl : Nat
  /-- How many outcomes are remembered. -/
  cacheMaxSize : Nat
  /-- Whether credentials of the classic kind are refused. -/
  rejectClassicPats : Bool
  /-- How long a validation may take. -/
  requestTimeout : Nat
deriving DecidableEq

/-- Values that take the place of those in the file. -/
structure Overrides where
  org : Option String
  listen : Option String
  apiUrl : Option String
  cacheTtl : Option Nat
  cacheMaxSize : Option Nat
  rejectClassicPats : Option Bool
deriving DecidableEq

namespace Overrides

/-- Nothing is replaced. -/
def none : Overrides := ⟨.none, .none, .none, .none, .none, .none⟩

/-- The environment variable that gives the address of the forge. -/
def apiUrlVariable : String := "GITHUB_API_BASE_URL"

/-- Takes the address of the forge from the environment, where it holds one that is not blank. -/
def withEnvironment (o : Overrides) (value : Option String) : Overrides :=
  match value with
  | .some url => if Text.isAllBlank url then o else { o with apiUrl := .some url }
  | .none => o

end Overrides

namespace Config

/-- What holds where the file says nothing. -/
def preset : Config where
  org := ""
  listen := "0.0.0.0:8080"
  apiUrl := "https://api.github.com"
  userAgent := "forgeauth/0.1.0"
  cacheTtl := 300
  cacheMaxSize := 1000
  rejectClassicPats := true
  requestTimeout := 10

/-- The longest time that an outcome may be remembered: a year. -/
def maxCacheTtl : Nat := 365 * 24 * 60 * 60

/-! ## Reading -/

/-- The configuration that a document holds. -/
def ofDocument? (d : Yaml.Document) : Option Config := do
  let top ← d.entries? d.root
  let section? (name : String) : Option (List (String × Yaml.Node)) :=
    Yaml.Document.fieldOr top name [] d.entries?
  let forge ← section? "upstream"
  let cache ← section? "cache"
  let auth ← section? "auth"
  .some
    { org := ← Yaml.Document.fieldOr top "org" preset.org d.text?
      listen := ← Yaml.Document.fieldOr top "listen" preset.listen d.text?
      apiUrl := ← Yaml.Document.fieldOr forge "api_url" preset.apiUrl d.text?
      userAgent := ← Yaml.Document.fieldOr forge "user_agent" preset.userAgent d.text?
      cacheTtl := ← Yaml.Document.fieldOr cache "ttl" preset.cacheTtl d.word?
      cacheMaxSize := ← Yaml.Document.fieldOr cache "max_size" preset.cacheMaxSize d.word?
      rejectClassicPats := ← Yaml.Document.fieldOr auth "reject_classic_pats" preset.rejectClassicPats d.flag?
      requestTimeout := ← Yaml.Document.fieldOr auth "request_timeout" preset.requestTimeout d.word? }

/-- The configuration that a text holds. A blank text says nothing. -/
def ofText? (s : String) : Option Config :=
  if Text.isAllBlank s then .some preset else (Yaml.Document.parse s.toList).bind ofDocument?

/-! ## Merging -/

/-- The address without the slashes at its end. -/
def withoutSlashes (url : String) : String :=
  String.ofList (Text.dropEndWhile (· == '/') url.toList)

/-- The configuration with the overrides in place. -/
def merge (c : Config) (o : Overrides) : Config :=
  { c with
    org := o.org.getD c.org
    listen := o.listen.getD c.listen
    apiUrl := withoutSlashes (o.apiUrl.getD c.apiUrl)
    cacheTtl := o.cacheTtl.getD c.cacheTtl
    cacheMaxSize := o.cacheMaxSize.getD c.cacheMaxSize
    rejectClassicPats := o.rejectClassicPats.getD c.rejectClassicPats }

/-- Overrides that give every value that can be given, the way it is. -/
def asOverrides (c : Config) : Overrides :=
  ⟨.some c.org, .some c.listen, .some c.apiUrl, .some c.cacheTtl, .some c.cacheMaxSize, .some c.rejectClassicPats⟩

/-! ## Judging -/

/-- Why there is no configuration. -/
inductive Fault where
  | notYaml
  | noOrg
  | badListen (listen : String)
  | badApiUrl (apiUrl : String)
  | ttlTooLong (ttl : Nat)
  | noRoom
  | noTime
deriving DecidableEq

/-- The wording of a fault. -/
def Fault.message : Fault → String
  | notYaml => "failed to parse YAML: <yaml>"
  | noOrg => "org is required (set it in the config file or pass --org)"
  | badListen listen =>
    "listen address is not a socket address: " ++ listen ++ ": invalid socket address syntax"
  | badApiUrl apiUrl => "upstream.api_url must be an http(s) URL, got " ++ apiUrl
  | ttlTooLong ttl => s!"cache.ttl must be at most {maxCacheTtl} seconds, got {ttl}"
  | noRoom => "cache.max_size must be positive"
  | noTime => "auth.request_timeout must be positive"

/-- Whether an address begins like one of the web. -/
def isWebUrl (url : String) : Bool :=
  "http://".toList.isPrefixOf url.toList || "https://".toList.isPrefixOf url.toList

/-- The first fault of a configuration, in the order in which they are looked for. -/
def fault? (c : Config) : Option Fault :=
  if Text.isAllBlank c.org then .some .noOrg
  else if (Net.SocketAddress.parse c.listen).isNone then .some (.badListen c.listen)
  else if !isWebUrl c.apiUrl then .some (.badApiUrl c.apiUrl)
  else if maxCacheTtl < c.cacheTtl then .some (.ttlTooLong c.cacheTtl)
  else if c.cacheMaxSize = 0 then .some .noRoom
  else if c.requestTimeout = 0 then .some .noTime
  else .none

/-- Reads a text, puts the overrides in place, and judges what comes of it. -/
def parse (s : String) (o : Overrides) : Except Fault Config :=
  match ofText? s with
  | .none => .error .notYaml
  | .some c =>
    match (c.merge o).fault? with
    | .some f => .error f
    | .none => .ok (c.merge o)

/-- An accepted configuration is the merged one. -/
theorem parse_eq_ok_iff {s : String} {o : Overrides} {c : Config} :
    parse s o = .ok c ↔ ∃ d, ofText? s = .some d ∧ c = d.merge o ∧ (d.merge o).fault? = .none := by
  unfold parse
  cases ofText? s with
  | none => simp
  | some d => cases h : (d.merge o).fault? <;> simp [h, eq_comm]

end Config

end TokenGate
