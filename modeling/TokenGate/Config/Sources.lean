/-
Where the values of a configuration come from, and which values are sound.

A value is what replaces it, if anything does, or else what the text says, or else what holds where the text says
nothing. This is told of each value by itself, and whether the values are sound is told without regard to where they
came from.
-/
import TokenGate.Config

namespace TokenGate.Config

/-- The values that a text may set stand at the top, or in a section. -/
inductive Place where
  | top
  | sect (name : String)

/-- The document `d` has an entry called `name` for `n` at a place. -/
def Holds (d : Yaml.Document) (place : Place) (name : String) (n : Yaml.Node) : Prop :=
  ∃ top, d.entries? d.root = .some top ∧
    match place with
    | .top => (name, n) ∈ top
    | .sect sect => ∃ m entries, (sect, m) ∈ top ∧ d.entries? m = .some entries ∧ (name, n) ∈ entries

/-- A text says that the value called `name` is `v`, as `read` reads values of its kind. A blank text says nothing. -/
def Says {α : Type} (text : String) (place : Place) (name : String) (read : Yaml.Document → Yaml.Node → Option α)
    (v : α) : Prop :=
  Text.isAllBlank text = false ∧
    ∃ d n, Yaml.Document.parse text.toList = .some d ∧ Holds d place name n ∧ read d n = .some v

/-- The value that prevails among the one that takes its place, those that are `said`, and the one in reserve. -/
inductive Prevails {α : Type} (override : Option α) (said : α → Prop) (reserve : α) : α → Prop where
  | override {v : α} : override = .some v → Prevails override said reserve v
  | said {v : α} : override = .none → said v → Prevails override said reserve v
  | reserve : override = .none → (∀ v, ¬ said v) → Prevails override said reserve reserve

/-- `c` is what comes of a text, the overrides, and the address in the environment, if there is one that is not blank.
Slashes at the end of the address do not belong to it. -/
structure Merged (text : String) (o : Overrides) (environment : Option String) (c : Config) : Prop where
  org : Prevails o.org (Says text .top "org" Yaml.Document.text?) "" c.org
  listen : Prevails o.listen (Says text .top "listen" Yaml.Document.text?) "0.0.0.0:8080" c.listen
  apiUrl : ∃ url slashes,
    Prevails ((environment.filter fun url => !Text.isAllBlank url).or o.apiUrl)
      (Says text (.sect "upstream") "api_url" Yaml.Document.text?) "https://api.github.com" url ∧
    url.toList = c.apiUrl.toList ++ slashes ∧ (∀ x ∈ slashes, x = '/') ∧ c.apiUrl.toList.getLast? ≠ .some '/'
  userAgent : Prevails .none (Says text (.sect "upstream") "user_agent" Yaml.Document.text?) "forgeauth/0.1.0"
    c.userAgent
  cacheTtl : Prevails o.cacheTtl (Says text (.sect "cache") "ttl" Yaml.Document.word?) 300 c.cacheTtl
  cacheMaxSize : Prevails o.cacheMaxSize (Says text (.sect "cache") "max_size" Yaml.Document.word?) 1000 c.cacheMaxSize
  rejectClassicPats : Prevails o.rejectClassicPats
    (Says text (.sect "auth") "reject_classic_pats" Yaml.Document.flag?) true c.rejectClassicPats
  requestTimeout : Prevails .none (Says text (.sect "auth") "request_timeout" Yaml.Document.word?) 10 c.requestTimeout

/-- The values that a service can run with. -/
structure Sound (c : Config) : Prop where
  org : ∃ x ∈ c.org.toList, Text.isBlank x = false
  listen : ∃ address, Net.SocketAddress.parse c.listen = .some address
  apiUrl : ∃ rest, c.apiUrl = "http://" ++ rest ∨ c.apiUrl = "https://" ++ rest
  cacheTtl : c.cacheTtl ≤ 31536000
  cacheMaxSize : 0 < c.cacheMaxSize
  requestTimeout : 0 < c.requestTimeout

end TokenGate.Config
