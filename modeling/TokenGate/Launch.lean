/-
Starting the service: what the command line, the environment and the configuration file come to.
-/
import TokenGate.CommandLine
import TokenGate.Forge.Calls
import TokenGate.Server

namespace TokenGate

/-- What a service starts with. -/
structure Launch where
  config : Config
  forge : Forge.Api

namespace Launch

/-- Why a service does not start. -/
inductive Fault where
  | config (f : Config.LoadFault)
  | forge (f : Forge.AccessFault)
deriving DecidableEq

/-- The wording of a fault. -/
def Fault.message : Fault → String
  | config f => f.message
  | forge f => f.message

/-- What a service with an accepted configuration starts with. -/
def ofConfig (c : Config) : Except Forge.AccessFault Launch :=
  (Forge.Api.ofConfig c).map fun api => ⟨c, api⟩

/-- What comes of a command line, the address of the forge that the environment gives, and what is found under the
path of the configuration file. -/
def prepare (line : CommandLine) (apiUrl : Option String) (content : Config.FileContent) : Except Fault Launch :=
  let (path, isOptional) := line.file
  match Config.load path content isOptional (line.overridesIn apiUrl) with
  | .error f => .error (.config f)
  | .ok c => (ofConfig c).mapError .forge

/-- How the service is wired: its provider asks the forge, and its requests are counted. -/
def wiring (l : Launch) : Wiring Forge.Answer :=
  ⟨Forge.provider l.forge true, l.config.policy⟩

/-- The service when it starts. -/
def service (l : Launch) : Service Forge.Answer :=
  Service.ofConfig l.config

/-- What the log says when the service starts. -/
def banner (path : String) (l : Launch) : Json :=
  .object
    [Json.member "message" (.ofText "starting forgeauth"), Json.member "config_path" (.ofText path),
     Json.member "org" (.ofText l.config.org), Json.member "api_url" (.ofText l.config.apiUrl),
     Json.member "cache_ttl_secs" (.ofInt l.config.cacheTtl),
     Json.member "cache_max_size" (.ofInt l.config.cacheMaxSize),
     Json.member "reject_classic_pats" (.bool l.config.rejectClassicPats)]

end Launch

end TokenGate
