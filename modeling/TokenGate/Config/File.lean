/-
The configuration file: what is found under its path, and what is made of it.
-/
import TokenGate.Config
import TokenGate.Text.Utf8

namespace TokenGate.Config

/-- What is found under a path. -/
inductive FileContent where
  | absent
  | directory
  | bytes (bs : List UInt8)

/-- Why a file has no text. -/
inductive FileFault where
  | absent
  | directory
  | notUtf8
deriving DecidableEq

/-- The wording of the operating system. -/
def FileFault.message : FileFault → String
  | absent => "No such file or directory (os error 2)"
  | directory => "Is a directory (os error 21)"
  | notUtf8 => "stream did not contain valid UTF-8"

/-- The text of a file. -/
def FileContent.text? : FileContent → Except FileFault String
  | absent => .error .absent
  | directory => .error .directory
  | bytes bs =>
    match Text.Utf8.decode? bs with
    | .some s => .ok (String.ofList s)
    | .none => .error .notUtf8

/-- Why no configuration was loaded. -/
inductive LoadFault where
  | unreadable (path : String) (f : FileFault)
  | invalidFile (path : String) (f : Fault)
  | invalidCommandLine (f : Fault)
deriving DecidableEq

/-- The wording of a fault. -/
def LoadFault.message : LoadFault → String
  | unreadable path f => s!"failed to read config file: {path}: {f.message}"
  | invalidFile path f => s!"invalid config file: {path}: {f.message}"
  | invalidCommandLine f => s!"invalid command-line configuration: {f.message}"

/-- The file that is read when no other is asked for. It may be absent. -/
def defaultPath : String := "/etc/forgeauth/config.yaml"

/-- The configuration of a file. Where the file is optional and absent, the overrides stand alone. -/
def load (path : String) (content : FileContent) (isOptional : Bool) (o : Overrides) : Except LoadFault Config :=
  match content.text? with
  | .ok s => (parse s o).mapError (.invalidFile path)
  | .error f =>
    if isOptional && f = .absent then (parse "" o).mapError .invalidCommandLine
    else .error (.unreadable path f)

end TokenGate.Config
