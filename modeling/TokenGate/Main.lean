/-
The program: it reads the command line, the environment and the configuration file, and says with what the service
starts or why it does not.
-/
import TokenGate.Launch

namespace TokenGate.Program

/-- What is found under a path. -/
def contentOf (path : String) : IO Config.FileContent := do
  try
    let bytes ← IO.FS.readBinFile path
    return .bytes bytes.toList
  catch
    | .noFileOrDirectory .. => return .absent
    | .inappropriateType .. => return .directory
    | e => throw e

/-- Prepares a start with the words of a command line. The result is the code with which the program ends. -/
def start (words : List String) : IO UInt32 := do
  match CommandLine.parse words with
  | .error .displayHelp =>
    IO.println CommandLine.usage
    return 0
  | .error f =>
    IO.eprintln s!"error: {f.name}"
    return 2
  | .ok line =>
    let apiUrl ← IO.getEnv Overrides.apiUrlVariable
    let content ← contentOf line.file.1
    match Launch.prepare line apiUrl content with
    | .error f =>
      IO.eprintln s!"Error: {f.message}"
      return 1
    | .ok l =>
      IO.println (l.banner line.file.1).text
      return 0

end TokenGate.Program

/-- Runs the program with the words of its command line. -/
def main (words : List String) : IO UInt32 :=
  TokenGate.Program.start words
