import BytecodeLowering.Command.Arguments

/-!
# Command line

* `main`: reads the files that a command line names, runs the command, and writes what comes of it.
-/

namespace BytecodeLowering.Command

/-- The content of a file, if it can be read. -/
def content? (file : String) : IO (Option ByteArray) := do
  try
    return some (← IO.FS.readBinFile file)
  catch _ =>
    return none

/-- The text of a file, if it can be read. -/
def textOf? (file : String) : IO (Option String) := do
  return (← content? file).bind String.fromUTF8?

/-- The settings of a file, or the defaults if none is named. -/
def loadSettings (config : Option String) : IO (Except CommandError Settings) := do
  match config with
  | none => return .ok {}
  | some file =>
    match (← textOf? file).bind Settings.ofText? with
    | some s => return .ok s
    | none => return .error .settings

/-- Writes an artifact. -/
def writeArtifact (result : LowerResult) : IO (Except CommandError Unit) := do
  try
    IO.FS.writeBinFile result.output ⟨result.bytes.toArray⟩
    return .ok ()
  catch _ =>
    return .error .file

/-- Lowers the class of a file. -/
def runLower (r : LowerRequest) (s : Settings) : IO (Except CommandError Unit) := do
  match lower r s (← textOf? r.input) with
  | .error e => return .error e
  | .ok result =>
    match ← writeArtifact result with
    | .error e => return .error e
    | .ok _ =>
      if let some listing := result.listing then IO.print listing
      if !result.failed.isEmpty then
        IO.eprintln (toString result.failed.length ++ " method(s) were not lowered: " ++
          String.intercalate ", " result.failed)
      return .ok ()

/-- Lists the artifact of a file. -/
def runInspect (input : String) : IO (Except CommandError Unit) := do
  match ← content? input with
  | none => return .error .file
  | some bytes =>
    match inspect bytes.data.toList with
    | .error e => return .error e
    | .ok listing =>
      IO.print listing
      return .ok ()

/-- Runs a command. -/
def run (c : CommandLine) : IO (Except CommandError Unit) := do
  match ← loadSettings c.config with
  | .error e => return .error e
  | .ok settings =>
    match c.request with
    | .lower r => runLower r settings
    | .inspect input => runInspect input

end BytecodeLowering.Command

open BytecodeLowering.Command in
/-- Runs the command of a command line. -/
def main (args : List String) : IO UInt32 := do
  match CommandLine.ofArguments? args with
  | none =>
    IO.eprint usage
    return 2
  | some c =>
    match ← run c with
    | .ok _ => return 0
    | .error e =>
      IO.eprintln ("error: " ++ e.message)
      return 1
