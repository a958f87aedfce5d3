import BytecodeLowering.Command.Run

/-!
# Command lines

* `CommandLine`: what a command line asks for.
* `CommandLine.ofArguments?`: reads the arguments of a command line.
* `usage`: how a command line looks.
-/

namespace BytecodeLowering.Command

/-- A command. -/
inductive Request where
  /-- Lower the class of a file. -/
  | lower (r : LowerRequest)
  /-- List the artifact of a file. -/
  | inspect (input : String)
  deriving DecidableEq, Repr

/-- What a command line asks for. -/
structure CommandLine where
  /-- The command. -/
  request : Request
  /-- The settings file, if one is named. -/
  config : Option String := none
  deriving DecidableEq, Repr

/-- How a command line looks. -/
def usage : String :=
  "usage: lower INPUT [-o OUTPUT] [--listing] [--parallel] [--fail-fast] [--no-line-numbers]\n" ++
    "             [--class-version N] [-c CONFIG]\n" ++
    "       inspect INPUT [-c CONFIG]\n"

/-- Takes the option that names a settings file out of some arguments. -/
def takeConfig : List String → Option (Option String × List String)
  | [] => some (none, [])
  | arg :: rest =>
    if arg = "-c" ∨ arg = "--config" then
      match rest with
      | file :: rest => (takeConfig rest).map fun (_, args) => (some file, args)
      | [] => none
    else (takeConfig rest).map fun (config, args) => (config, arg :: args)

/-- A version number in an argument. -/
def version? (arg : String) : Option UInt16 :=
  if arg.toList.isEmpty || !arg.toList.all Char.isDigit then none
  else
    let n := arg.toList.foldl (fun n d => 10 * n + (d.toNat - '0'.toNat)) 0
    if n < UInt16.size then some (UInt16.ofNat n) else none

/-- Reads the options of a request. -/
def lowerOptions (r : LowerRequest) : List String → Option LowerRequest
  | [] => some r
  | "--listing" :: rest => lowerOptions { r with listing := true } rest
  | "--parallel" :: rest => lowerOptions { r with parallel := true } rest
  | "--fail-fast" :: rest => lowerOptions { r with failFast := true } rest
  | "--no-line-numbers" :: rest => lowerOptions { r with noLineNumbers := true } rest
  | "-o" :: file :: rest | "--output" :: file :: rest =>
    lowerOptions { r with output := some file } rest
  | "--class-version" :: n :: rest =>
    match version? n with
    | some v => lowerOptions { r with classVersion := some v } rest
    | none => none
  -- The one argument that is no option names the input.
  | arg :: rest =>
    if r.input.isEmpty && !"-".toList.isPrefixOf arg.toList then
      lowerOptions { r with input := arg } rest
    else none

/-- Reads the arguments of a command line. -/
def CommandLine.ofArguments? (args : List String) : Option CommandLine := do
  let (config, args) ← takeConfig args
  match args with
  | "lower" :: rest =>
    let r ← lowerOptions { input := "" } rest
    if r.input.isEmpty then none else some ⟨.lower r, config⟩
  | ["inspect", input] => some ⟨.inspect input, config⟩
  | _ => none

end BytecodeLowering.Command
