import BytecodeLowering.Command.FileName
import BytecodeLowering.Command.Settings
import BytecodeLowering.Ir.Read
import BytecodeLowering.Lowering.Class
import BytecodeLowering.Machine.Artifact
import BytecodeLowering.Machine.Listing
import BytecodeLowering.Text.Quoted

/-!
# Commands

What the commands compute from the contents of files; reading and writing these is left to the
caller.

* `LowerRequest`, `lower`: lowers the class of a file.
* `inspect`: lists the class of an artifact.
* `CommandError`: why a command fails.
-/

namespace BytecodeLowering.Command

open Lowering (Options LowerError)

/-- Why a command fails. -/
inductive CommandError where
  /-- A file cannot be read or written. -/
  | file
  /-- The settings cannot be read. -/
  | settings
  /-- The input file cannot be read. -/
  | missingInput
  /-- The input file is not a class. -/
  | invalidClass
  /-- The class cannot be lowered. -/
  | lowering (e : LowerError)
  /-- The extension for the artifact names a directory. -/
  | badExtension (extension : String)
  /-- The assembled class does not fit an artifact. -/
  | tooLarge
  /-- The file to list is not an artifact. -/
  | badArtifact
  deriving DecidableEq, Repr

/-- The wording of a command error. -/
def CommandError.message : CommandError → String
  | file => "cannot read or write file"
  | settings => "Configuration error"
  | missingInput => "Failed to read the input"
  | invalidClass => "the input is not a class"
  | lowering e => "Lowering failed: " ++ e.message
  | badExtension e => "extension cannot contain path separators: " ++ Text.quoted e
  | tooLarge => "the class does not fit an artifact"
  | badArtifact => "the file is not an artifact"

/-- What is asked of the lowering of a file. -/
structure LowerRequest where
  /-- The name of the file. -/
  input : String
  /-- The name of the file for the artifact, if it is not to be named like the input. -/
  output : Option String := none
  /-- Whether a listing is asked for. -/
  listing : Bool := false
  /-- Whether methods may be lowered at the same time. -/
  parallel : Bool := false
  /-- Whether the first method that fails makes the command fail. -/
  failFast : Bool := false
  /-- Whether source lines are left out. -/
  noLineNumbers : Bool := false
  /-- The version of the class format, if it is given. -/
  classVersion : Option UInt16 := none
  deriving DecidableEq, Repr

namespace LowerRequest

/-- The options of a request: what the settings turn on stays on. -/
def options (r : LowerRequest) (s : Settings) : Options where
  classVersion := r.classVersion.getD s.lowering.classVersion
  lineNumbers := s.lowering.lineNumbers && !r.noLineNumbers
  parallel := s.lowering.parallel || r.parallel
  failFast := s.lowering.failFast || r.failFast

/-- The name of the file for the artifact. -/
def outputName (r : LowerRequest) (s : Settings) : Except CommandError String :=
  match r.output with
  | some name => .ok name
  | none =>
    let extension := s.output.extension
    if extension.toList.contains '/' then .error (.badExtension extension)
    else .ok (withExtension r.input extension)

end LowerRequest

/-- What comes of the lowering of a file. -/
structure LowerResult where
  /-- The name of the file for the artifact. -/
  output : String
  /-- The bytes of the artifact. -/
  bytes : Machine.Bytes
  /-- The number of methods in the class. -/
  methods : Nat
  /-- The names of the methods that were left out. -/
  failed : List String
  /-- The listing, if it was asked for. -/
  listing : Option String

/-- Lowers the class of a text, which is missing if the file cannot be read. -/
def lower (r : LowerRequest) (s : Settings) (text : Option String) :
    Except CommandError LowerResult := do
  let some text := text | throw .missingInput
  let c ← (Ir.Class.ofText text).mapError fun _ => .invalidClass
  let lowered ← (Lowering.lowerClass c (r.options s)).mapError .lowering
  let output ← r.outputName s
  let some bytes := Machine.Artifact.encode lowered.image | throw .tooLarge
  return {
    output := output
    bytes := bytes
    methods := lowered.image.methods.length
    failed := lowered.failures.map Lowering.MethodFailure.method
    listing := if r.listing || s.output.listing then some lowered.image.render else none }

/-- Lists the class of an artifact. -/
def inspect (bytes : Machine.Bytes) : Except CommandError String :=
  match Machine.Artifact.decode bytes with
  | .ok c => .ok c.render
  | .error _ => .error .badArtifact

end BytecodeLowering.Command
