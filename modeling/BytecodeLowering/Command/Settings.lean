import BytecodeLowering.Json.Basic
import BytecodeLowering.Lowering.Options
import BytecodeLowering.Toml.Quote
import BytecodeLowering.Toml.Reader

/-!
# Settings

What a settings file says about the commands.

* `Settings.ofText?`: the settings of a text. Keys that are not known are ignored, and settings that
  are not there have defaults.
* `Settings.render`: the text of settings.
* `Settings.merge`: the settings of several files; the last one counts.
-/

namespace BytecodeLowering.Command

open Lowering (Options)

/-- What is done with an assembled class. -/
structure OutputSettings where
  /-- The extension of the file of an artifact. -/
  extension : String := "fjc"
  /-- Whether a listing is printed. -/
  listing : Bool := false
  deriving DecidableEq, Repr

/-- The settings of the commands. -/
structure Settings where
  /-- What can be chosen about the lowering of a class. -/
  lowering : Options := {}
  /-- What is done with an assembled class. -/
  output : OutputSettings := {}
  deriving DecidableEq, Repr

/-- A truth value under a key, or its default; `none` if something else is there. -/
def flag? (key : String) (default : Bool) (ms : Toml.Members) : Option Bool :=
  match ms.lookup key with
  | none => some default
  | some (.boolean b) => some b
  | some _ => none

/-- A 16-bit word under a key, or its default; `none` if something else is there. -/
def word? (key : String) (default : UInt16) (ms : Toml.Members) : Option UInt16 :=
  match ms.lookup key with
  | none => some default
  | some (.integer i) => if 0 ≤ i ∧ i < UInt16.size then some (UInt16.ofNat i.toNat) else none
  | some _ => none

/-- A text under a key, or its default; `none` if something else is there. -/
def text? (key : String) (default : String) (ms : Toml.Members) : Option String :=
  match ms.lookup key with
  | none => some default
  | some (.text s) => some s
  | some _ => none

/-- A table under a key, empty if it is not there; `none` if something else is there. An array
stands for the table with the given keys in this order, further values being ignored. -/
def table? (key : String) (keys : List String) (ms : Toml.Members) : Option Toml.Members :=
  match ms.lookup key with
  | none => some []
  | some (.table _ members) => some members
  | some (.array items) => some (keys.zip items)
  | some _ => none

/-- The keys of the options, in order. -/
def optionKeys : List String :=
  ["class_version", "line_numbers", "parallel", "fail_fast"]

/-- The keys of the output settings, in order. -/
def outputKeys : List String :=
  ["extension", "listing"]

/-- The options of a table. -/
def options? (ms : Toml.Members) : Option Options := do
  let defaults : Options := {}
  return {
    classVersion := ← word? "class_version" defaults.classVersion ms
    lineNumbers := ← flag? "line_numbers" defaults.lineNumbers ms
    parallel := ← flag? "parallel" defaults.parallel ms
    failFast := ← flag? "fail_fast" defaults.failFast ms }

/-- The output settings of a table. -/
def outputSettings? (ms : Toml.Members) : Option OutputSettings := do
  let defaults : OutputSettings := {}
  return {
    extension := ← text? "extension" defaults.extension ms
    listing := ← flag? "listing" defaults.listing ms }

namespace Settings

/-- The settings of a text. -/
def ofText? (text : String) : Option Settings := do
  let root ← Toml.ofText? text
  return {
    lowering := ← options? (← table? "lowering" optionKeys root)
    output := ← outputSettings? (← table? "output" outputKeys root) }

/-- The settings of two files, of which the later one counts. -/
def merge (_earlier later : Settings) : Settings :=
  later

/-- The line of a truth value. -/
def flagLine (key : String) (b : Bool) : String :=
  key ++ " = " ++ (if b then "true" else "false") ++ "\n"

/-- The text of settings. -/
def render (s : Settings) : String :=
  "[lowering]\nclass_version = " ++ toString s.lowering.classVersion.toNat ++ "\n" ++
    flagLine "line_numbers" s.lowering.lineNumbers ++ flagLine "parallel" s.lowering.parallel ++
    flagLine "fail_fast" s.lowering.failFast ++ "\n[output]\nextension = " ++
    Toml.quote s.output.extension ++ "\n" ++ flagLine "listing" s.output.listing

/-- The JSON form of settings. -/
def toJson (s : Settings) : Json :=
  .record [
    ("lowering", .record [
      ("class_version", .ofNat s.lowering.classVersion.toNat),
      ("line_numbers", .bool s.lowering.lineNumbers),
      ("parallel", .bool s.lowering.parallel), ("fail_fast", .bool s.lowering.failFast)]),
    ("output", .record [
      ("extension", .ofString s.output.extension), ("listing", .bool s.output.listing)])]

end Settings

end BytecodeLowering.Command
