import BytecodeLowering.Json.Decode

/-!
# Options

* `Options`: what can be chosen about the lowering of a class.
-/

namespace BytecodeLowering.Lowering

open Json (Decoder)
open Json.Fields (defaulted record)

/-- What can be chosen about the lowering of a class. -/
structure Options where
  /-- The version of the class format. -/
  classVersion : UInt16 := 55
  /-- Whether source lines are kept. -/
  lineNumbers : Bool := true
  /-- Whether methods may be lowered at the same time. It does not change what they become. -/
  parallel : Bool := false
  /-- Whether the first method that fails makes the class fail. -/
  failFast : Bool := false
  deriving DecidableEq, Repr

/-- Reads options; each has a default. -/
def Options.reader {ε : Type} : Decoder ε Options :=
  record <| Options.mk <$>
    defaulted "class_version" 55 ((Decoder.natOfBits 16).map UInt16.ofNat) <*>
    defaulted "line_numbers" true Decoder.bool <*> defaulted "parallel" false Decoder.bool <*>
    defaulted "fail_fast" false Decoder.bool

end BytecodeLowering.Lowering
