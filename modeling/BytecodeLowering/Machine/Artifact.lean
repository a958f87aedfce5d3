import BytecodeLowering.Machine.Check
import BytecodeLowering.Machine.Codec

/-!
# Artifacts

The file format of assembled classes: a mark, a version, and the class as bytes.

* `ClassImage.codec`, and the codecs of its parts.
* `Artifact.encode`: the file of a class, if all its numbers fit their fields.
* `Artifact.read`: the payload of a file, whose class is checked as well. Bytes behind the class are
  ignored.
* `Artifact.decode`: the class of a file.
-/

namespace BytecodeLowering.Machine

namespace Codec

/-- 32-bit floating-point values. -/
def single : Codec Number.Single :=
  uint32.via Number.Single.bits fun w => some ⟨w⟩

/-- 64-bit floating-point values. -/
def double : Codec Number.Double :=
  uint64.via Number.Double.bits fun w => some ⟨w⟩

/-- Operations, by their places among all of them. -/
def opcode : Codec Opcode :=
  ofList Opcode.all

/-- Labels. -/
def label : Codec Label :=
  (nat 4).via Label.id fun n => some ⟨n⟩

end Codec

/-- Handles as bytes. -/
def Handle.codec : Codec Handle :=
  ((Codec.ofList HandleTag.all).pair
      (Codec.string.pair (Codec.string.pair (Codec.string.pair Codec.bool)))).via
    (fun h => (h.tag, h.owner, h.name, h.desc, h.interface))
    fun (tag, owner, name, desc, interface) => some ⟨tag, owner, name, desc, interface⟩

/-- Loadable constants as bytes. -/
def Loadable.codec : Codec Loadable :=
  Codec.union [
    .of Codec.int32 .int fun | .int v => some v | _ => none,
    .of Codec.int64 .long fun | .long v => some v | _ => none,
    .of Codec.single .float fun | .float v => some v | _ => none,
    .of Codec.double .double fun | .double v => some v | _ => none,
    .of Codec.string .str fun | .str v => some v | _ => none,
    .of Codec.string .type fun | .type v => some v | _ => none,
    .of Codec.string .methodType fun | .methodType v => some v | _ => none,
    .of Handle.codec .handle fun | .handle v => some v | _ => none]

/-- Instructions as bytes. -/
def Insn.codec : Codec Insn :=
  Codec.union [
    .of Codec.opcode .simple fun | .simple op => some op | _ => none,
    .of (Codec.opcode.pair Codec.int32) (fun (op, n) => .int op n)
      fun | .int op n => some (op, n) | _ => none,
    .of (Codec.opcode.pair (Codec.nat 2)) (fun (op, slot) => .var op slot)
      fun | .var op slot => some (op, slot) | _ => none,
    .of (Codec.opcode.pair Codec.string) (fun (op, name) => .type op name)
      fun | .type op name => some (op, name) | _ => none,
    .of (Codec.opcode.pair (Codec.string.pair (Codec.string.pair Codec.string)))
      (fun (op, owner, name, desc) => .field op owner name desc)
      fun | .field op owner name desc => some (op, owner, name, desc) | _ => none,
    .of (Codec.opcode.pair (Codec.string.pair (Codec.string.pair (Codec.string.pair Codec.bool))))
      (fun (op, owner, name, desc, interface) => .method op owner name desc interface)
      fun
        | .method op owner name desc interface => some (op, owner, name, desc, interface)
        | _ => none,
    .of (Codec.string.pair (Codec.string.pair (Handle.codec.pair Loadable.codec.list)))
      (fun (name, desc, bootstrap, args) => .invokeDynamic name desc bootstrap args)
      fun
        | .invokeDynamic name desc bootstrap args => some (name, desc, bootstrap, args)
        | _ => none,
    .of (Codec.opcode.pair Codec.label) (fun (op, target) => .jump op target)
      fun | .jump op target => some (op, target) | _ => none,
    .of Loadable.codec .ldc fun | .ldc c => some c | _ => none,
    .of (Codec.int32.pair (Codec.int32.pair (Codec.label.pair Codec.label.list)))
      (fun (min, max, default, labels) => .tableSwitch min max default labels)
      fun
        | .tableSwitch min max default labels => some (min, max, default, labels)
        | _ => none,
    .of (Codec.label.pair (Codec.int32.list.pair Codec.label.list))
      (fun (default, keys, labels) => .lookupSwitch default keys labels)
      fun | .lookupSwitch default keys labels => some (default, keys, labels) | _ => none,
    .of (Codec.string.pair (Codec.nat 1)) (fun (desc, dims) => .multiNewArray desc dims)
      fun | .multiNewArray desc dims => some (desc, dims) | _ => none,
    .of Codec.label .label fun | .label l => some l | _ => none,
    .of ((Codec.nat 4).pair Codec.label) (fun (line, start) => .lineNumber line start)
      fun | .lineNumber line start => some (line, start) | _ => none]

/-- Entries of exception tables as bytes. -/
def Guard.codec : Codec Guard :=
  (Codec.label.pair (Codec.label.pair (Codec.label.pair Codec.string.option))).via
    (fun g => (g.start, g.stop, g.handler, g.exception))
    fun (start, stop, handler, exception) => some ⟨start, stop, handler, exception⟩

/-- The code of methods as bytes. -/
def MethodCode.codec : Codec MethodCode :=
  (Insn.codec.list.pair (Guard.codec.list.pair ((Codec.nat 2).pair (Codec.nat 2)))).via
    (fun c => (c.insns, c.guards, c.sizes.stack, c.sizes.locals))
    fun (insns, guards, stack, locals) => some ⟨insns, guards, ⟨stack, locals⟩⟩

/-- The alternatives of annotation values, with the values inside of them stored by `inner`. -/
def ElementValue.variants (inner : Codec ElementValue) : List (Variant ElementValue) :=
  [.of Codec.bool .boolean fun | .boolean v => some v | _ => none,
    .of Codec.int32 .int fun | .int v => some v | _ => none,
    .of Codec.int64 .long fun | .long v => some v | _ => none,
    .of Codec.single .float fun | .float v => some v | _ => none,
    .of Codec.double .double fun | .double v => some v | _ => none,
    .of Codec.string .str fun | .str v => some v | _ => none,
    .of (Codec.string.pair Codec.string) (fun (desc, name) => .enumConst desc name)
      fun | .enumConst desc name => some (desc, name) | _ => none,
    .of Codec.string .classOf fun | .classOf v => some v | _ => none,
    .of inner.list .array fun | .array vs => some vs | _ => none,
    .of (Codec.string.pair (Codec.string.pair inner).list)
      (fun (desc, values) => .nested desc values)
      fun | .nested desc values => some (desc, values) | _ => none]

/-- Annotation values of at most the given depth as bytes. -/
def ElementValue.codecTo : Nat → Codec ElementValue
  | 0 => Codec.empty
  | depth + 1 => Codec.union (ElementValue.variants (codecTo depth))

mutual

/-- How many annotation values are nested in an annotation value, with itself. -/
def ElementValue.depth : ElementValue → Nat
  | .array values => ElementValue.listDepth values + 1
  | .nested _ values => ElementValue.pairsDepth values + 1
  | _ => 1

/-- The greatest depth of some annotation values. -/
def ElementValue.listDepth : List ElementValue → Nat
  | [] => 0
  | v :: vs => max v.depth (ElementValue.listDepth vs)

/-- The greatest depth of some named annotation values. -/
def ElementValue.pairsDepth : List (String × ElementValue) → Nat
  | [] => 0
  | (_, v) :: ps => max v.depth (ElementValue.pairsDepth ps)

end

/-- Annotation values as bytes. Each level takes some bytes, so that the number of bytes bounds the
depth. -/
def ElementValue.codec : Codec ElementValue where
  put v := (ElementValue.codecTo v.depth).put v
  get bs := (ElementValue.codecTo bs.length).get bs

/-- Headers of classes as bytes. -/
def ClassHeader.codec : Codec ClassHeader :=
  (Codec.uint16.pair (Codec.uint16.pair
      (Codec.string.pair (Codec.string.option.pair Codec.string.list)))).via
    (fun h => (h.version, h.access, h.name, h.superName, h.interfaces))
    fun (version, access, name, superName, interfaces) =>
      some ⟨version, access, name, superName, interfaces⟩

/-- Fields as bytes. -/
def FieldDecl.codec : Codec FieldDecl :=
  (Codec.uint16.pair (Codec.string.pair (Codec.string.pair Loadable.codec.option))).via
    (fun f => (f.access, f.name, f.desc, f.constant))
    fun (access, name, desc, constant) => some ⟨access, name, desc, constant⟩

/-- Headers of methods as bytes. -/
def MethodHeader.codec : Codec MethodHeader :=
  (Codec.uint16.pair (Codec.string.pair (Codec.string.pair Codec.string.list))).via
    (fun h => (h.access, h.name, h.desc, h.exceptions))
    fun (access, name, desc, exceptions) => some ⟨access, name, desc, exceptions⟩

/-- Methods as bytes. -/
def MethodImage.codec : Codec MethodImage :=
  (MethodHeader.codec.pair (MethodCode.codec.option.pair ElementValue.codec.option)).via
    (fun m => (m.header, m.code, m.annotationDefault))
    fun (header, code, annotationDefault) => some ⟨header, code, annotationDefault⟩

/-- Classes as bytes. -/
def ClassImage.codec : Codec ClassImage :=
  (ClassHeader.codec.pair (FieldDecl.codec.list.pair MethodImage.codec.list)).via
    (fun c => (c.header, c.fields, c.methods))
    fun (header, fields, methods) => some ⟨header, fields, methods⟩

namespace Artifact

/-- The bytes that every artifact starts with. -/
def magic : Bytes := [0x46, 0x4a, 0x43, 0x4c]

/-- The version of artifacts that is written and read. -/
def version : Nat := 1

/-- The payload of an artifact. -/
structure File where
  /-- The version again. -/
  version : Nat
  /-- The class. -/
  image : ClassImage
  deriving Repr

/-- Payloads as bytes. -/
def File.codec : Codec File :=
  ((Codec.nat 4).pair ClassImage.codec).via (fun f => (f.version, f.image))
    fun (version, image) => some ⟨version, image⟩

/-- The artifact of a class; none if some number of it does not fit its field. -/
def encode (c : ClassImage) : Option Bytes :=
  (File.codec.put ⟨version, c⟩).map fun bs => magic ++ Codec.bytesOf 4 version ++ bs

/-- Why bytes are not an artifact. -/
inductive DecodeError where
  /-- The header or the class does not meet a condition. -/
  | format (e : FormatError)
  /-- The payload is not the form of a class. -/
  | undecodable
  deriving DecidableEq, Repr

/-- The bytes of an artifact behind its header. -/
def behindHeader (bytes : Bytes) : Except DecodeError Bytes :=
  if bytes.length < 8 then .error (.format .shortHeader)
  else if bytes.take 4 ≠ magic then .error (.format .badMagic)
  else
    match Codec.natOf 4 (bytes.drop 4) with
    | none => .error (.format .shortHeader)
    | some (found, rest) =>
      if found ≠ version then .error (.format (.badVersion found version)) else .ok rest

/-- The payload of an artifact. -/
def read (bytes : Bytes) : Except DecodeError File := do
  match File.codec.get (← behindHeader bytes) with
  | none => .error .undecodable
  | some (file, _) =>
    if file.version ≠ version then .error (.format (.payloadVersion file.version version))
    else (file.image.check.mapError .format).map fun _ => file

/-- The class of an artifact. -/
def decode (bytes : Bytes) : Except DecodeError ClassImage :=
  (read bytes).map File.image

end Artifact

end BytecodeLowering.Machine
