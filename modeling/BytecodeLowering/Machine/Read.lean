import BytecodeLowering.Json.Decode
import BytecodeLowering.Machine.Image

/-!
# Reading assembled code

The JSON form of instructions and of assembled classes.

* `Opcode.keyword`: the word by which an operation is named there.
* `Insn.reader`, `Guard.reader`, `ElementValue.reader`, `ClassImage.reader` and the like: readers of
  the parts of a class.

Alternatives are objects with one member. Only what a part need not have may be left out of an
object, and unknown members are ignored.
-/

namespace BytecodeLowering.Machine

open Json (Decoder)
open Json.Fields (required nullable record)

/-- A reader of a part of an assembled class; it fails on shapes only. -/
abbrev Reader (α : Type) := Decoder Empty α

/-- A word with a capital letter in front. -/
def capitalized : List Char → List Char
  | [] => []
  | c :: cs => c.toUpper :: cs

/-- The word for an operation: its name without underscores, with a capital letter in place of
each. -/
def Opcode.keyword (op : Opcode) : String :=
  String.ofList ((op.mnemonic.toList.splitOn '_').flatMap capitalized)

/-- The operation with the given word. -/
def Opcode.ofKeyword? (s : String) : Option Opcode :=
  all.find? fun op => op.keyword = s

/-- Reads an operation. -/
def Opcode.reader : Reader Opcode :=
  Decoder.words Opcode.ofKeyword?

/-- Reads a label. -/
def Label.reader : Reader Label :=
  (Decoder.natOfBits 32).map Label.mk

/-- Reads a tag. -/
def HandleTag.reader : Reader HandleTag :=
  Decoder.words fun s => all.find? fun t => t.keyword = s

/-- Reads a handle. -/
def Handle.reader : Reader Handle :=
  record <| Handle.mk <$> required "tag" HandleTag.reader <*> required "owner" Decoder.text <*>
    required "name" Decoder.text <*> required "desc" Decoder.text <*>
    required "interface" Decoder.bool

/-- Reads a loadable constant. -/
def Loadable.reader : Reader Loadable :=
  Decoder.choice (fun _ => none) fun
    | "Int" => some (Decoder.int32.map .int)
    | "Long" => some (Decoder.int64.map .long)
    | "Float" => some (Decoder.single.map .float)
    | "Double" => some (Decoder.double.map .double)
    | "Str" => some (Decoder.text.map .str)
    | "Type" => some (Decoder.text.map .type)
    | "MethodType" => some (Decoder.text.map .methodType)
    | "Handle" => some (Handle.reader.map .handle)
    | _ => none

/-- Reads an instruction. -/
def Insn.reader : Reader Insn :=
  Decoder.choice (fun _ => none) fun
    | "Simple" => some (Opcode.reader.map .simple)
    | "Int" => some <| record <| Insn.int <$> required "op" Opcode.reader <*>
        required "operand" Decoder.int32
    | "Var" => some <| record <| Insn.var <$> required "op" Opcode.reader <*>
        required "slot" (Decoder.natOfBits 16)
    | "Type" => some <| record <| Insn.type <$> required "op" Opcode.reader <*>
        required "internal_name" Decoder.text
    | "Field" => some <| record <| Insn.field <$> required "op" Opcode.reader <*>
        required "owner" Decoder.text <*> required "name" Decoder.text <*>
        required "desc" Decoder.text
    | "Method" => some <| record <| Insn.method <$> required "op" Opcode.reader <*>
        required "owner" Decoder.text <*> required "name" Decoder.text <*>
        required "desc" Decoder.text <*> required "interface" Decoder.bool
    | "InvokeDynamic" => some <| record <| Insn.invokeDynamic <$>
        required "name" Decoder.text <*> required "desc" Decoder.text <*>
        required "bootstrap" Handle.reader <*> required "args" Loadable.reader.list
    | "Jump" => some <| record <| Insn.jump <$> required "op" Opcode.reader <*>
        required "target" Label.reader
    | "Ldc" => some (Loadable.reader.map .ldc)
    | "TableSwitch" => some <| record <| Insn.tableSwitch <$> required "min" Decoder.int32 <*>
        required "max" Decoder.int32 <*> required "default" Label.reader <*>
        required "labels" Label.reader.list
    | "LookupSwitch" => some <| record <| Insn.lookupSwitch <$> required "default" Label.reader <*>
        required "keys" Decoder.int32.list <*> required "labels" Label.reader.list
    | "MultiANewArray" => some <| record <| Insn.multiNewArray <$>
        required "desc" Decoder.text <*> required "dims" (Decoder.natOfBits 8)
    | "Label" => some (Label.reader.map .label)
    | "LineNumber" => some <| record <| Insn.lineNumber <$>
        required "line" (Decoder.natOfBits 32) <*> required "start" Label.reader
    | _ => none

/-- Reads an entry of an exception table. -/
def Guard.reader : Reader Guard :=
  record <| Guard.mk <$> required "start" Label.reader <*> required "end" Label.reader <*>
    required "handler" Label.reader <*> nullable "exception" Decoder.text

/-- Reads a 16-bit word. -/
def wordReader : Reader UInt16 :=
  (Decoder.natOfBits 16).map UInt16.ofNat

/-- Reads the code of a method. -/
def MethodCode.reader : Reader MethodCode :=
  record <| (fun insns guards stack locals => ⟨insns, guards, ⟨stack, locals⟩⟩) <$>
    required "insns" Insn.reader.list <*> required "try_catches" Guard.reader.list <*>
    required "max_stack" (Decoder.natOfBits 16) <*> required "max_locals" (Decoder.natOfBits 16)

/-- Reads the header of a class. -/
def ClassHeader.reader : Reader ClassHeader :=
  record <| ClassHeader.mk <$> required "version" wordReader <*> required "access" wordReader <*>
    required "name" Decoder.text <*> nullable "super_name" Decoder.text <*>
    required "interfaces" Decoder.text.list

/-- Reads a field. -/
def FieldDecl.reader : Reader FieldDecl :=
  record <| FieldDecl.mk <$> required "access" wordReader <*> required "name" Decoder.text <*>
    required "desc" Decoder.text <*> nullable "constant" Loadable.reader

/-- Reads the header of a method. -/
def MethodHeader.reader : Reader MethodHeader :=
  record <| MethodHeader.mk <$> required "access" wordReader <*> required "name" Decoder.text <*>
    required "desc" Decoder.text <*> required "exceptions" Decoder.text.list

/-- Reads a pair. -/
def pairReader {α β : Type} (first : Reader α) (second : Reader β) : Reader (α × β)
  | room + 1, .array [j, k] => do
    let x ← first room j
    let y ← second room k
    return (x, y)
  | _, _ => .error .shape

/-- Reads an annotation value of at most the given depth. -/
def ElementValue.readerTo : Nat → Reader ElementValue
  | 0 => fun _ _ => .error .shape
  | depth + 1 =>
    Decoder.choice (fun _ => none) fun
      | "Boolean" => some (Decoder.bool.map .boolean)
      | "Int" => some (Decoder.int32.map .int)
      | "Long" => some (Decoder.int64.map .long)
      | "Float" => some (Decoder.single.map .float)
      | "Double" => some (Decoder.double.map .double)
      | "Str" => some (Decoder.text.map .str)
      | "Enum" => some <| record <| ElementValue.enumConst <$>
          required "desc" Decoder.text <*> required "name" Decoder.text
      | "Class" => some (Decoder.text.map .classOf)
      | "Array" => some ((readerTo depth).list.map .array)
      | "Annotation" => some <| record <| ElementValue.nested <$>
          required "desc" Decoder.text <*>
          required "values" (pairReader Decoder.text (readerTo depth)).list
      | _ => none

/-- Reads an annotation value. Each level of it takes a container, so that the room for containers
bounds its depth. -/
def ElementValue.reader : Reader ElementValue :=
  fun room => ElementValue.readerTo (room + 1) room

/-- Reads a method. -/
def MethodImage.reader : Reader MethodImage :=
  record <| MethodImage.mk <$> required "header" MethodHeader.reader <*>
    nullable "code" MethodCode.reader <*>
    nullable "annotation_default" ElementValue.reader

/-- Reads a class. -/
def ClassImage.reader : Reader ClassImage :=
  record <| ClassImage.mk <$> required "header" ClassHeader.reader <*>
    required "fields" FieldDecl.reader.list <*> required "methods" MethodImage.reader.list

end BytecodeLowering.Machine
