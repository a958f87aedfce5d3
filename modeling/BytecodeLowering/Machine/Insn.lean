import BytecodeLowering.Machine.Opcode
import BytecodeLowering.Number.Decimal
import BytecodeLowering.Text.Quoted

/-!
# Instructions

The instruction lists that methods are assembled from.

* `Label`: a place that control can go to, bound by an instruction of its own.
* `ArrayKind`, `HandleTag`, `Handle`, `Loadable`: operands of instructions.
* `Insn`: an instruction, with `Insn.targets`, the labels that it may transfer control to, and
  `Insn.render`, its text in a listing.
* `slotEnd`: where a local variable ends.
* `Guard`: an entry of the exception table.
-/

namespace BytecodeLowering.Machine

/-- A place in a method. -/
structure Label where
  /-- Its number. -/
  id : Nat
  deriving DecidableEq, Repr, Inhabited

/-- The text of a label. -/
def Label.render (l : Label) : String :=
  "L" ++ toString l.id

/-- The element type of a new array of primitive values. -/
inductive ArrayKind where
  | boolean
  | char
  | float
  | double
  | byte
  | short
  | int
  | long
  deriving DecidableEq, Repr

namespace ArrayKind

/-- All element types, in the order of their codes. -/
def all : List ArrayKind :=
  [boolean, char, float, double, byte, short, int, long]

/-- The code by which an instruction names the element type. -/
def code : ArrayKind → Nat
  | boolean => 4
  | char => 5
  | float => 6
  | double => 7
  | byte => 8
  | short => 9
  | int => 10
  | long => 11

/-- The name of the element type. -/
def name : ArrayKind → String
  | boolean => "boolean"
  | char => "char"
  | float => "float"
  | double => "double"
  | byte => "byte"
  | short => "short"
  | int => "int"
  | long => "long"

/-- The element type with the given code. -/
def ofCode? (code : Int) : Option ArrayKind :=
  all.find? fun k => (k.code : Int) = code

end ArrayKind

/-- What a method handle does with its target. -/
inductive HandleTag where
  | getField
  | getStatic
  | putField
  | putStatic
  | invokeVirtual
  | invokeStatic
  | invokeSpecial
  | newInvokeSpecial
  | invokeInterface
  deriving DecidableEq, Repr

namespace HandleTag

/-- All tags, in the order of their codes. -/
def all : List HandleTag :=
  [getField, getStatic, putField, putStatic, invokeVirtual, invokeStatic, invokeSpecial,
    newInvokeSpecial, invokeInterface]

/-- The code of the tag. -/
def code : HandleTag → Nat
  | getField => 1
  | getStatic => 2
  | putField => 3
  | putStatic => 4
  | invokeVirtual => 5
  | invokeStatic => 6
  | invokeSpecial => 7
  | newInvokeSpecial => 8
  | invokeInterface => 9

/-- The word by which the tag is named in JSON. -/
def keyword : HandleTag → String
  | getField => "GetField"
  | getStatic => "GetStatic"
  | putField => "PutField"
  | putStatic => "PutStatic"
  | invokeVirtual => "InvokeVirtual"
  | invokeStatic => "InvokeStatic"
  | invokeSpecial => "InvokeSpecial"
  | newInvokeSpecial => "NewInvokeSpecial"
  | invokeInterface => "InvokeInterface"

end HandleTag

/-- A method handle. -/
structure Handle where
  /-- What it does. -/
  tag : HandleTag
  /-- The class of its target. -/
  owner : String
  /-- The name of its target. -/
  name : String
  /-- The descriptor of its target. -/
  desc : String
  /-- Whether the class of its target is an interface. -/
  interface : Bool
  deriving DecidableEq, Repr

/-- The text of a handle. -/
def Handle.render (h : Handle) : String :=
  toString h.tag.code ++ ":" ++ h.owner ++ "." ++ h.name ++ h.desc

/-- A constant that an instruction can load or a bootstrap method can be given. -/
inductive Loadable where
  /-- A 32-bit integer. -/
  | int (value : Int32)
  /-- A 64-bit integer. -/
  | long (value : Int64)
  /-- A 32-bit floating-point value. -/
  | float (value : Number.Single)
  /-- A 64-bit floating-point value. -/
  | double (value : Number.Double)
  /-- A string. -/
  | str (value : String)
  /-- A class literal, by the internal name or the descriptor of its type. -/
  | type (name : String)
  /-- A method type, by its descriptor. -/
  | methodType (desc : String)
  /-- A method handle. -/
  | handle (h : Handle)
  deriving DecidableEq, Repr

/-- The text of a 32-bit floating-point constant. -/
def renderSingle (x : Number.Single) : String :=
  Number.exact x.parts ++ "F"

/-- The text of a 64-bit floating-point constant. -/
def renderDouble (x : Number.Double) : String :=
  Number.exact x.parts ++ "D"

namespace Loadable

/-- The number of slots of the constant on the operand stack. -/
def width : Loadable → Nat
  | long _ | double _ => 2
  | int _ | float _ | str _ | type _ | methodType _ | handle _ => 1

/-- The text of a constant. -/
def render : Loadable → String
  | int v => toString v.toInt
  | long v => toString v.toInt ++ "L"
  | float v => renderSingle v
  | double v => renderDouble v
  | str v => Text.quoted v
  | type n => n
  | methodType d => d
  | handle h => h.render

end Loadable

/-- One entry of an instruction list. Labels and line numbers take no room in code. -/
inductive Insn where
  /-- An operation without operands. -/
  | simple (op : Opcode)
  /-- An operation with a number: a small integer, or the element type of a new array. -/
  | int (op : Opcode) (operand : Int32)
  /-- An operation on a local variable. -/
  | var (op : Opcode) (slot : Nat)
  /-- An operation with a type. -/
  | type (op : Opcode) (name : String)
  /-- An access to a field. -/
  | field (op : Opcode) (owner name desc : String)
  /-- A call of a method. -/
  | method (op : Opcode) (owner name desc : String) (interface : Bool)
  /-- A call of a call site that is linked by a bootstrap method. -/
  | invokeDynamic (name desc : String) (bootstrap : Handle) (args : List Loadable)
  /-- A jump. -/
  | jump (op : Opcode) (target : Label)
  /-- The load of a constant. -/
  | ldc (constant : Loadable)
  /-- A branch by a table of consecutive keys. -/
  | tableSwitch (min max : Int32) (default : Label) (labels : List Label)
  /-- A branch by a list of keys. -/
  | lookupSwitch (default : Label) (keys : List Int32) (labels : List Label)
  /-- A new array of several dimensions. -/
  | multiNewArray (desc : String) (dims : Nat)
  /-- The binding of a label to this place. -/
  | label (l : Label)
  /-- The source line of the code from a label on. -/
  | lineNumber (line : Nat) (start : Label)
  deriving DecidableEq, Repr

namespace Insn

/-- The operation of an instruction, if it has one. -/
def opcode? : Insn → Option Opcode
  | simple op | int op _ | var op _ | type op _ | field op .. | method op .. | jump op _ => some op
  | invokeDynamic .. => some .invokedynamic
  | ldc _ => some .ldc
  | tableSwitch .. => some .tableswitch
  | lookupSwitch .. => some .lookupswitch
  | multiNewArray .. => some .multianewarray
  | label _ | lineNumber .. => none

/-- The labels that an instruction may transfer control to; the default of a switch comes last. -/
def targets : Insn → List Label
  | jump _ target => [target]
  | tableSwitch _ _ default labels | lookupSwitch default _ labels => labels ++ [default]
  | _ => []

/-- Whether control never goes on with the next instruction. -/
def endsFlow (i : Insn) : Bool :=
  i.opcode?.any Opcode.endsFlow

/-- The label that the instruction binds, if it does. -/
def bound? : Insn → Option Label
  | label l => some l
  | _ => none

/-- Labels with commas between them. -/
def renderLabels (ls : List Label) : String :=
  String.intercalate ", " (ls.map Label.render)

/-- The text of an instruction in a listing. -/
def render : Insn → String
  | simple op => op.mnemonic
  | int .newarray operand =>
    match ArrayKind.ofCode? operand.toInt with
    | some k => "newarray " ++ k.name
    | none => "newarray ?" ++ toString operand.toInt
  | int op operand => op.mnemonic ++ " " ++ toString operand.toInt
  | var op slot => op.mnemonic ++ " " ++ toString slot
  | type op name => op.mnemonic ++ " " ++ name
  | field op owner name desc => op.mnemonic ++ " " ++ owner ++ "." ++ name ++ " " ++ desc
  | method op owner name desc _ => op.mnemonic ++ " " ++ owner ++ "." ++ name ++ desc
  | invokeDynamic name desc bootstrap args =>
    "invokedynamic " ++ name ++ desc ++ " " ++ bootstrap.render ++ " [" ++
      String.intercalate ", " (args.map Loadable.render) ++ "]"
  | jump op target => op.mnemonic ++ " " ++ target.render
  | ldc c => "ldc " ++ c.render
  | tableSwitch min max default labels =>
    "tableswitch " ++ toString min.toInt ++ ".." ++ toString max.toInt ++ " [" ++
      renderLabels labels ++ "] default " ++ default.render
  | lookupSwitch default keys labels =>
    let pair (k : Int32) (l : Label) := toString k.toInt ++ ": " ++ l.render
    "lookupswitch [" ++ String.intercalate ", " (List.zipWith pair keys labels) ++ "] default " ++
      default.render
  | multiNewArray desc dims => "multianewarray " ++ desc ++ " " ++ toString dims
  | label l => l.render ++ ":"
  | lineNumber line start => "line " ++ toString line ++ " " ++ start.render

end Insn

/-- The slot behind a local variable. Slots are words of 16 bits, and so is the sum: one that does
not fit starts over from zero. -/
def slotEnd (slot width : Nat) : Nat :=
  (UInt16.ofNat slot + UInt16.ofNat width).toNat

theorem slotEnd_eq_mod (slot width : Nat) : slotEnd slot width = (slot + width) % UInt16.size := by
  simp [slotEnd, UInt16.toNat_add]

theorem slotEnd_le (slot width : Nat) : slotEnd slot width ≤ slot + width :=
  slotEnd_eq_mod slot width ▸ Nat.mod_le _ _

/-- A sum that fits is the sum. -/
theorem slotEnd_of_lt {slot width : Nat} (h : slot + width < UInt16.size) :
    slotEnd slot width = slot + width := by
  rw [slotEnd_eq_mod, Nat.mod_eq_of_lt h]

/-- An entry of the exception table. -/
structure Guard where
  /-- Where the guarded code starts. -/
  start : Label
  /-- Where it stops, exclusively. -/
  stop : Label
  /-- The code that handles the exception. -/
  handler : Label
  /-- The class of the exceptions that are caught, by its internal name; all if there is none. -/
  exception : Option String
  deriving DecidableEq, Repr

/-- The labels of an entry. -/
def Guard.labels (g : Guard) : List Label :=
  [g.start, g.stop, g.handler]

/-- The text of an entry in a listing. -/
def Guard.render (g : Guard) : String :=
  g.start.render ++ " " ++ g.stop.render ++ " " ++ g.handler.render ++ " " ++ g.exception.getD "any"

end BytecodeLowering.Machine
