import BytecodeLowering.Lowering.Layout
import BytecodeLowering.Lowering.Selection
import BytecodeLowering.Lowering.Slots

/-!
# Code for operands

* `Pending`: an object that was created and whose constructor was not called yet.
* `Progress`, `Lower`: what the lowering of a method keeps from one instruction to the next.
* `constantCode`: the instruction that pushes a constant, the shortest that there is.
* `loadLocal`, `storeLocal`, `loadOperand`: moving values between locals and the operand stack.
-/

namespace BytecodeLowering.Lowering

open Ir Machine

/-- An object whose constructor has not been called yet. -/
inductive Pending where
  /-- A new object, twice on the operand stack, that is to be assigned to a local. -/
  | allocation (target : Local)
  /-- The receiver of a constructor, on the operand stack. -/
  | receiver
  deriving DecidableEq, Repr

/-- What the lowering of a method keeps. -/
structure Progress where
  /-- The places of the locals. -/
  slots : Slots
  /-- The objects whose constructors have not been called yet, the latest first. -/
  pending : List Pending
  deriving Repr

/-- A step in the lowering of a method. -/
abbrev Lower (α : Type) := StateT Progress (Except LowerError) α

/-- A step on the places of the locals. -/
def onSlots {α : Type} (f : Slots → Lowered (α × Slots)) : Lower α :=
  fun p => (f p.slots).map fun (a, slots) => (a, { p with slots := slots })

/-- The place of a local. -/
def place (l : Local) : Lower Binding :=
  onSlots fun s => s.resolve l

/-- Moves a local to another place. -/
def rebind (l : Local) (b : Binding) : Lower Unit :=
  onSlots fun s => (s.bind l b).map fun s => ((), s)

/-- Pushes a 32-bit integer. -/
def intCode (v : Int32) : Insn :=
  match v.toInt with
  | -1 => .simple .iconstM1
  | 0 => .simple .iconst0
  | 1 => .simple .iconst1
  | 2 => .simple .iconst2
  | 3 => .simple .iconst3
  | 4 => .simple .iconst4
  | 5 => .simple .iconst5
  | n =>
    if Int8.minValue.toInt ≤ n ∧ n ≤ Int8.maxValue.toInt then .int .bipush v
    else if Int16.minValue.toInt ≤ n ∧ n ≤ Int16.maxValue.toInt then .int .sipush v
    else .ldc (.int v)

/-- Pushes a 64-bit integer. -/
def longCode (v : Int64) : Insn :=
  if v = 0 then .simple .lconst0 else if v = 1 then .simple .lconst1 else .ldc (.long v)

/-- Pushes a 32-bit floating-point value; the short instructions are for 0, 1 and 2. -/
def floatCode (v : Number.Single) : Insn :=
  if v.bits = 0 then .simple .fconst0
  else if v.bits = 0x3f800000 then .simple .fconst1
  else if v.bits = 0x40000000 then .simple .fconst2
  else .ldc (.float v)

/-- Pushes a 64-bit floating-point value; the short instructions are for 0 and 1. -/
def doubleCode (v : Number.Double) : Insn :=
  if v.bits = 0 then .simple .dconst0
  else if v.bits = 0x3ff0000000000000 then .simple .dconst1
  else .ldc (.double v)

/-- The 32-bit integer of a truth value. -/
def boolInt (b : Bool) : Int32 :=
  if b then 1 else 0

/-- Reads the class literal that a wrapper class keeps. -/
def wrapperLiteral (wrapper : String) : Insn :=
  .field .getstatic wrapper "TYPE" "Ljava/lang/Class;"

/-- Pushes the class literal of a type. -/
def classLiteralCode : Ty → Lowered Insn
  | .prim p => .ok (wrapperLiteral (wrapper p))
  | .void => .ok (wrapperLiteral "java/lang/Void")
  | .object n => .ok (.ldc (.type n.internalName))
  | .array base dims => (internalName (.array base dims)).map fun n => .ldc (.type n)
  | t => unsupported (.classLiteral t)

/-- Pushes a constant. -/
def constantCode : Constant → Lowered Insn
  | .int v => .ok (intCode v)
  | .boolean v => .ok (intCode (boolInt v))
  | .long v => .ok (longCode v)
  | .float v => .ok (floatCode v)
  | .double v => .ok (doubleCode v)
  | .string v => .ok (.ldc (.str v))
  | .classOf t => classLiteralCode t
  | .null => .ok (.simple .aconstNull)
  | .methodHandle h => (handle h).map fun h => .ldc (.handle h)
  | .methodType p => (methodDescriptor p).map fun d => .ldc (.methodType d)

/-- Moves a value between the operand stack and a place; on the stack it is in place already. -/
def moveCode (op : Lowered Opcode) : Binding → Lowered (List Insn)
  | .stack => .ok []
  | .slot n => op.map fun op => [.var op n]

/-- Pushes the value of a local. -/
def loadLocal (l : Local) : Lower (List Insn) := do
  moveCode (loadOp l.ty.category) (← place l)

/-- Pops a value into a local. -/
def storeLocal (l : Local) : Lower (List Insn) := do
  moveCode (storeOp l.ty.category) (← place l)

/-- Pushes an operand. -/
def loadOperand : Operand → Lower (List Insn)
  | .var l => loadLocal l
  | .const c => do return [← constantCode c]

/-- Pushes operands, the first one first. -/
def loadOperands (ops : List Operand) : Lower (List Insn) := do
  return (← ops.mapM loadOperand).flatten

end BytecodeLowering.Lowering
