import BytecodeLowering.Lowering.Call

/-!
# Code for expressions

* `operatorCategory`: the category that the operands of a binary operator are taken to have.
* `lowerExpr`: an expression, which leaves its value on the operand stack.
-/

namespace BytecodeLowering.Lowering

open Ir Machine

/-- The category of a type that tells something about a value. -/
def knownCategory? : Ty → Option Category
  | .null | .unknown => none
  | t => some t.category

/-- The category of the operands of an operator: that of the first one if it is known, then that of
the second one, then that of integers. A shift goes by its first operand only. -/
def operatorCategory (op : BinOp) (lhs rhs : Ty) : Category :=
  match knownCategory? lhs with
  | some c => c
  | none => if op.isShift then .int else (knownCategory? rhs).getD .int

/-- Converts the value on the operand stack. References convert to reference types, and primitive
values to primitive types. -/
def castCode (source target : Ty) : Lowered (List Insn) :=
  match source, target with
  | .prim p, .prim q => .ok ((conversion p q).map .simple)
  | _, _ => unsupported (.cast source target)

/-- A conversion. -/
def lowerCast (op : Operand) (target : Ty) : Lower (List Insn) := do
  let source := op.ty
  if target.isReference then
    if source.prim?.isSome then unsupported (.cast source target)
    let value ← loadOperand op
    return value ++ [.type .checkcast (← internalName target)]
  else
    let convert ← castCode source target
    return (← loadOperand op) ++ convert

/-- The instruction that makes an array. -/
def newArrayInsn : Ty → Lowered Insn
  | .prim p => .ok (.int .newarray (Int32.ofNat (arrayKind p).code))
  | t => (internalName t).map (.type .anewarray)

/-- A new array. -/
def lowerNewArray (element : Ty) (size : Operand) : Lower (List Insn) := do
  let size ← loadOperand size
  return size ++ [← newArrayInsn element]

/-- The instruction that accesses a field. -/
def fieldInsn (op : Opcode) (n : MemberName) : Insn :=
  .field op n.owner n.name n.desc

/-- Pushes the object of a field access, if there is one. -/
def loadBase (f : FieldRef) : Lower (List Insn) :=
  match f.base? with
  | some base => loadLocal base
  | none => return []

/-- The read of a field. -/
def lowerField (f : FieldRef) : Lower (List Insn) := do
  let n ← fieldName f.field
  return (← loadBase f) ++ [fieldInsn (getOp f) n]

/-- The type of the elements of an array access. -/
def elementOf (a : ArrayRef) : Lowered Ty :=
  match a.component? with
  | some t => .ok t
  | none => unsupported (.notAnArray a.base)

/-- Pushes the array and the index of an array access. -/
def loadElementPlace (a : ArrayRef) : Lower (List Insn) := do
  let base ← loadLocal a.base
  return base ++ (← loadOperand a.index)

/-- Pushes the object that a type test is about. -/
def loadTested (op : Operand) : Lower (List Insn) := do
  match ← onSlots fun s => s.resolveOperand op with
  | .slot n => return [.var .aload n]
  | .stack => return []

/-- An expression. -/
def lowerExpr : Expr → Lower (List Insn)
  | .operand op => loadOperand op
  | .binary op lhs rhs => do
    let left ← loadOperand lhs
    let right ← loadOperand rhs
    return left ++ right ++ [.simple (← binaryOp op (operatorCategory op lhs.ty rhs.ty))]
  | .neg op => do
    let value ← loadOperand op
    return value ++ [.simple (← negOp op.ty.category)]
  | .cast op target => lowerCast op target
  | .instanceOf op check => do
    let object ← loadTested op
    return object ++ [.type .instanceof (← internalName check)]
  | .new n => unsupported (.strayNew n)
  | .newArray element size => lowerNewArray element size
  | .newMultiArray t sizes => do
    if sizes.isEmpty ∨ 255 < sizes.length then unsupported (.dimensions sizes.length)
    let code ← loadOperands sizes
    return code ++ [.multiNewArray (← descriptor t) sizes.length]
  | .length op => do return (← loadOperand op) ++ [.simple .arraylength]
  | .invoke call => lowerCall call
  | .field f => lowerField f
  | .element a => do
    let element ← elementOf a
    return (← loadElementPlace a) ++ [.simple (arrayLoadOp element)]
  | .phi _ => unsupported .phi

end BytecodeLowering.Lowering
