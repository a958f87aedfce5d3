import BytecodeLowering.Lowering.Expr

/-!
# Code for statements

* `MethodContext`: what the statements of a method are lowered in view of.
* `assignLocal`, `lowerAssign`, `lowerIdentity`: statements that assign.
* `lowerBranch`, `lowerGoto`, `lowerSwitch`: statements that branch.
* `lowerStmt`: any statement.
-/

namespace BytecodeLowering.Lowering

open Ir Machine

/-- What the statements of a method are lowered in view of. -/
structure MethodContext where
  /-- The method. -/
  method : Method
  /-- Its body. -/
  body : Body
  /-- The layout of the body. -/
  layout : Layout
  /-- The labels of its blocks. -/
  labels : Labels

/-- Copies a local. A name for a caught exception moves to the place of the value instead, and
nothing is done if both are in one slot. -/
def copyLocal (target source : Local) : Lower (List Insn) := do
  if target = source then return []
  let origin ← place source
  if target.role = .handlerRef then
    rebind target origin
    return []
  let destination ← place target
  if origin ≠ .stack ∧ origin = destination then return []
  let load ← loadLocal source
  return load ++ (← storeLocal target)

/-- Assigns the value of an expression to a local. -/
def assignValue (target : Local) (rhs : Expr) : Lower (List Insn) := do
  let value ← lowerExpr rhs
  return value ++ (← storeLocal target)

/-- Assigns to a local. A new object stays on the operand stack until its constructor is called. A
new array of primitive values is kept there twice if its local lives there. -/
def assignLocal (isStatic : Bool) (target : Local) (rhs : Expr) : Lower (List Insn) :=
  match rhs with
  | .operand (.var source) => copyLocal target source
  | .cast (.var source) _ =>
    -- A cast of a caught exception is another name for it: no check is put down.
    if target.role = .handlerRef then do
      rebind target (← place source)
      return []
    else assignValue target rhs
  | .new n => do
    modify fun p => { p with pending := .allocation target :: p.pending }
    return [.type .new n.internalName, .simple .dup]
  | .newArray element size => do
    let array ← lowerNewArray element size
    if element.prim?.isSome then
      match ← place target with
      | .stack => return array ++ [.simple .dup] ++ (← storeLocal target)
      | .slot _ => return array ++ (← storeLocal target)
    else return array ++ (← storeLocal target)
  | .invoke call => do
    if call.method.ret = .void then inconsistent (.voidResult call.method target)
    assignValue target rhs
  | .field (.ofObject _ _) => do
    if isStatic then
      -- The target takes its place before the object is loaded: an object that has none yet comes
      -- behind it.
      let _ ← onSlots fun s => s.resolveDeclared target
    assignValue target rhs
  | _ => assignValue target rhs

/-- The operand that an expression is, if it is one. -/
def asOperand (rhs : Expr) (e : String → Unsupported) : Lowered Operand :=
  match rhs with
  | .operand op => .ok op
  | rhs => unsupported (e rhs.kindName)

/-- An assignment. Only operands can be assigned to fields and array elements. -/
def lowerAssign (isStatic : Bool) (lhs : Place) (rhs : Expr) : Lower (List Insn) :=
  match lhs with
  | .var l => assignLocal isStatic l rhs
  | .field f => do
    let value ← asOperand rhs .fieldStore
    let n ← fieldName f.field
    let base ← loadBase f
    let value ← loadOperand value
    return base ++ value ++ [fieldInsn (putOp f) n]
  | .element a => do
    let value ← asOperand rhs .arrayStore
    let element ← elementOf a
    let place ← loadElementPlace a
    let value ← loadOperand value
    return place ++ value ++ [.simple (arrayStoreOp element)]

/-- Binds a local to a parameter. Nothing is done if the local is not read or lives in the slot of
the parameter. -/
def lowerParameter (m : Method) (b : Body) (l : Local) (index : Nat) : Lower (List Insn) := do
  match (← get).slots.param? index, m.params[index]? with
  | some slot, some t =>
    if !b.usesLocal l then return []
    let binding ← place l
    if binding = .slot slot then return []
    let load ← loadOp t.category
    let store ← moveCode (storeOp l.ty.category) binding
    return .var load slot :: store
  | _, _ => inconsistent (.noParameter index m.params.length)

/-- Binds a local to what the method or the handler was entered with. A constructor keeps its
receiver on the operand stack for the call of another constructor. -/
def lowerIdentity (m : Method) (b : Body) (l : Local) : Source → Lower (List Insn)
  | .this => do
    if m.isStatic || !m.isConstructor then return []
    modify fun p => { p with pending := .receiver :: p.pending }
    return [.var .aload 0]
  | .parameter index _ => lowerParameter m b l index
  | .caughtException => storeLocal l

/-- The label of the block of a branch target. -/
def targetLabel (c : MethodContext) (s : StmtId) : Lowered Label := do
  let b ← blockOf c.body.flow s
  match c.labels.get? b with
  | some l => return l
  | none => inconsistent (.unlabelledTarget s)

/-- Branches by the comparison of the two values on the operand stack. -/
def branchCode (op : CmpOp) (lhs rhs : Ty) (target : Label) : Lowered (List Insn) :=
  if lhs.isReference || rhs.isReference then
    (ifReferenceOp op).map fun jump => [.jump jump target]
  else
    match compareOp? op lhs.category with
    | some compare => .ok [.simple compare, .jump (ifZeroOp op) target]
    | none =>
      if lhs.category = .int then .ok [.jump (ifIntOp op) target]
      else unsupported (.comparison op lhs.category)

/-- A conditional branch. -/
def lowerBranch (c : MethodContext) (cond : Condition) (target : StmtId) : Lower (List Insn) := do
  let label ← targetLabel c target
  let left ← loadOperand cond.lhs
  let right ← loadOperand cond.rhs
  return left ++ right ++ (← branchCode cond.op cond.lhs.ty cond.rhs.ty label)

/-- Leaves a method with the given operand, or without a value. -/
def lowerReturn (m : Method) : Option Operand → Lower (List Insn)
  | none => return [.simple .return]
  | some op => do
    if m.ret = .void then inconsistent .valueFromVoid
    return (← loadOperand op) ++ [.simple (returnOp m.ret.category)]

/-- A branch that is always taken. A return without a label is put in place of the branch to it. -/
def lowerGoto (c : MethodContext) (target : StmtId) : Lower (List Insn) := do
  let b ← blockOf c.body.flow target
  match c.labels.get? b with
  | some l => return [.jump .goto l]
  | none =>
    match (c.body.stmt? target).map Stmt.kind with
    | some (.return op) => lowerReturn c.method (some op)
    | some .returnVoid => lowerReturn c.method none
    | _ => inconsistent (.unlabelledGoto target)

/-- The first value of an ascending list that stands in it twice. -/
def firstTwin? : List Int32 → Option Int32
  | a :: b :: rest => if a = b then some a else firstTwin? (b :: rest)
  | _ => none

/-- Whether each value of a list is one more than the value before it. -/
def consecutive : List Int32 → Bool
  | a :: b :: rest => b.toInt = a.toInt + 1 && consecutive (b :: rest)
  | _ => true

/-- The instruction for a switch with the given cases in ascending order: a table if they have no
gaps. -/
def switchInsn (cases : List (Int32 × Label)) (default : Label) : Insn :=
  let keys := cases.map Prod.fst
  let labels := cases.map Prod.snd
  match keys.head?, keys.getLast? with
  | some min, some max =>
    if consecutive keys then .tableSwitch min max default labels
    else .lookupSwitch default keys labels
  | _, _ => .lookupSwitch default keys labels

/-- A branch by a key. -/
def lowerSwitch (c : MethodContext) (key : Operand) (values : List Int32) (targets : List StmtId)
    (default : StmtId) : Lower (List Insn) := do
  let default ← targetLabel c default
  let cases ← (values.zip targets).mapM fun (v, s) => (targetLabel c s).map fun l => (v, l)
  -- Both switch instructions need ascending keys, and sorting brings twins side by side.
  let cases := cases.mergeSort fun a b => a.1.toInt ≤ b.1.toInt
  if let some v := firstTwin? (cases.map Prod.fst) then inconsistent (.repeatedCase v)
  return (← loadOperand key) ++ [switchInsn cases default]

/-- An operation on one operand that leaves nothing. -/
def consume (op : Operand) (code : Opcode) : Lower (List Insn) := do
  return (← loadOperand op) ++ [.simple code]

/-- A statement. -/
def lowerStmt (c : MethodContext) : StmtKind → Lower (List Insn)
  | .assign lhs rhs => lowerAssign c.method.isStatic lhs rhs
  | .identity l rhs => lowerIdentity c.method c.body l rhs
  | .invoke call => do
    let code ← lowerCall call
    return code ++ ((popOp call.method.ret.width).map Insn.simple).toList
  | .branch cond target => lowerBranch c cond target
  | .goto target => lowerGoto c target
  | .switch key values targets default => lowerSwitch c key values targets default
  | .return op => lowerReturn c.method (some op)
  | .returnVoid => lowerReturn c.method none
  | .throw op => consume op .athrow
  | .enterMonitor op => consume op .monitorenter
  | .exitMonitor op => consume op .monitorexit
  | .nop => return [.simple .nop]
  | .breakpoint => unsupported .breakpoint

end BytecodeLowering.Lowering
