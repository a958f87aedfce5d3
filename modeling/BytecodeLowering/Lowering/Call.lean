import BytecodeLowering.Lowering.Operand

/-!
# Code for calls

* `takePending`: the object that a constructor call completes.
* `bootstrapArgument`: the constant that a bootstrap method is given for an operand.
* `lowerCall`: a call, which leaves its result on the operand stack.
-/

namespace BytecodeLowering.Lowering

open Ir Machine

/-- Whether a constructor call on a local completes an object: a new object that is to be assigned
to that local, or the receiver if the local stands for it. -/
def completes (slots : Slots) (base : Local) : Pending → Bool
  | .allocation target => target = base
  | .receiver => base.role = .receiver || slots.binding? base = some (.slot 0)

/-- The latest object that a call completes, if it is a constructor call. -/
def takePending (base : Local) (m : MethodSignature) : Lower (Option Pending) := do
  if !m.isConstructor then return none
  let p ← get
  -- The object pushed last stands first, so of several that fit the innermost is completed.
  let done := p.pending.find? (completes p.slots base)
  set { p with pending := p.pending.eraseP (completes p.slots base) }
  return done

/-- The instruction that calls a method. -/
def callInsn (op : Opcode) (m : MethodSignature) (interface : Bool) : Lowered Insn :=
  (methodName m).map fun n => .method op n.owner n.name n.desc interface

/-- The constant that a bootstrap method is given for a constant operand. -/
def bootstrapConstant : Constant → Lowered Loadable
  | .int v => .ok (.int v)
  | .long v => .ok (.long v)
  | .float v => .ok (.float v)
  | .double v => .ok (.double v)
  | .string v => .ok (.str v)
  | .classOf t => (descriptor t).map .type
  | .methodType p => (methodDescriptor p).map .methodType
  | .methodHandle h => (handle h).map .handle
  | c => unsupported (.constantArgument c)

/-- The constant that a bootstrap method is given for an operand: for a local the number of its
slot. -/
def bootstrapArgument : Operand → Lower Loadable
  | .const c => bootstrapConstant c
  | .var l => do
    match ← place l with
    | .slot n => return .int (Int32.ofNat n)
    | .stack => unsupported (.stackArgument l)

/-- A call on a receiver. -/
def callOn (op : Opcode) (base : Local) (m : MethodSignature) (args : List Operand)
    (interface : Bool) : Lower (List Insn) := do
  let receiver ← loadLocal base
  let args ← loadOperands args
  return receiver ++ args ++ [← callInsn op m interface]

/-- A call. A constructor call finds the object that it completes on the operand stack. If that is a
new object, it is assigned to its local then. -/
def lowerCall : Invocation → Lower (List Insn)
  | .static m args => do
    let args ← loadOperands args
    return args ++ [← callInsn .invokestatic m false]
  | .special base m args => do
    match ← takePending base m with
    | none => callOn .invokespecial base m args false
    | some done =>
      let args ← loadOperands args
      let call ← callInsn .invokespecial m false
      match done with
      | .allocation target => return args ++ [call] ++ (← storeLocal target)
      | .receiver => return args ++ [call]
  | .virtual base m args => callOn .invokevirtual base m args false
  | .interface base m args => callOn .invokeinterface base m args true
  | .dynamic bootstrap bootstrapArgs m args => do
    let args ← loadOperands args
    let handle ← bootstrapHandle bootstrap
    let constants ← bootstrapArgs.mapM bootstrapArgument
    let desc ← methodDescriptor m.proto
    return args ++ [.invokeDynamic m.name desc handle constants]

end BytecodeLowering.Lowering
