import BytecodeLowering.Ir.Body
import BytecodeLowering.Proofs.Value
import Mathlib.Logic.Function.Basic

/-!
# Runs of three-address code

What the statements of a body do to the values of its locals, one after the other. Only integers are
computed with: everything else has no meaning here.

* `Operand.eval`, `BinOp.apply`, `Expr.eval`, `Condition.eval`: the values of operands, operations,
  expressions and conditions.
* `State`, `StmtKind.exec`, `Body.step`: the statement that comes next with the values of the
  locals, and what a statement does with them.
-/

namespace BytecodeLowering.Ir

/-- The values of the locals. -/
abbrev Env := Local → Value

/-- The value of an operand. -/
def Operand.eval (env : Env) : Operand → Result Value
  | var l => .done (env l)
  | const (.int v) => .done (.int v)
  | const (.long v) => .done (.long v)
  | const _ => .stuck

namespace BinOp

/-- An operation on 32-bit integers. -/
def int (op : BinOp) (a b : Int32) : Result Int32 :=
  match op with
  | add => .done (a + b)
  | sub => .done (a - b)
  | mul => .done (a * b)
  | div => divide a b
  | rem => remainder a b
  | and => .done (a &&& b)
  | or => .done (a ||| b)
  | xor => .done (a ^^^ b)
  | shl => .done (shiftLeft a b)
  | shr => .done (shiftRight a b)
  | ushr => .done (shiftRightZero a b)
  | cmp | cmpl | cmpg => .stuck

/-- An operation on 64-bit integers. -/
def long (op : BinOp) (a b : Int64) : Result Value :=
  match op with
  | add => .done (.long (a + b))
  | sub => .done (.long (a - b))
  | mul => .done (.long (a * b))
  | div => (divideLong a b).map .long
  | rem => (remainderLong a b).map .long
  | and => .done (.long (a &&& b))
  | or => .done (.long (a ||| b))
  | xor => .done (.long (a ^^^ b))
  | cmp => .done (.int (compareLong a b))
  | shl | shr | ushr | cmpl | cmpg => .stuck

/-- A shift of a 64-bit integer. -/
def shiftLong (op : BinOp) (a : Int64) (n : Int32) : Result Value :=
  match op with
  | shl => .done (.long (shiftLeftLong a n))
  | shr => .done (.long (shiftRightLong a n))
  | ushr => .done (.long (shiftRightZeroLong a n))
  | _ => .stuck

/-- The value of a binary operation. -/
def apply (op : BinOp) : Value → Value → Result Value
  | .int a, .int b => (op.int a b).map .int
  | .long a, .long b => op.long a b
  | .long a, .int n => op.shiftLong a n
  | .int _, .long _ => .stuck

end BinOp

/-- The negative of a value. -/
def negate : Value → Value
  | .int a => .int (-a)
  | .long a => .long (-a)

/-- A value as one of a type. -/
def convert (v : Value) (t : Ty) : Result Value :=
  match v, t with
  | .int a, .prim .int => .done (.int a)
  | .int a, .prim .long => .done (.long a.toInt64)
  | .long a, .prim .int => .done (.int a.toInt32)
  | .long a, .prim .long => .done (.long a)
  | _, _ => .stuck

/-- The value of an expression. -/
def Expr.eval (env : Env) : Expr → Result Value
  | operand op => op.eval env
  | binary op lhs rhs => (lhs.eval env).bind fun a => (rhs.eval env).bind fun b => op.apply a b
  | neg op => (op.eval env).map negate
  | cast op t => (op.eval env).bind fun a => convert a t
  | _ => .stuck

/-- Whether two numbers compare like this. -/
def CmpOp.holds : CmpOp → Int → Int → Bool
  | eq, a, b => a = b
  | ne, a, b => a ≠ b
  | lt, a, b => a < b
  | le, a, b => a ≤ b
  | gt, a, b => b < a
  | ge, a, b => b ≤ a

/-- Whether two values of one category compare like this. -/
def CmpOp.test (op : CmpOp) : Value → Value → Result Bool
  | .int a, .int b => .done (op.holds a.toInt b.toInt)
  | .long a, .long b => .done (op.holds a.toInt b.toInt)
  | _, _ => .stuck

/-- Whether a condition holds. -/
def Condition.eval (env : Env) (c : Condition) : Result Bool :=
  (c.lhs.eval env).bind fun a => (c.rhs.eval env).bind fun b => c.op.test a b

/-- A state of a run. -/
structure State where
  /-- The place of the statement that comes next. -/
  position : Nat
  /-- The values of the locals. -/
  env : Env

namespace State

/-- The start of a run: no local has been assigned, and each counts as zero. -/
def start : State :=
  ⟨0, fun l => .zero l.ty.category⟩

/-- Goes on with the next statement. -/
def next (s : State) : State :=
  { s with position := s.position + 1 }

/-- Assigns a value and goes on with the next statement. -/
def assign (s : State) (l : Local) (v : Value) : State :=
  ⟨s.position + 1, Function.update s.env l v⟩

/-- Goes on with the statement of the given number. -/
def goto (b : Body) (s : State) (t : StmtId) : Result State :=
  match b.position? t with
  | some position => .done { s with position := position }
  | none => .stuck

end State

/-- The target of a switch for a key: that of the first case with its value. -/
def switchTarget (values : List Int32) (targets : List StmtId) (default : StmtId) (key : Int32) :
    StmtId :=
  ((values.zip targets).lookup key).getD default

/-- What a statement does. An identity statement takes the argument of its parameter. -/
def StmtKind.exec (b : Body) (args : Nat → Value) (s : State) : StmtKind → Result State
  | assign (.var l) rhs => (rhs.eval s.env).map (s.assign l)
  | identity l (.parameter index _) => .done (s.assign l (args index))
  | branch cond target =>
    (cond.eval s.env).bind fun holds => if holds then s.goto b target else .done s.next
  | goto target => s.goto b target
  | switch key values targets default =>
    (key.eval s.env).bind fun
      | .int k => s.goto b (switchTarget values targets default k)
      | .long _ => .stuck
  | .return op => (op.eval s.env).bind fun v => .ends (.returned (some v))
  | returnVoid => .ends (.returned none)
  | nop => .done s.next
  | _ => .stuck

/-- A step of a run: the statement that comes next. -/
def Body.step (b : Body) (args : Nat → Value) (s : State) : Result State :=
  match b.stmts[s.position]? with
  | some stmt => stmt.kind.exec b args s
  | none => .stuck

end BytecodeLowering.Ir
