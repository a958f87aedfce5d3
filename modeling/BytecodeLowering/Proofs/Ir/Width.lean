import BytecodeLowering.Ir.Class

/-!
# Widths of values

Three-address code whose values have the width of the places that they go to.

* `Ty.Nameable`: the types of values that a descriptor can name.
* `Expr.width`, `Place.width`: the number of slots of a value.
* `Expr.Fits`, `Place.Fits`, `Invocation.Fits`: the operands have the widths that are asked for.
* `StmtKind.Fits`: so do the operands of a statement, and its value has the width of its place.
* `Body.Fits`, `Body.Catches`: so it is in a whole body, and exceptions are taken where handlers
  start.
-/

namespace BytecodeLowering.Ir

/-- A type of values whose descriptor, if it has one, is read as that type. No class name goes
beyond its semicolon, and arrays have dimensions. -/
def Ty.Nameable : Ty → Prop
  | .void => False
  | .object n => ';' ∉ n.text.toList
  | .array base dims => 1 ≤ dims ∧ base.Nameable
  | .prim _ | .null | .unknown => True

/-- Operands with the widths of the parameters, a receiver of one slot, and types that descriptors
can name. -/
structure Invocation.Fits (i : Invocation) : Prop where
  /-- There is an argument of the same width for each parameter. -/
  args : (i.args.map fun op => op.ty.width) = i.method.params.map Ty.width
  /-- The receiver is a reference or takes one slot like one. -/
  base : ∀ l, i.base? = some l → l.ty.width = 1
  /-- The parameters can be named. -/
  params : ∀ t ∈ i.method.params, t.Nameable
  /-- The result can be named, if there is one. -/
  ret : i.method.ret ≠ .void → i.method.ret.Nameable

/-- An object of one slot, and a type that a descriptor can name. -/
structure FieldRef.Fits (f : FieldRef) : Prop where
  /-- The object takes one slot. -/
  base : ∀ l, f.base? = some l → l.ty.width = 1
  /-- The type can be named. -/
  ty : f.field.ty.Nameable

/-- An array and an index of one slot each, and elements that are values. -/
structure ArrayRef.Fits (a : ArrayRef) : Prop where
  /-- The array takes one slot. -/
  base : a.base.ty.width = 1
  /-- The index takes one slot. -/
  index : a.index.ty.width = 1
  /-- The elements are values. -/
  element : a.base.ty.Nameable

/-- The number of slots of an array element. -/
def ArrayRef.width (a : ArrayRef) : Nat :=
  (a.component?.map Ty.width).getD 0

/-- Whether the result of an operator is an integer that tells how two values compare. -/
def BinOp.isComparison : BinOp → Bool
  | cmp | cmpl | cmpg => true
  | _ => false

namespace Expr

/-- The number of slots of the value of an expression. -/
def width : Expr → Nat
  | operand op | neg op => op.ty.width
  | binary op lhs _ => if op.isComparison then 1 else lhs.ty.width
  | cast _ t => t.width
  | instanceOf .. | new _ | newArray .. | newMultiArray .. | length _ => 1
  | invoke call => call.method.ret.width
  | field f => f.field.ty.width
  | element a => a.width
  | phi _ => 0

/-- An expression whose operands have the widths that are asked for, and that makes no new
object. -/
def Fits : Expr → Prop
  | binary op lhs rhs =>
    if op.isShift then rhs.ty.width = 1 else lhs.ty.category = rhs.ty.category
  | newArray _ size | length size => size.ty.width = 1
  | newMultiArray _ sizes => ∀ size ∈ sizes, size.ty.width = 1
  | invoke call => call.Fits
  | field f => f.Fits
  | element a => a.Fits
  | new _ => False
  | operand _ | neg _ | cast .. | instanceOf .. | phi _ => True

end Expr

namespace Place

/-- The number of slots of the value of a place. -/
def width : Place → Nat
  | var l => l.ty.width
  | field f => f.field.ty.width
  | element a => a.width

/-- A place whose operands have the widths that are asked for. -/
def Fits : Place → Prop
  | var _ => True
  | field f => f.Fits
  | element a => a.Fits

end Place

namespace StmtKind

/-- A statement of a method whose operands have the widths that are asked for, and whose value has
the width of the place that it goes to. -/
def Fits (m : Method) : StmtKind → Prop
  | assign lhs rhs => lhs.Fits ∧ rhs.Fits ∧ rhs.width = lhs.width
  | identity l (.parameter index _) => ∀ t, m.params[index]? = some t → l.ty.width = t.width
  | identity l .caughtException => l.ty.width = 1
  | invoke call => call.Fits
  | branch cond _ => cond.lhs.ty.category = cond.rhs.ty.category
  | switch key _ _ _ => key.ty.width = 1
  | .return op => op.ty.width = m.ret.width
  | throw op | enterMonitor op | exitMonitor op => op.ty.width = 1
  | identity _ .this | goto _ | returnVoid | nop | breakpoint => True

/-- The locals that a statement reads or writes. -/
def Mentions (k : StmtKind) (l : Local) : Prop :=
  l ∈ k.uses ∨ k.def? = some l

/-- Whether the statement takes the exception that a handler was entered with. -/
def isCatch : StmtKind → Bool
  | identity _ .caughtException => true
  | _ => false

end StmtKind

/-- A local that holds a value in slots of its own. -/
structure Local.Stored (l : Local) : Prop where
  /-- It does not stay on the operand stack. -/
  notStack : l.role ≠ .stackTemp
  /-- It is no other name for a caught exception. -/
  notHandler : l.role ≠ .handlerRef
  /-- It holds a value. -/
  notVoid : l.ty ≠ .void

/-- A body for a method whose statements have operands of the widths that are asked for, in locals
with slots of their own. -/
structure Body.Fits (m : Method) (b : Body) : Prop where
  /-- The statements fit. -/
  stmts : ∀ s ∈ b.stmts, s.kind.Fits m
  /-- The locals have slots of their own. -/
  locals : ∀ s ∈ b.stmts, ∀ l, s.kind.Mentions l → l.Stored

/-- A body whose exceptions are taken where handlers start, and nowhere else. -/
structure Body.Catches (b : Body) : Prop where
  /-- Every handler starts by taking the exception. -/
  handler : ∀ block ∈ b.flow.blocks, ∀ e ∈ block.catches, ∀ h, b.flow.block? e.handler = some h →
    ∃ s, h.head?.bind b.stmt? = some s ∧ s.kind.isCatch
  /-- An exception is taken only at the start of a block that control comes to in no other way. -/
  only : ∀ s ∈ b.stmts, s.kind.isCatch → ∃ k block, b.flow.blocks[k]? = some block ∧
    block.head? = some s.id ∧ k ≠ 0 ∧ ∀ other ∈ b.flow.blocks, ⟨k⟩ ∉ other.successors

end BytecodeLowering.Ir
