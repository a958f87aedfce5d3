import BytecodeLowering.Ir.Class
import BytecodeLowering.Machine.Depth

/-!
# Lowering errors

Why a class, a method or a statement has no code.

* `Unsupported`: it uses something that there is no code for.
* `Inconsistency`: its parts do not fit together.
* `SlotError`: a local variable has no place.
* `LowerError`: any of these, or code that cannot run, with the method and the statement that it
  happened in. `LowerError.root` strips these.
-/

namespace BytecodeLowering.Lowering

open Ir Machine

/-- Something that there is no code for. -/
inductive Unsupported where
  /-- A type that has no descriptor. -/
  | noDescriptor (t : Ty)
  /-- A type that is neither a class nor an array. -/
  | notNominal (t : Ty)
  /-- A load of a value that is none. -/
  | voidLoad
  /-- A store of a value that is none. -/
  | voidStore
  /-- An operator on operands of the wrong category. -/
  | operator (op : BinOp) (c : Category)
  /-- A negation of an operand of the wrong category. -/
  | negation (c : Category)
  /-- A comparison of operands of the wrong category. -/
  | comparison (op : CmpOp) (c : Category)
  /-- A comparison of references that asks for an order. -/
  | referenceOrder (op : CmpOp)
  /-- The store of an expression of the named kind into a field. -/
  | fieldStore (kind : String)
  /-- The store of an expression of the named kind into an array. -/
  | arrayStore (kind : String)
  /-- An element of something that is no array. -/
  | notAnArray (base : Local)
  /-- A conversion between types that have none. -/
  | cast (source target : Ty)
  /-- A new object that is not assigned to a local. -/
  | strayNew (name : ClassName)
  /-- A new array with a number of sizes that is not between 1 and 255. -/
  | dimensions (count : Nat)
  /-- A merge of values. -/
  | phi
  /-- The class literal of a type that has none. -/
  | classLiteral (t : Ty)
  /-- A stop in a debugger. -/
  | breakpoint
  /-- A bootstrap argument that lives on the operand stack. -/
  | stackArgument (l : Local)
  /-- A bootstrap argument of the wrong kind. -/
  | constantArgument (c : Constant)
  /-- A field constant of the wrong kind. -/
  | fieldConstant (c : Constant)
  /-- A constant of the wrong kind in an annotation. -/
  | annotationConstant (c : Constant)
  deriving DecidableEq, Repr

namespace Unsupported

/-- Text between back quotes. -/
def quote (s : String) : String :=
  "`" ++ s ++ "`"

/-- The kind of thing that is not supported. -/
def kind : Unsupported → String
  | noDescriptor _ | notNominal _ | voidLoad | voidStore => "type"
  | operator .. | negation _ => "operator"
  | comparison .. | referenceOrder _ => "comparison"
  | fieldStore _ => "field store of"
  | arrayStore _ => "array store of"
  | notAnArray _ => "array access"
  | cast .. => "cast"
  | strayNew _ | dimensions _ | phi => "expression"
  | classLiteral _ => "constant"
  | breakpoint => "statement"
  | stackArgument _ | constantArgument _ => "bootstrap argument"
  | fieldConstant _ => "field constant"
  | annotationConstant _ => "annotation value"

/-- What is not supported about it. -/
def detail : Unsupported → String
  | noDescriptor t => quote t.render ++ " has no descriptor"
  | notNominal t => quote t.render ++ " is not a class or array type"
  | voidLoad => "load of a void value"
  | voidStore => "store of a void value"
  | operator op c => quote op.symbol ++ " on " ++ c.name ++ " operands"
  | negation c => "negation of " ++ c.name ++ " operand"
  | comparison op c => quote op.symbol ++ " on " ++ c.name ++ " operands"
  | referenceOrder op => quote op.symbol ++ " on references"
  | fieldStore kind | arrayStore kind => kind
  | notAnArray base => "base " ++ base.render ++ " has non-array type " ++ quote base.ty.render
  | cast source target => quote source.render ++ " to " ++ quote target.render
  | strayNew name => "new " ++ name.text ++ " outside a local assignment"
  | dimensions count => "multi-array with " ++ toString count ++ " dimensions"
  | phi => "phi"
  | classLiteral t => "class literal of " ++ quote t.render
  | breakpoint => "breakpoint"
  | stackArgument l => "stack-resident local " ++ l.render
  | constantArgument c => c.kindName ++ " constant"
  | fieldConstant c | annotationConstant c => c.kindName

/-- The wording of an unsupported construct. -/
def message (u : Unsupported) : String :=
  "unsupported " ++ u.kind ++ ": " ++ u.detail

end Unsupported

/-- How the parts of a method do not fit together. -/
inductive Inconsistency where
  /-- The method has no body. -/
  | noBody
  /-- A block has no statements. -/
  | emptyBlock (b : BlockId)
  /-- A block lists a statement that does not exist. -/
  | undefinedStmt (b : BlockId) (s : StmtId)
  /-- A statement is listed by no block. -/
  | strayStmt (s : StmtId)
  /-- A block has a handler that does not exist. -/
  | undefinedHandler (b handler : BlockId)
  /-- A block has a successor that does not exist. -/
  | undefinedSuccessor (b next : BlockId)
  /-- A statement that is named is in no block. -/
  | outsideFlow (s : StmtId)
  /-- A switch has more or fewer values than targets. -/
  | switchLength (s : StmtId) (values targets : Nat)
  /-- A switch has two cases for one value. -/
  | repeatedCase (value : Int32)
  /-- A block that control jumps to has no label. -/
  | unlabelled (b : BlockId)
  /-- The end of the method has no label. -/
  | unlabelledEnd
  /-- The block of a branch target has no label. -/
  | unlabelledTarget (s : StmtId)
  /-- The block of a goto target has no label. -/
  | unlabelledGoto (s : StmtId)
  /-- A block does not exist. -/
  | unknownBlock (b : BlockId)
  /-- A statement does not exist. -/
  | unknownStmt (s : StmtId)
  /-- A value is returned from a method without a result. -/
  | valueFromVoid
  /-- The result of a method without one is assigned. -/
  | voidResult (method : MethodSignature) (l : Local)
  /-- A parameter is named that the method does not have. -/
  | noParameter (index count : Nat)
  deriving DecidableEq, Repr

/-- The wording of an inconsistency. -/
def Inconsistency.message : Inconsistency → String
  | noBody => "method has no body"
  | emptyBlock b => "block " ++ b.render ++ " is empty"
  | undefinedStmt b s => "block " ++ b.render ++ " names unknown statement " ++ s.render
  | strayStmt s => "statement " ++ s.render ++ " is in no block"
  | undefinedHandler b handler =>
    "block " ++ b.render ++ " has unknown handler block " ++ handler.render
  | undefinedSuccessor b next => "block " ++ b.render ++ " has unknown successor " ++ next.render
  | outsideFlow s => "statement " ++ s.render ++ " is not part of the block graph"
  | switchLength s values targets =>
    "switch " ++ s.render ++ " has " ++ toString values ++ " values but " ++ toString targets ++
      " targets"
  | repeatedCase value => "switch has duplicate case " ++ toString value.toInt
  | unlabelled b => "block " ++ b.render ++ " has no branch target label"
  | unlabelledEnd => "method-end label was never created"
  | unlabelledTarget s => "branch target " ++ s.render ++ " has no label"
  | unlabelledGoto s => "goto target " ++ s.render ++ " has no label"
  | unknownBlock b => "unknown block " ++ b.render
  | unknownStmt s => "unknown statement " ++ s.render
  | valueFromVoid => "value returned from a void method"
  | voidResult method l => "void result of " ++ method.render ++ " assigned to " ++ l.render
  | noParameter index count =>
    "@parameter" ++ toString index ++ " but the method takes " ++ toString count ++ " parameters"

/-- Why a local variable has no place. -/
inductive SlotError where
  /-- A constant is used as if it were a local. -/
  | constant (c : Constant)
  /-- The slots are used up. -/
  | exhausted (owner : String) (slot width : Nat)
  deriving DecidableEq, Repr

/-- The wording of a slot error. -/
def SlotError.message : SlotError → String
  | constant c => "constant " ++ Unsupported.quote c.render ++ " has no local slot"
  | exhausted owner slot width =>
    owner ++ " needs slot " ++ toString slot ++ " with width " ++ toString width ++
      ", past the last local slot"

/-- Why something cannot be lowered. -/
inductive LowerError where
  /-- There is no code for it. -/
  | unsupported (e : Unsupported)
  /-- Its parts do not fit together. -/
  | inconsistent (e : Inconsistency)
  /-- A local variable has no place. -/
  | slots (e : SlotError)
  /-- The code for it cannot run. -/
  | code (e : CodeError)
  /-- The error happened in a method, and in a statement if its text is given. -/
  | inMethod (method : String) (stmt : Option String) (source : LowerError)
  deriving DecidableEq, Repr

namespace LowerError

/-- The wording of a lowering error. -/
def message : LowerError → String
  | unsupported e => e.message
  | inconsistent e => "structural inconsistency: " ++ e.message
  | slots e => "slot allocation failed: " ++ e.message
  | code e => "assembler rejected method: " ++ e.message
  | inMethod method stmt source =>
    "failed to lower " ++ method ++
      (match stmt with
        | some text => " at " ++ Unsupported.quote text
        | none => "") ++
      ": " ++ source.message

/-- Adds where the error happened, unless that is known already. -/
def within (method : String) (stmt : Option String) : LowerError → LowerError
  | inMethod m s source => inMethod m s source
  | e => inMethod method stmt e

/-- The error without the places where it happened. -/
def root : LowerError → LowerError
  | inMethod _ _ source => source.root
  | e => e

end LowerError

/-- The result of lowering something. -/
abbrev Lowered (α : Type) := Except LowerError α

/-- There is no code for something. -/
def unsupported {α : Type} (e : Unsupported) : Lowered α :=
  .error (.unsupported e)

/-- The parts of something do not fit together. -/
def inconsistent {α : Type} (e : Inconsistency) : Lowered α :=
  .error (.inconsistent e)

end BytecodeLowering.Lowering
