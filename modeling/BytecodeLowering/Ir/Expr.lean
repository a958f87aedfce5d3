import BytecodeLowering.Ir.Operand

/-!
# Expressions

The right-hand and left-hand sides of three-address statements.

* `BinOp`, `CmpOp`, `Condition`: operators and comparisons.
* `FieldRef`, `ArrayRef`, `Invocation`: accesses to memory and calls.
* `Expr`: what can be assigned; `Source`: what an identity statement binds; `Place`: what can be
  assigned to.

`uses` lists the locals that are read, in the order of the text and with repeats.
-/

namespace BytecodeLowering.Ir

/-- A binary operator. -/
inductive BinOp where
  | add
  | sub
  | mul
  | div
  | rem
  | and
  | or
  | xor
  | shl
  | shr
  | ushr
  /-- Three-way comparison of 64-bit integers. -/
  | cmp
  /-- Three-way comparison of floating-point values, `-1` on values that are not numbers. -/
  | cmpl
  /-- Three-way comparison of floating-point values, `1` on values that are not numbers. -/
  | cmpg
  deriving DecidableEq, Repr

namespace BinOp

/-- The sign of an operator. -/
def symbol : BinOp → String
  | add => "+"
  | sub => "-"
  | mul => "*"
  | div => "/"
  | rem => "%"
  | and => "&"
  | or => "|"
  | xor => "^"
  | shl => "<<"
  | shr => ">>"
  | ushr => ">>>"
  | cmp => "cmp"
  | cmpl => "cmpl"
  | cmpg => "cmpg"

/-- Whether the operator shifts its first operand by its second. -/
def isShift : BinOp → Bool
  | shl | shr | ushr => true
  | _ => false

end BinOp

/-- A comparison operator. -/
inductive CmpOp where
  | eq
  | ne
  | lt
  | le
  | gt
  | ge
  deriving DecidableEq, Repr

/-- The sign of a comparison. -/
def CmpOp.symbol : CmpOp → String
  | eq => "=="
  | ne => "!="
  | lt => "<"
  | le => "<="
  | gt => ">"
  | ge => ">="

/-- The condition of a branch. -/
structure Condition where
  /-- The comparison. -/
  op : CmpOp
  /-- Its left operand. -/
  lhs : Operand
  /-- Its right operand. -/
  rhs : Operand
  deriving DecidableEq, Repr

namespace Condition

/-- The text of a condition. -/
def render (c : Condition) : String :=
  c.lhs.render ++ " " ++ c.op.symbol ++ " " ++ c.rhs.render

/-- The locals that a condition reads. -/
def uses (c : Condition) : List Local :=
  localsOf [c.lhs, c.rhs]

end Condition

/-- A field of an object or of a class. -/
inductive FieldRef where
  /-- The field of the object that a local refers to. -/
  | ofObject (base : Local) (field : FieldSignature)
  /-- A field of a class. -/
  | ofClass (field : FieldSignature)
  deriving DecidableEq, Repr

namespace FieldRef

/-- The field referred to. -/
def field : FieldRef → FieldSignature
  | ofObject _ f => f
  | ofClass f => f

/-- The local that refers to the object, if there is one. -/
def base? : FieldRef → Option Local
  | ofObject b _ => some b
  | ofClass _ => none

/-- Whether the field belongs to a class. -/
def isStatic : FieldRef → Bool
  | ofObject _ _ => false
  | ofClass _ => true

/-- The text of a field access. -/
def render : FieldRef → String
  | ofObject b f => b.render ++ "." ++ f.render
  | ofClass f => f.render

/-- The locals that a field access reads. -/
def uses (f : FieldRef) : List Local :=
  f.base?.toList

end FieldRef

/-- An element of an array. -/
structure ArrayRef where
  /-- The local that refers to the array. -/
  base : Local
  /-- The index of the element. -/
  index : Operand
  deriving DecidableEq, Repr

namespace ArrayRef

/-- The type of the elements, if the local has an array type. -/
def component? (a : ArrayRef) : Option Ty :=
  a.base.ty.component?

/-- The text of an array access. -/
def render (a : ArrayRef) : String :=
  a.base.render ++ "[" ++ a.index.render ++ "]"

/-- The locals that an array access reads. -/
def uses (a : ArrayRef) : List Local :=
  a.base :: localsOf [a.index]

end ArrayRef

/-- A call. -/
inductive Invocation where
  /-- A call of a class method. -/
  | static (method : MethodSignature) (args : List Operand)
  /-- A call of exactly the given method, such as a constructor. -/
  | special (base : Local) (method : MethodSignature) (args : List Operand)
  /-- A call of a method that is looked up in the class of the receiver. -/
  | virtual (base : Local) (method : MethodSignature) (args : List Operand)
  /-- A call of a method of an interface. -/
  | interface (base : Local) (method : MethodSignature) (args : List Operand)
  /-- A call of a call site that is linked by a bootstrap method. -/
  | dynamic (bootstrap : MethodSignature) (bootstrapArgs : List Operand)
      (method : MethodSignature) (args : List Operand)
  deriving DecidableEq, Repr

namespace Invocation

/-- The method that is called. -/
def method : Invocation → MethodSignature
  | static m _ | special _ m _ | virtual _ m _ | interface _ m _ | dynamic _ _ m _ => m

/-- The arguments of the call. -/
def args : Invocation → List Operand
  | static _ as | special _ _ as | virtual _ _ as | interface _ _ as | dynamic _ _ _ as => as

/-- The receiver of the call, if it has one. -/
def base? : Invocation → Option Local
  | special b _ _ | virtual b _ _ | interface b _ _ => some b
  | static _ _ | dynamic _ _ _ _ => none

/-- The arguments for the bootstrap method. -/
def bootstrapArgs : Invocation → List Operand
  | dynamic _ as _ _ => as
  | _ => []

/-- The name of the kind of call. -/
def kindName : Invocation → String
  | static .. => "static"
  | special .. => "special"
  | virtual .. => "virtual"
  | interface .. => "interface"
  | dynamic .. => "dynamic"

/-- The text of a call with a receiver. -/
def renderOn (word : String) (b : Local) (m : MethodSignature) (as : List Operand) : String :=
  word ++ " " ++ b.render ++ "." ++ m.render ++ "(" ++ renderOperands as ++ ")"

/-- The text of a call. -/
def render : Invocation → String
  | static m as => "staticinvoke " ++ m.render ++ "(" ++ renderOperands as ++ ")"
  | special b m as => renderOn "specialinvoke" b m as
  | virtual b m as => renderOn "virtualinvoke" b m as
  | interface b m as => renderOn "interfaceinvoke" b m as
  | dynamic boot bootArgs m as =>
    "dynamicinvoke " ++ m.name ++ " " ++ m.proto.render ++ "(" ++ renderOperands as ++ ") " ++
      boot.render ++ "(" ++ renderOperands bootArgs ++ ")"

/-- The locals that a call reads: the receiver, the arguments, and those for the bootstrap
method. -/
def uses (i : Invocation) : List Local :=
  i.base?.toList ++ localsOf i.args ++ localsOf i.bootstrapArgs

end Invocation

/-- What can be assigned. -/
inductive Expr where
  /-- An operand. -/
  | operand (op : Operand)
  /-- A binary operation. -/
  | binary (op : BinOp) (lhs rhs : Operand)
  /-- The negation of a number. -/
  | neg (op : Operand)
  /-- The conversion of a value to a type. -/
  | cast (op : Operand) (ty : Ty)
  /-- The test whether an object belongs to a type. -/
  | instanceOf (op : Operand) (check : Ty)
  /-- A new object whose constructor has not been called. -/
  | new (name : ClassName)
  /-- A new array with one dimension of the given size. -/
  | newArray (element : Ty) (size : Operand)
  /-- A new array of the given type with the sizes of its outer dimensions. -/
  | newMultiArray (ty : Ty) (sizes : List Operand)
  /-- The length of an array. -/
  | length (op : Operand)
  /-- The result of a call. -/
  | invoke (call : Invocation)
  /-- The value of a field. -/
  | field (f : FieldRef)
  /-- The value of an array element. -/
  | element (a : ArrayRef)
  /-- The merge of the values of several locals. -/
  | phi (locals : List Local)
  deriving DecidableEq, Repr

namespace Expr

/-- The name of the kind of expression. -/
def kindName : Expr → String
  | operand _ => "immediate"
  | binary .. => "binary"
  | neg _ => "neg"
  | cast .. => "cast"
  | instanceOf .. => "instance_of"
  | new _ => "new"
  | newArray .. => "new_array"
  | newMultiArray .. => "new_multi_array"
  | length _ => "length"
  | invoke _ => "invoke"
  | field _ => "field"
  | element _ => "array"
  | phi _ => "phi"

/-- The text of an expression. -/
def render : Expr → String
  | operand op => op.render
  | binary op lhs rhs => lhs.render ++ " " ++ op.symbol ++ " " ++ rhs.render
  | neg op => "neg " ++ op.render
  | cast op ty => "(" ++ ty.render ++ ") " ++ op.render
  | instanceOf op check => op.render ++ " instanceof " ++ check.render
  | new n => "new " ++ n.text
  | newArray ty size => "newarray (" ++ ty.render ++ ")[" ++ size.render ++ "]"
  | newMultiArray ty sizes =>
    "newmultiarray (" ++ ty.render ++ ")" ++
      String.join (sizes.map fun size => "[" ++ size.render ++ "]")
  | length op => "lengthof " ++ op.render
  | invoke call => call.render
  | field f => f.render
  | element a => a.render
  | phi locals => "Phi(" ++ String.intercalate ", " (locals.map Local.render) ++ ")"

/-- The locals that an expression reads. -/
def uses : Expr → List Local
  | operand op | neg op | cast op _ | instanceOf op _ | length op | newArray _ op => localsOf [op]
  | binary _ lhs rhs => localsOf [lhs, rhs]
  | new _ => []
  | newMultiArray _ sizes => localsOf sizes
  | invoke call => call.uses
  | field f => f.uses
  | element a => a.uses
  | phi locals => locals

end Expr

/-- What an identity statement binds a local to. -/
inductive Source where
  /-- The receiver of the method. -/
  | this
  /-- A parameter of the method, counted from zero. -/
  | parameter (index : Nat) (ty : Ty)
  /-- The exception that a handler was entered with. -/
  | caughtException
  deriving DecidableEq, Repr

/-- The text of a source. -/
def Source.render : Source → String
  | this => "@this"
  | parameter index ty => "@parameter" ++ toString index ++ ": " ++ ty.render
  | caughtException => "@caughtexception"

/-- What can be assigned to. -/
inductive Place where
  /-- A local. -/
  | var (l : Local)
  /-- A field. -/
  | field (f : FieldRef)
  /-- An array element. -/
  | element (a : ArrayRef)
  deriving DecidableEq, Repr

namespace Place

/-- The text of a place. -/
def render : Place → String
  | var l => l.render
  | field f => f.render
  | element a => a.render

/-- The local that the place is, if it is one. -/
def local? : Place → Option Local
  | var l => some l
  | field _ | element _ => none

/-- The locals that are read to find the place. -/
def uses : Place → List Local
  | var _ => []
  | field f => f.uses
  | element a => a.uses

end Place

end BytecodeLowering.Ir
