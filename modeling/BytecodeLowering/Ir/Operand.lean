import BytecodeLowering.Ir.Ty
import BytecodeLowering.Number.Decimal

/-!
# Locals, constants and operands

What the expressions of three-address code are made of.

* `Local`: a named and typed variable with its `Role`.
* `FieldSignature`, `MethodSignature`, `MethodProto`, `MethodHandle`: references to members.
* `Constant`: a literal value.
* `Operand`: a local or a constant.

Each has a `render`, its text.
-/

namespace BytecodeLowering.Ir

/-- What a local stands for. -/
inductive Role where
  /-- The reference that an instance method is called on. -/
  | receiver
  /-- A variable of the program. -/
  | ordinary
  /-- A value that stays on the operand stack between its one assignment and its one use. -/
  | stackTemp
  /-- Another name for a caught exception, of use in handlers only. -/
  | handlerRef
  deriving DecidableEq, Repr, Inhabited

namespace Role

/-- The role that a name implies: `this`, names that start with `$stack`, and names with a `#`. -/
def ofName (name : String) : Role :=
  if name = "this" then receiver
  else if "$stack".toList.isPrefixOf name.toList then stackTemp
  else if name.toList.contains '#' then handlerRef
  else ordinary

end Role

/-- A local variable. Two locals are the same only if all their parts are. -/
structure Local where
  /-- Its name. -/
  name : String
  /-- Its type. -/
  ty : Ty
  /-- What it stands for. -/
  role : Role
  deriving DecidableEq, Repr, Inhabited

namespace Local

/-- The local with the role that its name implies. -/
def named (name : String) (ty : Ty) : Local :=
  ⟨name, ty, Role.ofName name⟩

/-- The text of a local is its name. -/
def render (l : Local) : String :=
  l.name

/-- The number of slots that the local takes where it has any. -/
def slots (l : Local) : Nat :=
  max l.ty.width 1

end Local

/-- A reference to a field. -/
structure FieldSignature where
  /-- The class that declares the field. -/
  owner : ClassName
  /-- The name of the field. -/
  name : String
  /-- The type of the field. -/
  ty : Ty
  deriving DecidableEq, Repr

/-- The text of a field reference. -/
def FieldSignature.render (f : FieldSignature) : String :=
  "<" ++ f.owner.text ++ ": " ++ f.ty.render ++ " " ++ f.name ++ ">"

/-- The types of a list with commas between them. -/
def renderTypes (ts : List Ty) : String :=
  String.intercalate "," (ts.map Ty.render)

/-- Parameter and return types of a method. -/
structure MethodProto where
  /-- The types of the parameters. -/
  params : List Ty
  /-- The type of the result. -/
  ret : Ty
  deriving DecidableEq, Repr

/-- The text of parameter and return types. -/
def MethodProto.render (p : MethodProto) : String :=
  "(" ++ renderTypes p.params ++ ")" ++ p.ret.render

/-- A reference to a method. -/
structure MethodSignature where
  /-- The class that declares the method. -/
  owner : ClassName
  /-- The name of the method. -/
  name : String
  /-- The types of the parameters. -/
  params : List Ty
  /-- The type of the result. -/
  ret : Ty
  deriving DecidableEq, Repr

namespace MethodSignature

/-- The name of all constructors. -/
def constructor : String := "<init>"

/-- Whether the method is a constructor. -/
def isConstructor (m : MethodSignature) : Bool :=
  m.name = constructor

/-- The types of the method. -/
def proto (m : MethodSignature) : MethodProto :=
  ⟨m.params, m.ret⟩

/-- The text of a method reference. -/
def render (m : MethodSignature) : String :=
  "<" ++ m.owner.text ++ ": " ++ m.ret.render ++ " " ++ m.name ++ "(" ++ renderTypes m.params ++
    ")>"

end MethodSignature

/-- What a method handle does with its target. -/
inductive HandleKind where
  | getField
  | getStatic
  | putField
  | putStatic
  | invokeVirtual
  | invokeStatic
  | invokeSpecial
  | newInvokeSpecial
  | invokeInterface
  deriving DecidableEq, Repr

/-- The name of a handle kind. -/
def HandleKind.name : HandleKind → String
  | getField => "get_field"
  | getStatic => "get_static"
  | putField => "put_field"
  | putStatic => "put_static"
  | invokeVirtual => "invoke_virtual"
  | invokeStatic => "invoke_static"
  | invokeSpecial => "invoke_special"
  | newInvokeSpecial => "new_invoke_special"
  | invokeInterface => "invoke_interface"

/-- The member that a method handle refers to. -/
inductive HandleTarget where
  /-- A field. -/
  | field (f : FieldSignature)
  /-- A method. -/
  | method (m : MethodSignature)
  deriving DecidableEq, Repr

/-- A method handle. -/
structure MethodHandle where
  /-- What it does. -/
  kind : HandleKind
  /-- What it refers to. -/
  target : HandleTarget
  /-- Whether the owner of the target is an interface. -/
  isInterface : Bool
  deriving DecidableEq, Repr

/-- The text of a method handle. -/
def MethodHandle.render (h : MethodHandle) : String :=
  "handle " ++ h.kind.name ++ " " ++
    match h.target with
    | .field f => f.render
    | .method m => m.render

/-- A literal value. -/
inductive Constant where
  /-- A 32-bit integer. -/
  | int (value : Int32)
  /-- A 64-bit integer. -/
  | long (value : Int64)
  /-- A 32-bit floating-point value. -/
  | float (value : Number.Single)
  /-- A 64-bit floating-point value. -/
  | double (value : Number.Double)
  /-- A truth value. -/
  | boolean (value : Bool)
  /-- A string. -/
  | string (value : String)
  /-- The class literal of a type. -/
  | classOf (ty : Ty)
  /-- The null reference. -/
  | null
  /-- A method handle. -/
  | methodHandle (handle : MethodHandle)
  /-- A method type. -/
  | methodType (proto : MethodProto)
  deriving DecidableEq, Repr

namespace Constant

/-- The type of a constant. -/
def ty : Constant → Ty
  | int _ => .prim .int
  | long _ => .prim .long
  | float _ => .prim .float
  | double _ => .prim .double
  | boolean _ => .prim .boolean
  | string _ => .object .string
  | classOf _ => .object .classLiteral
  | null => .null
  | methodHandle _ => .object .methodHandle
  | methodType _ => .object .methodType

/-- The name of the kind of constant. -/
def kindName : Constant → String
  | int _ => "int"
  | long _ => "long"
  | float _ => "float"
  | double _ => "double"
  | boolean _ => "boolean"
  | string _ => "string"
  | classOf _ => "class"
  | null => "null"
  | methodHandle _ => "method_handle"
  | methodType _ => "method_type"

/-- The text of a constant. -/
def render : Constant → String
  | int v => toString v.toInt
  | long v => toString v.toInt ++ "L"
  | float v => Number.plain v.parts ++ "F"
  | double v => Number.plain v.parts
  | boolean v => if v then "true" else "false"
  | string v => Text.quoted v
  | classOf t => "class " ++ t.render
  | null => "null"
  | methodHandle h => h.render
  | methodType p => "methodtype " ++ p.render

end Constant

/-- A local or a constant. -/
inductive Operand where
  /-- The value of a local. -/
  | var (l : Local)
  /-- A constant. -/
  | const (c : Constant)
  deriving DecidableEq, Repr

namespace Operand

/-- The type of an operand. -/
def ty : Operand → Ty
  | var l => l.ty
  | const c => c.ty

/-- The local that the operand is, if it is one. -/
def local? : Operand → Option Local
  | var l => some l
  | const _ => none

/-- The text of an operand. -/
def render : Operand → String
  | var l => l.render
  | const c => c.render

end Operand

/-- The locals among some operands. -/
def localsOf (ops : List Operand) : List Local :=
  ops.filterMap Operand.local?

/-- The texts of operands with commas between them. -/
def renderOperands (ops : List Operand) : String :=
  String.intercalate ", " (ops.map Operand.render)

end BytecodeLowering.Ir
