import BytecodeLowering.Lowering.Error

/-!
# Names and descriptors

How the types and members of three-address code are named in assembled code.

* `descriptor`, `methodDescriptor`: the descriptors of types and of methods.
* `internalName`: the name of a class or array type as an operand of an instruction.
* `handle`, `bootstrapHandle`: method handles.
* `MemberName`: the owner, the name and the descriptor of a field or a method.
-/

namespace BytecodeLowering.Lowering

open Ir Machine

/-- The descriptor of a primitive type. -/
def primDescriptor : Prim → String
  | .boolean => "Z"
  | .byte => "B"
  | .char => "C"
  | .short => "S"
  | .int => "I"
  | .long => "J"
  | .float => "F"
  | .double => "D"

/-- The descriptor of a class. -/
def classDescriptor (n : ClassName) : String :=
  "L" ++ n.internalName ++ ";"

/-- The descriptor of a type. The null type and the unknown type have none. -/
def descriptor : Ty → Lowered String
  | .prim p => .ok (primDescriptor p)
  | .void => .ok "V"
  | .object n => .ok (classDescriptor n)
  | .array base dims => (descriptor base).map fun d => String.join (List.replicate dims "[") ++ d
  | .null => unsupported (.noDescriptor .null)
  | .unknown => unsupported (.noDescriptor .unknown)

/-- The descriptor of a method. -/
def methodDescriptor (p : MethodProto) : Lowered String := do
  let params ← p.params.mapM descriptor
  let ret ← descriptor p.ret
  return "(" ++ String.join params ++ ")" ++ ret

/-- The name of a type as an operand of an instruction: that of a class, or the descriptor of an
array type. Other types have none. -/
def internalName : Ty → Lowered String
  | .object n => .ok n.internalName
  | .array base dims => descriptor (.array base dims)
  | t => unsupported (.notNominal t)

/-- The tag of a handle kind. -/
def handleTag : HandleKind → HandleTag
  | .getField => .getField
  | .getStatic => .getStatic
  | .putField => .putField
  | .putStatic => .putStatic
  | .invokeVirtual => .invokeVirtual
  | .invokeStatic => .invokeStatic
  | .invokeSpecial => .invokeSpecial
  | .newInvokeSpecial => .newInvokeSpecial
  | .invokeInterface => .invokeInterface

/-- How an instruction names a member. -/
structure MemberName where
  /-- The internal name of the class. -/
  owner : String
  /-- The name of the member. -/
  name : String
  /-- The descriptor of the member. -/
  desc : String
  deriving DecidableEq, Repr

/-- How an instruction names a field. -/
def fieldName (f : FieldSignature) : Lowered MemberName :=
  (descriptor f.ty).map fun desc => ⟨f.owner.internalName, f.name, desc⟩

/-- How an instruction names a method. -/
def methodName (m : MethodSignature) : Lowered MemberName :=
  (methodDescriptor m.proto).map fun desc => ⟨m.owner.internalName, m.name, desc⟩

/-- How an instruction names the target of a handle. -/
def targetName : HandleTarget → Lowered MemberName
  | .field f => fieldName f
  | .method m => methodName m

/-- A method handle. -/
def handle (h : MethodHandle) : Lowered Handle :=
  (targetName h.target).map fun n => ⟨handleTag h.kind, n.owner, n.name, n.desc, h.isInterface⟩

/-- The handle of a bootstrap method, which is a class method. -/
def bootstrapHandle (m : MethodSignature) : Lowered Handle :=
  (methodName m).map fun n => ⟨.invokeStatic, n.owner, n.name, n.desc, false⟩

/-- The class whose `TYPE` field holds the class literal of a primitive type. -/
def wrapper : Prim → String
  | .boolean => "java/lang/Boolean"
  | .byte => "java/lang/Byte"
  | .char => "java/lang/Character"
  | .short => "java/lang/Short"
  | .int => "java/lang/Integer"
  | .long => "java/lang/Long"
  | .float => "java/lang/Float"
  | .double => "java/lang/Double"

/-- The operation that reads a field. -/
def getOp (f : FieldRef) : Opcode :=
  if f.isStatic then .getstatic else .getfield

/-- The operation that writes a field. -/
def putOp (f : FieldRef) : Opcode :=
  if f.isStatic then .putstatic else .putfield

end BytecodeLowering.Lowering
