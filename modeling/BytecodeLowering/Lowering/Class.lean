import BytecodeLowering.Lowering.Method
import BytecodeLowering.Machine.Image

/-!
# Classes

* `accessFlags`: the flags of modifiers.
* `classHeader`, `fieldDecl`, `methodHeader`, `elementValue`: declarations.
* `lowerClass`: an assembled class, without the methods that cannot be lowered.
-/

namespace BytecodeLowering.Lowering

open Ir Machine

/-- The flag of a modifier. -/
def accessFlag : Modifier → UInt16
  | .pub => 0x0001
  | .priv => 0x0002
  | .prot => 0x0004
  | .static => Access.static
  | .final => 0x0010
  | .super => 0x0020
  | .synchronized => 0x0020
  | .volatile => 0x0040
  | .transient => 0x0080
  | .native => Access.native
  | .interface => 0x0200
  | .abstract => 0x0400
  | .strict => 0x0800
  | .synthetic => 0x1000
  | .annotationType => 0x2000
  | .enum => 0x4000

/-- The flags of modifiers. -/
def accessFlags (ms : List Modifier) : UInt16 :=
  ms.foldl (fun flags m => flags ||| accessFlag m) 0

/-- The class that a class extends: the one that it names, or else the root of the hierarchy, which
itself extends none. -/
def superName (c : Ir.Class) : Option String :=
  match c.superClass with
  | some s => some s.internalName
  | none => if c.name = .object then none else some ClassName.object.internalName

/-- The header of a class. -/
def classHeader (c : Ir.Class) (options : Options) : ClassHeader where
  version := options.classVersion
  access := accessFlags c.modifiers
  name := c.name.internalName
  superName := superName c
  interfaces := c.interfaces.map ClassName.internalName

/-- The value of a constant field. -/
def fieldConstant : Constant → Lowered Loadable
  | .int v => .ok (.int v)
  | .boolean v => .ok (.int (boolInt v))
  | .long v => .ok (.long v)
  | .float v => .ok (.float v)
  | .double v => .ok (.double v)
  | .string v => .ok (.str v)
  | c => unsupported (.fieldConstant c)

/-- Whether a field keeps its constant: it does if it is static and final. -/
def keepsConstant (f : Field) : Bool :=
  f.modifiers.contains .static && f.modifiers.contains .final

/-- A field. -/
def fieldDecl (f : Field) : Lowered FieldDecl := do
  let constant ← (f.constant.filter fun _ => keepsConstant f).mapM fieldConstant
  let desc ← descriptor f.ty
  return ⟨accessFlags f.modifiers, f.name, desc, constant⟩

/-- The header of a method. -/
def methodHeader (m : Method) : Lowered MethodHeader := do
  let desc ← methodDescriptor ⟨m.params, m.ret⟩
  return ⟨accessFlags m.modifiers, m.name, desc, m.exceptions.map ClassName.internalName⟩

/-- The value of a constant in an annotation. -/
def elementConstant : Constant → Lowered ElementValue
  | .int v => .ok (.int v)
  | .boolean v => .ok (.boolean v)
  | .long v => .ok (.long v)
  | .float v => .ok (.float v)
  | .double v => .ok (.double v)
  | .string v => .ok (.str v)
  | .classOf t => (descriptor t).map .classOf
  | c => unsupported (.annotationConstant c)

mutual

/-- A value of an annotation. -/
def elementValue : AnnotationValue → Lowered ElementValue
  | .const c => elementConstant c
  | .enumConst t name => .ok (.enumConst (classDescriptor t) name)
  | .classOf t => (descriptor t).map .classOf
  | .array values => (elementValues values).map .array
  | .nested t elements => (namedElements elements).map (.nested (classDescriptor t))

/-- The values of a list. -/
def elementValues : List AnnotationValue → Lowered (List ElementValue)
  | [] => .ok []
  | v :: vs => do return (← elementValue v) :: (← elementValues vs)

/-- The values of named elements. -/
def namedElements : List (String × AnnotationValue) → Lowered (List (String × ElementValue))
  | [] => .ok []
  | (name, v) :: es => do return (name, ← elementValue v) :: (← namedElements es)

end

/-- A method of a class. Only a method without code keeps the default of an annotation element. -/
def methodImage (owner : ClassName) (options : Options) (m : Method) : Lowered MethodImage := do
  let header ← methodHeader m
  if m.isConcrete then
    let buffer ← (CodeBuffer.forDescriptor header.isStatic header.desc).mapError .code
    let lowered ← lowerMethod owner m options buffer.argSlots
    return ⟨header, some lowered.code, none⟩
  else
    return ⟨header, none, ← m.annotationDefault.mapM elementValue⟩

/-- A method that was left out. -/
structure MethodFailure where
  /-- The name of the method. -/
  method : String
  /-- Why it cannot be lowered. -/
  error : LowerError
  deriving Repr

/-- An assembled class, and the methods that were left out of it. -/
structure LoweredClass where
  /-- The class. -/
  image : ClassImage
  /-- The methods that were left out. -/
  failures : List MethodFailure
  deriving Repr

/-- Whether no method was left out. -/
def LoweredClass.isComplete (c : LoweredClass) : Bool :=
  c.failures.isEmpty

/-- The methods of a class that can be lowered, and those that cannot; with `failFast` the first of
these makes all of it fail. -/
def lowerMethods (owner : ClassName) (options : Options) :
    List Method → Lowered (List MethodImage × List MethodFailure)
  | [] => .ok ([], [])
  | m :: ms =>
    match (methodImage owner options m).mapError (.within (methodTitle owner m) none) with
    | .ok image => do
      let (images, failures) ← lowerMethods owner options ms
      return (image :: images, failures)
    | .error e => do
      if options.failFast then throw e
      let (images, failures) ← lowerMethods owner options ms
      return (images, ⟨methodTitle owner m, e⟩ :: failures)

/-- The assembled form of a class. -/
def lowerClass (c : Ir.Class) (options : Options) : Lowered LoweredClass := do
  let fields ← c.fields.mapM fieldDecl
  let (methods, failures) ← lowerMethods c.name options c.methods
  return ⟨⟨classHeader c options, fields, methods⟩, failures⟩

end BytecodeLowering.Lowering
