import BytecodeLowering.Machine.Code

/-!
# Class images

Assembled classes.

* `Access`: access flags.
* `ClassHeader`, `FieldDecl`, `MethodHeader`, `ElementValue`: declarations.
* `ClassImage`: an assembled class.
* `ImageBuilder`: a class that is being assembled.
-/

namespace BytecodeLowering.Machine

namespace Access

/-- The flag of a member that belongs to its class. -/
def static : UInt16 := 0x0008

/-- The flag of a native method. -/
def native : UInt16 := 0x0100

end Access

/-- The header of a class. -/
structure ClassHeader where
  /-- The version of the class format. -/
  version : UInt16
  /-- The access flags. -/
  access : UInt16
  /-- The internal name. -/
  name : String
  /-- The internal name of the class that it extends. -/
  superName : Option String
  /-- The internal names of the interfaces that it implements. -/
  interfaces : List String
  deriving DecidableEq, Repr

/-- A field. -/
structure FieldDecl where
  /-- The access flags. -/
  access : UInt16
  /-- The name. -/
  name : String
  /-- The descriptor. -/
  desc : String
  /-- The value of a constant field. -/
  constant : Option Loadable
  deriving DecidableEq, Repr

/-- The header of a method. -/
structure MethodHeader where
  /-- The access flags. -/
  access : UInt16
  /-- The name. -/
  name : String
  /-- The descriptor. -/
  desc : String
  /-- The internal names of the exceptions that it declares. -/
  exceptions : List String
  deriving DecidableEq, Repr

/-- Whether the method belongs to its class. -/
def MethodHeader.isStatic (h : MethodHeader) : Bool :=
  h.access &&& Access.static != 0

/-- A value of an annotation. -/
inductive ElementValue where
  /-- A truth value. -/
  | boolean (value : Bool)
  /-- A 32-bit integer. -/
  | int (value : Int32)
  /-- A 64-bit integer. -/
  | long (value : Int64)
  /-- A 32-bit floating-point value. -/
  | float (value : Number.Single)
  /-- A 64-bit floating-point value. -/
  | double (value : Number.Double)
  /-- A string. -/
  | str (value : String)
  /-- A constant of an enumeration. -/
  | enumConst (desc name : String)
  /-- A class literal. -/
  | classOf (desc : String)
  /-- Several values. -/
  | array (values : List ElementValue)
  /-- An annotation with the values of its elements. -/
  | nested (desc : String) (values : List (String × ElementValue))
  deriving Repr

/-- An assembled method. -/
structure MethodImage where
  /-- Its header. -/
  header : MethodHeader
  /-- Its code, if it has any. -/
  code : Option MethodCode
  /-- The default of an annotation element. -/
  annotationDefault : Option ElementValue
  deriving Repr

/-- An assembled class. -/
structure ClassImage where
  /-- Its header. -/
  header : ClassHeader
  /-- Its fields. -/
  fields : List FieldDecl
  /-- Its methods. -/
  methods : List MethodImage
  deriving Repr

/-- The first method with the given name. -/
def ClassImage.method? (c : ClassImage) (name : String) : Option MethodImage :=
  c.methods.find? fun m => m.header.name = name

/-- A class that is being assembled. -/
structure ImageBuilder where
  /-- The header, once it is declared. -/
  header : Option ClassHeader := none
  /-- The fields so far. -/
  fields : List FieldDecl := []
  /-- The methods so far. -/
  methods : List MethodImage := []
  deriving Repr

namespace ImageBuilder

/-- Declares the class; a later declaration replaces an earlier one. -/
def declare (b : ImageBuilder) (header : ClassHeader) : ImageBuilder :=
  { b with header := some header }

/-- Adds a field. -/
def field (b : ImageBuilder) (f : FieldDecl) : ImageBuilder :=
  { b with fields := b.fields ++ [f] }

/-- Adds a method, whose code is finished for it. -/
def method (b : ImageBuilder) (header : MethodHeader) (code : Option CodeBuffer)
    (annotationDefault : Option ElementValue) : Except CodeError ImageBuilder := do
  let code ← code.mapM CodeBuffer.finish
  return { b with methods := b.methods ++ [⟨header, code, annotationDefault⟩] }

/-- The finished class, if it was declared. -/
def finish? (b : ImageBuilder) : Option ClassImage :=
  b.header.map fun header => ⟨header, b.fields, b.methods⟩

end ImageBuilder

end BytecodeLowering.Machine
