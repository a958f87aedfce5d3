import BytecodeLowering.Ir.Body

/-!
# Classes

* `Modifier`: the access modifiers of classes and members; a set of them is a list in the order of
  `Modifier.all` without repeats, which `Modifier.normalize` makes of any list.
* `AnnotationValue`: the values of annotations.
* `Field`, `Method`, `Class`: declarations.
-/

namespace BytecodeLowering.Ir

/-- An access modifier. -/
inductive Modifier where
  | pub
  | priv
  | prot
  | static
  | final
  | super
  | synchronized
  | volatile
  | transient
  | native
  | interface
  | abstract
  | strict
  | synthetic
  | annotationType
  | enum
  deriving DecidableEq, Repr

namespace Modifier

/-- All modifiers, in their order. -/
def all : List Modifier :=
  [.pub, .priv, .prot, .static, .final, .super, .synchronized, .volatile, .transient,
    .native, .interface, .abstract, .strict, .synthetic, .annotationType, .enum]

/-- The keyword of a modifier. -/
def name : Modifier → String
  | .pub => "public"
  | .priv => "private"
  | .prot => "protected"
  | .static => "static"
  | .final => "final"
  | .super => "super"
  | .synchronized => "synchronized"
  | .volatile => "volatile"
  | .transient => "transient"
  | .native => "native"
  | .interface => "interface"
  | .abstract => "abstract"
  | .strict => "strict"
  | .synthetic => "synthetic"
  | .annotationType => "annotation"
  | .enum => "enum"

/-- The modifier with the given keyword. -/
def ofName? (s : String) : Option Modifier :=
  all.find? fun m => m.name = s

/-- The modifiers of a list in their order, each once. -/
def normalize (ms : List Modifier) : List Modifier :=
  all.filter fun m => m ∈ ms

end Modifier

/-- A value of an annotation. -/
inductive AnnotationValue where
  /-- A constant. -/
  | const (c : Constant)
  /-- A constant of an enumeration. -/
  | enumConst (ty : ClassName) (name : String)
  /-- A class literal. -/
  | classOf (ty : Ty)
  /-- Several values. -/
  | array (values : List AnnotationValue)
  /-- An annotation with the values of its elements. -/
  | nested (ty : ClassName) (elements : List (String × AnnotationValue))
  deriving Repr

/-- A field of a class. -/
structure Field where
  /-- Its name. -/
  name : String
  /-- Its type. -/
  ty : Ty
  /-- Its modifiers. -/
  modifiers : List Modifier
  /-- The value of a constant field. -/
  constant : Option Constant
  deriving Repr

/-- A method of a class. -/
structure Method where
  /-- Its name. -/
  name : String
  /-- Its modifiers. -/
  modifiers : List Modifier
  /-- The types of its parameters. -/
  params : List Ty
  /-- The type of its result. -/
  ret : Ty
  /-- The exceptions that it declares. -/
  exceptions : List ClassName
  /-- Its body, if it has one. -/
  body : Option Body
  /-- The default of an annotation element. -/
  annotationDefault : Option AnnotationValue
  deriving Repr

namespace Method

/-- Whether the method has a modifier. -/
def has (m : Method) (modifier : Modifier) : Bool :=
  modifier ∈ m.modifiers

/-- Whether the method belongs to its class. -/
def isStatic (m : Method) : Bool :=
  m.has .static

/-- Whether the method is a constructor. -/
def isConstructor (m : Method) : Bool :=
  m.name = MethodSignature.constructor

/-- Whether the method has a body that is its code: it is neither abstract nor native. -/
def isConcrete (m : Method) : Bool :=
  m.body.isSome && !m.has .abstract && !m.has .native

/-- The reference to the method as a member of a class. -/
def signature (m : Method) (owner : ClassName) : MethodSignature :=
  ⟨owner, m.name, m.params, m.ret⟩

end Method

/-- A class. -/
structure Class where
  /-- Its name. -/
  name : ClassName
  /-- The class that it extends, if it names one. -/
  superClass : Option ClassName
  /-- The interfaces that it implements. -/
  interfaces : List ClassName
  /-- Its modifiers. -/
  modifiers : List Modifier
  /-- Its fields. -/
  fields : List Field
  /-- Its methods. -/
  methods : List Method
  deriving Repr

end BytecodeLowering.Ir
