import BytecodeLowering.Text.Blank
import BytecodeLowering.Text.Quoted

/-!
# Value types

The types of three-address code, as they are spelled (`int`, `java.lang.String`, `byte[][]`), and
how a value of each type is computed with.

* `ClassName`: a dotted class name, with its slashed `internalName`.
* `Prim`, `Category`: the primitive types, and the categories of values on an operand stack with
  their `width` in slots.
* `Ty`: a type, with `Ty.render` and `Ty.parse`; `Ty.Valid` describes the types that have a
  spelling of their own.
-/

namespace BytecodeLowering.Ir

/-- A fully qualified class name, its parts separated by dots. -/
structure ClassName where
  /-- The name as it is written. -/
  text : String
  deriving DecidableEq, Repr, Inhabited

namespace ClassName

/-- A dot as the slash of the internal form, and any other character as itself. -/
def slash (c : Char) : Char :=
  if c = '.' then '/' else c

/-- The name with slashes in place of the dots. -/
def internalName (n : ClassName) : String :=
  String.ofList (n.text.toList.map slash)

/-- The part of the name behind its last dot. -/
def simpleName (n : ClassName) : String :=
  String.ofList (n.text.toList.reverse.takeWhile (· ≠ '.')).reverse

/-- The root of the class hierarchy. -/
def object : ClassName := ⟨"java.lang.Object"⟩

/-- The class of strings. -/
def string : ClassName := ⟨"java.lang.String"⟩

/-- The class of class literals. -/
def classLiteral : ClassName := ⟨"java.lang.Class"⟩

/-- The class of method handles. -/
def methodHandle : ClassName := ⟨"java.lang.invoke.MethodHandle"⟩

/-- The class of method types. -/
def methodType : ClassName := ⟨"java.lang.invoke.MethodType"⟩

end ClassName

/-- The category of a value on the operand stack and in local variables. -/
inductive Category where
  /-- Values computed with as 32-bit integers. -/
  | int
  /-- 64-bit integers. -/
  | long
  /-- 32-bit floating-point values. -/
  | float
  /-- 64-bit floating-point values. -/
  | double
  /-- References to objects and arrays. -/
  | reference
  /-- No value. -/
  | void
  deriving DecidableEq, Repr

namespace Category

/-- The number of slots that a value occupies. -/
def width : Category → Nat
  | long | double => 2
  | void => 0
  | int | float | reference => 1

/-- The name of the category. -/
def name : Category → String
  | int => "Int"
  | long => "Long"
  | float => "Float"
  | double => "Double"
  | reference => "Reference"
  | void => "Void"

end Category

/-- A primitive type. -/
inductive Prim where
  | boolean
  | byte
  | char
  | short
  | int
  | long
  | float
  | double
  deriving DecidableEq, Repr

namespace Prim

/-- All primitive types. -/
def all : List Prim :=
  [boolean, byte, char, short, int, long, float, double]

/-- The keyword of the type. -/
def name : Prim → String
  | boolean => "boolean"
  | byte => "byte"
  | char => "char"
  | short => "short"
  | int => "int"
  | long => "long"
  | float => "float"
  | double => "double"

/-- The type with the given keyword. -/
def ofName? (s : String) : Option Prim :=
  all.find? fun p => p.name = s

/-- The category of the values of the type. -/
def category : Prim → Category
  | long => .long
  | float => .float
  | double => .double
  | boolean | byte | char | short | int => .int

/-- Whether the values of the type are computed with as 32-bit integers. -/
def isIntLike (p : Prim) : Bool :=
  p.category = .int

end Prim

/-- A value type. -/
inductive Ty where
  /-- A primitive type. -/
  | prim (p : Prim)
  /-- The type of no value, for methods that return none. -/
  | void
  /-- The type of the null reference. -/
  | null
  /-- A class or interface. -/
  | object (name : ClassName)
  /-- Arrays of `dims` dimensions over a type that is no array. -/
  | array (base : Ty) (dims : Nat)
  /-- A type that is not known. -/
  | unknown
  deriving DecidableEq, Repr, Inhabited

/-- Why a text is not the spelling of a type. -/
inductive TyError where
  /-- The text has more than 255 pairs of brackets. -/
  | tooManyDimensions (text : String)
  /-- There are no arrays over the given type. -/
  | notAComponent (base : String)
  /-- The text does not name a type. -/
  | invalidName (text : String)
  deriving DecidableEq, Repr

/-- The wording of a type error. -/
def TyError.message : TyError → String
  | tooManyDimensions text => "too many array dimensions in " ++ text
  | notAComponent base => base ++ " cannot be an array component"
  | invalidName text => "invalid type name " ++ Text.quoted text

namespace Ty

/-- The spelling of a type. -/
def render : Ty → String
  | prim p => p.name
  | void => "void"
  | null => "null_type"
  | object n => n.text
  | array base dims => base.render ++ String.join (List.replicate dims "[]")
  | unknown => "unknown"

/-- The category of the values of a type. -/
def category : Ty → Category
  | prim p => p.category
  | void => .void
  | null | object _ | array _ _ | unknown => .reference

/-- The number of slots of a value. -/
def width (t : Ty) : Nat :=
  t.category.width

/-- The primitive type that the type is, if it is one. -/
def prim? : Ty → Option Prim
  | prim p => some p
  | _ => none

/-- Whether the values of the type are references. -/
def isReference : Ty → Bool
  | null | object _ | array _ _ | unknown => true
  | prim _ | void => false

/-- The array type with the given component type, if it has at most 255 dimensions. -/
def arrayOf? : Ty → Option Ty
  | array base dims => if dims < 255 then some (array base (dims + 1)) else none
  | t => some (array t 1)

/-- The component type of an array type. -/
def component? : Ty → Option Ty
  | array base dims => if 1 < dims then some (array base (dims - 1)) else some base
  | _ => none

/-- Takes the pairs of brackets from the end of a text, with the blanks in front of each, and counts
them. The text comes and goes in reverse. -/
def peel : List Char → Nat × List Char
  | ']' :: '[' :: rest =>
    let (n, base) := peel (rest.dropWhile Text.isBlank)
    (n + 1, base)
  | cs => (0, cs)
termination_by cs => cs.length
decreasing_by
  have := (List.dropWhile_sublist Text.isBlank (l := rest)).length_le
  simp only [List.length_cons]
  omega

/-- The type that a text without brackets spells. -/
def ofBase (text : String) (dims : Nat) (base : String) : Except TyError Ty :=
  let reserved (t : Ty) : Except TyError Ty :=
    if dims = 0 then .ok t else .error (.notAComponent base)
  if base = "void" then reserved void
  else if base = "null_type" then reserved null
  else if base = "unknown" then reserved unknown
  else
    match Prim.ofName? base with
    | some p => .ok (prim p)
    | none =>
      if base.toList.isEmpty ∨ base.toList.any Text.isBlank then .error (.invalidName text)
      else .ok (object ⟨base⟩)

/-- Reads the spelling of a type: blanks are allowed around it and in front of each pair of
brackets. -/
def parse (text : String) : Except TyError Ty :=
  let (dims, base) := peel (Text.trim text.toList).reverse
  if 255 < dims then .error (.tooManyDimensions text)
  else
    (ofBase text dims (String.ofList base.reverse)).map fun t =>
      if dims = 0 then t else array t dims

/-- A class name that no other type is spelled like. -/
def ValidName (n : String) : Prop :=
  n.toList ≠ [] ∧ n.toList.all (fun c => !Text.isBlank c) = true ∧
    ¬ ['[', ']'] <:+ n.toList ∧ Prim.ofName? n = none ∧
    n ≠ "void" ∧ n ≠ "null_type" ∧ n ≠ "unknown"

/-- A type that has a spelling of its own. -/
def Valid : Ty → Prop
  | object n => ValidName n.text
  | array (prim _) dims => 1 ≤ dims ∧ dims ≤ 255
  | array (object n) dims => ValidName n.text ∧ 1 ≤ dims ∧ dims ≤ 255
  | array _ _ => False
  | prim _ | void | null | unknown => True

end Ty

end BytecodeLowering.Ir
