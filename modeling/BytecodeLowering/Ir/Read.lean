import BytecodeLowering.Ir.Class
import BytecodeLowering.Json.Decode
import BytecodeLowering.Json.Reader

/-!
# Reading three-address code

The JSON form of classes and their parts.

* `Invalid`: why a well-shaped value says something that cannot be.
* `Class.ofJson`, `Class.ofText`: a class from a JSON value and from a text.

Alternatives are objects with one member, or a bare word if they carry nothing. Unknown members are
ignored, members that default may be absent, and no member may be given twice.
-/

namespace BytecodeLowering.Ir

open Json (Decoder Fields Fault)
open Json.Fields (required defaulted record)

/-- Why a well-shaped value says something that cannot be. -/
inductive Invalid where
  /-- A text is no type. -/
  | type (e : TyError)
  /-- A body has no block graph. -/
  | flow (e : FlowError)
  deriving DecidableEq, Repr

/-- The wording of an error of meaning. -/
def Invalid.message : Invalid → String
  | type e => "invalid type: " ++ e.message
  | flow e => "invalid block graph: " ++ e.message

/-- A reader of a part of a class. -/
abbrev Reader (α : Type) := Decoder Invalid α

/-- The greatest nesting of the containers of a text that is read. -/
def nestingLimit : Nat := 127

/-- Reads a class name. -/
def ClassName.reader : Reader ClassName :=
  Decoder.text.map ClassName.mk

/-- Reads a type from its spelling. -/
def Ty.reader : Reader Ty :=
  Decoder.text.refine fun s => (Ty.parse s).mapError .type

/-- Reads the number of a statement. -/
def StmtId.reader : Reader StmtId :=
  (Decoder.natOfBits 32).map StmtId.mk

/-- Reads the number of a block. -/
def BlockId.reader : Reader BlockId :=
  (Decoder.natOfBits 32).map BlockId.mk

/-- Reads a role. -/
def Role.reader : Reader Role :=
  Decoder.words fun
    | "receiver" => some .receiver
    | "ordinary" => some .ordinary
    | "stack_temp" => some .stackTemp
    | "handler_ref" => some .handlerRef
    | _ => none

/-- Reads a local; without a role it has the one that its name implies. -/
def Local.reader : Reader Local :=
  record <| (fun name ty role => ⟨name, ty, role.getD (Role.ofName name)⟩) <$>
    required "name" Decoder.text <*> required "ty" Ty.reader <*>
    defaulted "role" none Role.reader.optional

/-- Reads a field reference. -/
def FieldSignature.reader : Reader FieldSignature :=
  record <| FieldSignature.mk <$> required "owner" ClassName.reader <*>
    required "name" Decoder.text <*> required "ty" Ty.reader

/-- Reads a method reference. -/
def MethodSignature.reader : Reader MethodSignature :=
  record <| MethodSignature.mk <$> required "owner" ClassName.reader <*>
    required "name" Decoder.text <*> defaulted "params" [] Ty.reader.list <*>
    required "ret" Ty.reader

/-- Reads the types of a method. -/
def MethodProto.reader : Reader MethodProto :=
  record <| MethodProto.mk <$> defaulted "params" [] Ty.reader.list <*> required "ret" Ty.reader

/-- The handle kind with the given name. -/
def HandleKind.ofName? : String → Option HandleKind
  | "get_field" => some .getField
  | "get_static" => some .getStatic
  | "put_field" => some .putField
  | "put_static" => some .putStatic
  | "invoke_virtual" => some .invokeVirtual
  | "invoke_static" => some .invokeStatic
  | "invoke_special" => some .invokeSpecial
  | "new_invoke_special" => some .newInvokeSpecial
  | "invoke_interface" => some .invokeInterface
  | _ => none

/-- Reads a handle kind. -/
def HandleKind.reader : Reader HandleKind :=
  Decoder.words ofName?

/-- Reads the target of a method handle. -/
def HandleTarget.reader : Reader HandleTarget :=
  Decoder.choice (fun _ => none) fun
    | "field" => some (FieldSignature.reader.map .field)
    | "method" => some (MethodSignature.reader.map .method)
    | _ => none

/-- Reads a method handle, given a reader of its kind. -/
def MethodHandle.readerOf (kind : Reader HandleKind) : Reader MethodHandle :=
  record <| MethodHandle.mk <$> required "kind" kind <*>
    required "target" HandleTarget.reader <*> defaulted "is_interface" false Decoder.bool

/-- Reads a method handle. -/
def MethodHandle.reader : Reader MethodHandle :=
  readerOf HandleKind.reader

/-- Reads a method handle that was kept until it was known to be one. -/
def MethodHandle.keptReader : Reader MethodHandle :=
  readerOf (Decoder.looseWords HandleKind.ofName?)

/-- Reads the kind of a constant, which tells how its value is read; the value may have been kept
until its kind was known. -/
def Constant.kindReader : Reader (Bool → Constant ⊕ Reader Constant) :=
  Decoder.words fun
    | "int" => some fun _ => .inr (Decoder.int32.map .int)
    | "long" => some fun _ => .inr (Decoder.int64.map .long)
    | "float" => some fun _ => .inr (Decoder.single.map .float)
    | "double" => some fun _ => .inr (Decoder.double.map .double)
    | "boolean" => some fun _ => .inr (Decoder.bool.map .boolean)
    | "string" => some fun _ => .inr (Decoder.text.map .string)
    | "class" => some fun _ => .inr (Ty.reader.map .classOf)
    | "null" => some fun _ => .inl .null
    | "method_handle" => some fun kept =>
      .inr ((if kept then MethodHandle.keptReader else MethodHandle.reader).map .methodHandle)
    | "method_type" => some fun _ => .inr (MethodProto.reader.map .methodType)
    | _ => none

/-- Reads a constant, whose kind and value stand side by side. -/
def Constant.reader : Reader Constant :=
  Fields.tagged "kind" "value" Constant.kindReader fun kept kind => kind kept

/-- Reads an operand. -/
def Operand.reader : Reader Operand :=
  Decoder.choice (fun _ => none) fun
    | "local" => some (Local.reader.map .var)
    | "constant" => some (Constant.reader.map .const)
    | _ => none

/-- Reads a binary operator. -/
def BinOp.reader : Reader BinOp :=
  Decoder.words fun
    | "add" => some .add
    | "sub" => some .sub
    | "mul" => some .mul
    | "div" => some .div
    | "rem" => some .rem
    | "and" => some .and
    | "or" => some .or
    | "xor" => some .xor
    | "shl" => some .shl
    | "shr" => some .shr
    | "ushr" => some .ushr
    | "cmp" => some .cmp
    | "cmpl" => some .cmpl
    | "cmpg" => some .cmpg
    | _ => none

/-- Reads a comparison operator. -/
def CmpOp.reader : Reader CmpOp :=
  Decoder.words fun
    | "eq" => some .eq
    | "ne" => some .ne
    | "lt" => some .lt
    | "le" => some .le
    | "gt" => some .gt
    | "ge" => some .ge
    | _ => none

/-- Reads a condition. -/
def Condition.reader : Reader Condition :=
  record <| Condition.mk <$> required "op" CmpOp.reader <*> required "lhs" Operand.reader <*>
    required "rhs" Operand.reader

/-- Reads a field access. -/
def FieldRef.reader : Reader FieldRef :=
  Decoder.choice (fun _ => none) fun
    | "instance" => some <| record <| FieldRef.ofObject <$> required "base" Local.reader <*>
        required "field" FieldSignature.reader
    | "static" => some <| record <| FieldRef.ofClass <$> required "field" FieldSignature.reader
    | _ => none

/-- Reads an array access. -/
def ArrayRef.reader : Reader ArrayRef :=
  record <| ArrayRef.mk <$> required "base" Local.reader <*> required "index" Operand.reader

/-- Reads a list of operands, empty when it is absent. -/
def operandsField (name : String) : Fields Invalid (List Operand) :=
  defaulted name [] Operand.reader.list

/-- Reads a call on a receiver. -/
def Invocation.onReceiver (make : Local → MethodSignature → List Operand → Invocation) :
    Reader Invocation :=
  record <| make <$> required "base" Local.reader <*> required "method" MethodSignature.reader <*>
    operandsField "args"

/-- Reads a call. -/
def Invocation.reader : Reader Invocation :=
  Decoder.choice (fun _ => none) fun
    | "static" => some <| record <| Invocation.static <$>
        required "method" MethodSignature.reader <*> operandsField "args"
    | "special" => some (Invocation.onReceiver .special)
    | "virtual" => some (Invocation.onReceiver .virtual)
    | "interface" => some (Invocation.onReceiver .interface)
    | "dynamic" => some <| record <| Invocation.dynamic <$>
        required "bootstrap" MethodSignature.reader <*> operandsField "bootstrap_args" <*>
        required "method" MethodSignature.reader <*> operandsField "args"
    | _ => none

/-- Reads an expression. -/
def Expr.reader : Reader Expr :=
  Decoder.choice (fun _ => none) fun
    | "immediate" => some (Operand.reader.map .operand)
    | "binary" => some <| record <| Expr.binary <$> required "op" BinOp.reader <*>
        required "lhs" Operand.reader <*> required "rhs" Operand.reader
    | "neg" => some (Operand.reader.map .neg)
    | "cast" => some <| record <| Expr.cast <$> required "op" Operand.reader <*>
        required "ty" Ty.reader
    | "instance_of" => some <| record <| Expr.instanceOf <$> required "op" Operand.reader <*>
        required "check" Ty.reader
    | "new" => some (ClassName.reader.map .new)
    | "new_array" => some <| record <| Expr.newArray <$> required "element" Ty.reader <*>
        required "size" Operand.reader
    | "new_multi_array" => some <| record <| Expr.newMultiArray <$> required "ty" Ty.reader <*>
        required "sizes" Operand.reader.list
    | "length" => some (Operand.reader.map .length)
    | "invoke" => some (Invocation.reader.map .invoke)
    | "field" => some (FieldRef.reader.map .field)
    | "array" => some (ArrayRef.reader.map .element)
    | "phi" => some (Local.reader.list.map .phi)
    | _ => none

/-- Reads the source of an identity statement. -/
def Source.reader : Reader Source :=
  Decoder.choice
    (fun
      | "this" => some .this
      | "caught_exception" => some .caughtException
      | _ => none)
    fun
      | "parameter" => some <| record <| Source.parameter <$>
          required "index" (Decoder.natOfBits 16) <*> required "ty" Ty.reader
      | _ => none

/-- Reads a place. -/
def Place.reader : Reader Place :=
  Decoder.choice (fun _ => none) fun
    | "local" => some (Local.reader.map .var)
    | "field" => some (FieldRef.reader.map .field)
    | "array" => some (ArrayRef.reader.map .element)
    | _ => none

/-- Reads what a statement does. -/
def StmtKind.reader : Reader StmtKind :=
  Decoder.choice
    (fun
      | "return_void" => some .returnVoid
      | "nop" => some .nop
      | "breakpoint" => some .breakpoint
      | _ => none)
    fun
      | "assign" => some <| record <| StmtKind.assign <$> required "lhs" Place.reader <*>
          required "rhs" Expr.reader
      | "identity" => some <| record <| StmtKind.identity <$> required "local" Local.reader <*>
          required "rhs" Source.reader
      | "invoke" => some (Invocation.reader.map .invoke)
      | "if" => some <| record <| StmtKind.branch <$> required "cond" Condition.reader <*>
          required "target" StmtId.reader
      | "goto" => some <| record <| StmtKind.goto <$> required "target" StmtId.reader
      | "switch" => some <| record <| StmtKind.switch <$> required "key" Operand.reader <*>
          required "values" Decoder.int32.list <*> required "targets" StmtId.reader.list <*>
          required "default" StmtId.reader
      | "return" => some (Operand.reader.map .return)
      | "throw" => some (Operand.reader.map .throw)
      | "enter_monitor" => some (Operand.reader.map .enterMonitor)
      | "exit_monitor" => some (Operand.reader.map .exitMonitor)
      | _ => none

/-- Reads a statement. -/
def Stmt.reader : Reader Stmt :=
  record <| Stmt.mk <$> required "id" StmtId.reader <*>
    defaulted "line" none (Decoder.natOfBits 32).optional <*> required "kind" StmtKind.reader

/-- Reads the handler of an exception. -/
def CatchEdge.reader : Reader CatchEdge :=
  record <| CatchEdge.mk <$> required "exception" ClassName.reader <*>
    required "handler" BlockId.reader

/-- Reads a block. -/
def Block.reader : Reader Block :=
  record <| Block.mk <$> required "id" BlockId.reader <*> required "stmts" StmtId.reader.list <*>
    defaulted "successors" [] BlockId.reader.list <*>
    defaulted "exceptional_successors" [] CatchEdge.reader.list

/-- Reads a trap. -/
def Trap.reader : Reader Trap :=
  record <| Trap.mk <$> required "exception" ClassName.reader <*>
    required "begin" StmtId.reader <*> required "end" StmtId.reader <*>
    required "handler" StmtId.reader

/-- The members of a body: without blocks its graph is that of the statements and the traps. -/
def Body.ofMembers (locals : List Local) (stmts : List Stmt) (blocks : Option (List Block))
    (traps : List Trap) : Except Invalid Body :=
  match blocks with
  | some blocks => .ok ⟨locals, stmts, ⟨blocks⟩⟩
  | none => (Body.ofStmts locals stmts traps).mapError .flow

/-- Reads a body. -/
def Body.reader : Reader Body :=
  Decoder.refine
    (record <| Body.ofMembers <$> defaulted "locals" [] Local.reader.list <*>
      required "stmts" Stmt.reader.list <*> defaulted "blocks" none Block.reader.list.optional <*>
      defaulted "traps" [] Trap.reader.list)
    id

/-- Reads a modifier. -/
def Modifier.reader : Reader Modifier :=
  Decoder.words Modifier.ofName?

/-- Reads a set of modifiers. -/
def Modifier.setReader : Reader (List Modifier) :=
  Modifier.reader.list.map Modifier.normalize

/-- Reads an annotation value of at most the given depth. -/
def AnnotationValue.readerTo : Nat → Reader AnnotationValue
  | 0 => fun _ _ => .error .shape
  | depth + 1 =>
    Decoder.choice (fun _ => none) fun
      | "constant" => some (Constant.reader.map .const)
      | "enum" => some <| record <| AnnotationValue.enumConst <$>
          required "ty" ClassName.reader <*> required "name" Decoder.text
      | "class" => some (Ty.reader.map .classOf)
      | "array" => some ((readerTo depth).list.map .array)
      | "annotation" => some <| record <| AnnotationValue.nested <$>
          required "ty" ClassName.reader <*>
          defaulted "elements" [] (Decoder.list <| record <| Prod.mk <$>
            required "name" Decoder.text <*> required "value" (readerTo depth))
      | _ => none

/-- Reads an annotation value. Each level of it takes a container, so that the room for containers
bounds its depth. -/
def AnnotationValue.reader : Reader AnnotationValue :=
  fun room => AnnotationValue.readerTo (room + 1) room

/-- Reads a field. -/
def Field.reader : Reader Field :=
  record <| Field.mk <$> required "name" Decoder.text <*> required "ty" Ty.reader <*>
    defaulted "modifiers" [] Modifier.setReader <*>
    defaulted "constant" none Constant.reader.optional

/-- Reads a method. -/
def Method.reader : Reader Method :=
  record <| Method.mk <$> required "name" Decoder.text <*>
    defaulted "modifiers" [] Modifier.setReader <*> defaulted "params" [] Ty.reader.list <*>
    required "ret" Ty.reader <*> defaulted "exceptions" [] ClassName.reader.list <*>
    defaulted "body" none Body.reader.optional <*>
    defaulted "annotation_default" none AnnotationValue.reader.optional

/-- Reads a class. -/
def Class.reader : Reader Class :=
  record <| Class.mk <$> required "name" ClassName.reader <*>
    defaulted "super_class" none ClassName.reader.optional <*>
    defaulted "interfaces" [] ClassName.reader.list <*>
    defaulted "modifiers" [] Modifier.setReader <*>
    defaulted "fields" [] Field.reader.list <*> defaulted "methods" [] Method.reader.list

/-- Reads the value of a text, which must be all of it. -/
def ofDocument {α : Type} (d : Reader α) (doc : Json.Document) : Except (Fault Invalid) α := do
  let x ← d nestingLimit doc.root
  if doc.complete then return x else .error .shape

/-- The class that a JSON value describes. -/
def Class.ofJson (j : Json) : Except (Fault Invalid) Class :=
  Class.reader nestingLimit j

/-- The class that a text describes. -/
def Class.ofText (text : String) : Except (Fault Invalid) Class :=
  ofDocument Class.reader (.ofText text)

end BytecodeLowering.Ir
