import BytecodeLowering.Ir.Class
import BytecodeLowering.Json.Basic

/-!
# Writing three-address code

The JSON form of classes and their parts, with every member written out; only the line of a
statement that has none is left out. Floating-point values of both widths are written as 64-bit
ones; those that are no numbers become `null`.

* `Class.toJson`: the JSON value of a class, and likewise for each of its parts.
-/

namespace BytecodeLowering.Ir

/-- An alternative with something to carry. -/
def alternative (name : String) (content : Json) : Json :=
  .record [(name, content)]

/-- A class name as a string. -/
def ClassName.toJson (n : ClassName) : Json :=
  .ofString n.text

/-- A type as its spelling. -/
def Ty.toJson (t : Ty) : Json :=
  .ofString t.render

/-- The number of a statement. -/
def StmtId.toJson (s : StmtId) : Json :=
  .ofNat s.val

/-- The number of a block. -/
def BlockId.toJson (b : BlockId) : Json :=
  .ofNat b.val

/-- The name of a role. -/
def Role.name : Role → String
  | receiver => "receiver"
  | ordinary => "ordinary"
  | stackTemp => "stack_temp"
  | handlerRef => "handler_ref"

/-- The JSON form of a local. -/
def Local.toJson (l : Local) : Json :=
  .record [("name", .ofString l.name), ("ty", l.ty.toJson), ("role", .ofString l.role.name)]

/-- The JSON form of a field reference. -/
def FieldSignature.toJson (f : FieldSignature) : Json :=
  .record [("owner", f.owner.toJson), ("name", .ofString f.name), ("ty", f.ty.toJson)]

/-- The JSON form of a method reference. -/
def MethodSignature.toJson (m : MethodSignature) : Json :=
  .record [("owner", m.owner.toJson), ("name", .ofString m.name),
    ("params", .ofList Ty.toJson m.params), ("ret", m.ret.toJson)]

/-- The JSON form of the types of a method. -/
def MethodProto.toJson (p : MethodProto) : Json :=
  .record [("params", .ofList Ty.toJson p.params), ("ret", p.ret.toJson)]

/-- The JSON form of the target of a method handle. -/
def HandleTarget.toJson : HandleTarget → Json
  | field f => alternative "field" f.toJson
  | method m => alternative "method" m.toJson

/-- The JSON form of a method handle. -/
def MethodHandle.toJson (h : MethodHandle) : Json :=
  .record [("kind", .ofString h.kind.name), ("target", h.target.toJson),
    ("is_interface", .bool h.isInterface)]

/-- The JSON form of a floating-point value. -/
def floatJson (x : Number.Double) : Json :=
  match Numeral.ofParts? x.parts with
  | some n => .number n
  | none => .null

/-- The value of a constant, if it has one. -/
def Constant.valueJson? : Constant → Option Json
  | int v => some (.ofInt v.toInt)
  | long v => some (.ofInt v.toInt)
  | float v => some (floatJson v.toDouble)
  | double v => some (floatJson v)
  | boolean v => some (.bool v)
  | string v => some (.ofString v)
  | classOf t => some t.toJson
  | null => none
  | methodHandle h => some h.toJson
  | methodType p => some p.toJson

/-- The JSON form of a constant. -/
def Constant.toJson (c : Constant) : Json :=
  .record <| ("kind", .ofString c.kindName) :: c.valueJson?.toList.map fun v => ("value", v)

/-- The JSON form of an operand. -/
def Operand.toJson : Operand → Json
  | var l => alternative "local" l.toJson
  | const c => alternative "constant" c.toJson

/-- The name of a binary operator. -/
def BinOp.name : BinOp → String
  | add => "add"
  | sub => "sub"
  | mul => "mul"
  | div => "div"
  | rem => "rem"
  | and => "and"
  | or => "or"
  | xor => "xor"
  | shl => "shl"
  | shr => "shr"
  | ushr => "ushr"
  | cmp => "cmp"
  | cmpl => "cmpl"
  | cmpg => "cmpg"

/-- The name of a comparison operator. -/
def CmpOp.name : CmpOp → String
  | eq => "eq"
  | ne => "ne"
  | lt => "lt"
  | le => "le"
  | gt => "gt"
  | ge => "ge"

/-- The JSON form of a condition. -/
def Condition.toJson (c : Condition) : Json :=
  .record [("op", .ofString c.op.name), ("lhs", c.lhs.toJson), ("rhs", c.rhs.toJson)]

/-- The JSON form of a field access. -/
def FieldRef.toJson : FieldRef → Json
  | ofObject b f => alternative "instance" (.record [("base", b.toJson), ("field", f.toJson)])
  | ofClass f => alternative "static" (.record [("field", f.toJson)])

/-- The JSON form of an array access. -/
def ArrayRef.toJson (a : ArrayRef) : Json :=
  .record [("base", a.base.toJson), ("index", a.index.toJson)]

/-- The JSON form of a list of operands. -/
def operandsJson (ops : List Operand) : Json :=
  .ofList Operand.toJson ops

/-- The members of a call on a receiver. -/
def receiverJson (b : Local) (m : MethodSignature) (as : List Operand) : Json :=
  .record [("base", b.toJson), ("method", m.toJson), ("args", operandsJson as)]

/-- The JSON form of a call. -/
def Invocation.toJson : Invocation → Json
  | static m as => alternative "static" (.record [("method", m.toJson), ("args", operandsJson as)])
  | special b m as => alternative "special" (receiverJson b m as)
  | virtual b m as => alternative "virtual" (receiverJson b m as)
  | interface b m as => alternative "interface" (receiverJson b m as)
  | dynamic boot bootArgs m as =>
    alternative "dynamic" (.record [("bootstrap", boot.toJson),
      ("bootstrap_args", operandsJson bootArgs), ("method", m.toJson), ("args", operandsJson as)])

/-- The JSON form of an expression. -/
def Expr.toJson (e : Expr) : Json :=
  alternative e.kindName <|
    match e with
    | operand op | neg op | length op => op.toJson
    | binary op lhs rhs =>
      .record [("op", .ofString op.name), ("lhs", lhs.toJson), ("rhs", rhs.toJson)]
    | cast op ty => .record [("op", op.toJson), ("ty", ty.toJson)]
    | instanceOf op check => .record [("op", op.toJson), ("check", check.toJson)]
    | new n => n.toJson
    | newArray ty size => .record [("element", ty.toJson), ("size", size.toJson)]
    | newMultiArray ty sizes => .record [("ty", ty.toJson), ("sizes", operandsJson sizes)]
    | invoke call => call.toJson
    | field f => f.toJson
    | element a => a.toJson
    | phi locals => .ofList Local.toJson locals

/-- The JSON form of the source of an identity statement. -/
def Source.toJson : Source → Json
  | this => .ofString "this"
  | parameter index ty =>
    alternative "parameter" (.record [("index", .ofNat index), ("ty", ty.toJson)])
  | caughtException => .ofString "caught_exception"

/-- The JSON form of a place. -/
def Place.toJson : Place → Json
  | var l => alternative "local" l.toJson
  | field f => alternative "field" f.toJson
  | element a => alternative "array" a.toJson

/-- The JSON form of what a statement does. -/
def StmtKind.toJson : StmtKind → Json
  | assign lhs rhs => alternative "assign" (.record [("lhs", lhs.toJson), ("rhs", rhs.toJson)])
  | identity l rhs => alternative "identity" (.record [("local", l.toJson), ("rhs", rhs.toJson)])
  | invoke call => alternative "invoke" call.toJson
  | branch cond target =>
    alternative "if" (.record [("cond", cond.toJson), ("target", target.toJson)])
  | goto target => alternative "goto" (.record [("target", target.toJson)])
  | switch key values targets default =>
    alternative "switch" (.record [("key", key.toJson),
      ("values", .ofList (fun v => .ofInt v.toInt) values),
      ("targets", .ofList StmtId.toJson targets), ("default", default.toJson)])
  | .return op => alternative "return" op.toJson
  | returnVoid => .ofString "return_void"
  | throw op => alternative "throw" op.toJson
  | enterMonitor op => alternative "enter_monitor" op.toJson
  | exitMonitor op => alternative "exit_monitor" op.toJson
  | nop => .ofString "nop"
  | breakpoint => .ofString "breakpoint"

/-- The JSON form of a statement. -/
def Stmt.toJson (s : Stmt) : Json :=
  .record <| ("id", s.id.toJson) ::
    (s.line.toList.map fun line => ("line", .ofNat line)) ++ [("kind", s.kind.toJson)]

/-- The JSON form of the handler of an exception. -/
def CatchEdge.toJson (e : CatchEdge) : Json :=
  .record [("exception", e.exception.toJson), ("handler", e.handler.toJson)]

/-- The JSON form of a block. -/
def Block.toJson (b : Block) : Json :=
  .record [("id", b.id.toJson), ("stmts", .ofList StmtId.toJson b.stmts),
    ("successors", .ofList BlockId.toJson b.successors),
    ("exceptional_successors", .ofList CatchEdge.toJson b.catches)]

/-- The JSON form of a body. -/
def Body.toJson (b : Body) : Json :=
  .record [("locals", .ofList Local.toJson b.locals), ("stmts", .ofList Stmt.toJson b.stmts),
    ("blocks", .ofList Block.toJson b.flow.blocks)]

mutual

/-- The JSON form of an annotation value. -/
def AnnotationValue.toJson : AnnotationValue → Json
  | const c => alternative "constant" c.toJson
  | enumConst ty name =>
    alternative "enum" (.record [("ty", ty.toJson), ("name", .ofString name)])
  | classOf ty => alternative "class" ty.toJson
  | array values => alternative "array" (.array (AnnotationValue.listJson values))
  | nested ty elements =>
    alternative "annotation"
      (.record [("ty", ty.toJson), ("elements", .array (AnnotationValue.elementsJson elements))])

/-- The JSON forms of annotation values. -/
def AnnotationValue.listJson : List AnnotationValue → List Json
  | [] => []
  | v :: vs => v.toJson :: AnnotationValue.listJson vs

/-- The JSON forms of annotation elements. -/
def AnnotationValue.elementsJson : List (String × AnnotationValue) → List Json
  | [] => []
  | (name, v) :: es =>
    .record [("name", .ofString name), ("value", v.toJson)] :: AnnotationValue.elementsJson es

end

/-- The JSON form of a set of modifiers. -/
def modifiersJson (ms : List Modifier) : Json :=
  .ofList (fun m => .ofString m.name) ms

/-- The JSON form of a field. -/
def Field.toJson (f : Field) : Json :=
  .record [("name", .ofString f.name), ("ty", f.ty.toJson),
    ("modifiers", modifiersJson f.modifiers), ("constant", .ofOption Constant.toJson f.constant)]

/-- The JSON form of a method. -/
def Method.toJson (m : Method) : Json :=
  .record [("name", .ofString m.name), ("modifiers", modifiersJson m.modifiers),
    ("params", .ofList Ty.toJson m.params), ("ret", m.ret.toJson),
    ("exceptions", .ofList ClassName.toJson m.exceptions),
    ("body", .ofOption Body.toJson m.body),
    ("annotation_default", .ofOption AnnotationValue.toJson m.annotationDefault)]

/-- The JSON form of a class. -/
def Class.toJson (c : Class) : Json :=
  .record [("name", c.name.toJson), ("super_class", .ofOption ClassName.toJson c.superClass),
    ("interfaces", .ofList ClassName.toJson c.interfaces),
    ("modifiers", modifiersJson c.modifiers), ("fields", .ofList Field.toJson c.fields),
    ("methods", .ofList Method.toJson c.methods)]

end BytecodeLowering.Ir
