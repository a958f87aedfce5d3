import BytecodeLowering.Machine.Image
import BytecodeLowering.Text.Hex

/-!
# Listings

The text of an assembled class, one line for each declaration, instruction and entry of an
exception table.

* `ElementValue.render`, `MethodImage.render`, `ClassImage.render`: the texts.
-/

namespace BytecodeLowering.Machine

/-- Names with commas between them. -/
def renderNames (names : List String) : String :=
  String.intercalate ", " names

/-- Access flags with four digits. -/
def renderAccess (access : UInt16) : String :=
  "access 0x" ++ Text.Hex.padded 4 access.toNat

mutual

/-- The text of an annotation value. -/
def ElementValue.render : ElementValue → String
  | boolean v => if v then "true" else "false"
  | int v => toString v.toInt
  | long v => toString v.toInt ++ "L"
  | float v => renderSingle v
  | double v => renderDouble v
  | str v => Text.quoted v
  | enumConst desc name => desc ++ "." ++ name
  | classOf desc => desc ++ ".class"
  | array values => "\x7b" ++ renderNames (ElementValue.renderList values) ++ "\x7d"
  | nested desc values =>
    "@" ++ desc ++ "(" ++ renderNames (ElementValue.renderPairs values) ++ ")"

/-- The texts of annotation values. -/
def ElementValue.renderList : List ElementValue → List String
  | [] => []
  | v :: vs => v.render :: ElementValue.renderList vs

/-- The texts of named annotation values. -/
def ElementValue.renderPairs : List (String × ElementValue) → List String
  | [] => []
  | (name, v) :: ps => (name ++ "=" ++ v.render) :: ElementValue.renderPairs ps

end

/-- The line of an instruction; labels stand further left. -/
def Insn.line (i : Insn) : String :=
  (if i.bound?.isSome then "   " else "    ") ++ i.render ++ "\n"

/-- The lines of the code of a method behind its header. -/
def MethodCode.render (c : MethodCode) : String :=
  " stack " ++ toString c.sizes.stack ++ " locals " ++ toString c.sizes.locals ++ "\n" ++
    String.join (c.insns.map Insn.line) ++
    String.join (c.guards.map fun g => "    try " ++ g.render ++ "\n")

/-- The lines of a method. -/
def MethodImage.render (m : MethodImage) : String :=
  "  method " ++ m.header.name ++ m.header.desc ++ " (" ++ renderAccess m.header.access ++ ")" ++
    (if m.header.exceptions.isEmpty then "" else " throws " ++ renderNames m.header.exceptions) ++
    (match m.code with
      | some c => c.render
      | none => "\n") ++
    (match m.annotationDefault with
      | some v => "    default " ++ v.render ++ "\n"
      | none => "")

/-- The line of a field. -/
def FieldDecl.render (f : FieldDecl) : String :=
  "  field " ++ f.name ++ " " ++ f.desc ++ " (" ++ renderAccess f.access ++ ")" ++
    (match f.constant with
      | some c => " = " ++ c.render
      | none => "") ++ "\n"

/-- The first line of a class. -/
def ClassHeader.render (h : ClassHeader) : String :=
  "class " ++ h.name ++ " (version " ++ toString h.version.toNat ++ ", " ++
    renderAccess h.access ++ ")" ++
    (match h.superName with
      | some s => " extends " ++ s
      | none => "") ++
    (if h.interfaces.isEmpty then "" else " implements " ++ renderNames h.interfaces) ++ " \x7b\n"

/-- The lines of a class. -/
def ClassImage.render (c : ClassImage) : String :=
  c.header.render ++ String.join (c.fields.map FieldDecl.render) ++
    String.join (c.methods.map MethodImage.render) ++ "\x7d\n"

end BytecodeLowering.Machine
