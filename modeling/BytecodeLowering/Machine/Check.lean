import BytecodeLowering.Machine.Image

/-!
# Checking class images

The conditions under which an assembled class can be stored.

* `FormatError`: which condition a class or a file of one does not meet.
* `MethodImage.check`: each label is bound at most once, every label that is named is bound, local
  variables lie in the frame, the element types of new arrays exist, and switches have as many
  labels as keys, which ascend.
* `ClassImage.check`: the class has a name, its methods differ in name or descriptor, and each of
  them passes.
-/

namespace BytecodeLowering.Machine

/-- Why a class cannot be stored, or bytes are not the file of a class. -/
inductive FormatError where
  /-- The file ends within its header. -/
  | shortHeader
  /-- The file does not start with the mark of artifacts. -/
  | badMagic
  /-- The file has a version that is not read. -/
  | badVersion (found expected : Nat)
  /-- The payload has a version other than the file. -/
  | payloadVersion (found expected : Nat)
  /-- A class is finished that was not declared. -/
  | undeclared
  /-- The class has no name. -/
  | unnamed
  /-- Two methods have the same name and descriptor. -/
  | duplicateMethod (method : String)
  /-- A label is bound twice. -/
  | boundTwice (method : String) (l : Label)
  /-- A branch goes to a label that is not bound. -/
  | unboundTarget (method : String) (l : Label)
  /-- A local variable lies outside the frame. -/
  | localOutside (method : String) (slot locals : Nat)
  /-- The element type of a new array does not exist. -/
  | badArrayKind (method : String) (code : Int)
  /-- The keys of a table do not fit its labels. -/
  | tableLength (method : String)
  /-- The keys of a lookup do not fit its labels. -/
  | lookupLength (method : String)
  /-- The keys of a lookup do not ascend. -/
  | lookupOrder (method : String)
  /-- A line starts at a label that is not bound. -/
  | unboundLine (method : String) (l : Label)
  /-- The exception table names a label that is not bound. -/
  | unboundGuard (method : String) (l : Label)
  deriving DecidableEq, Repr

/-- The wording of a format error. -/
def FormatError.message : FormatError → String
  | shortHeader => "artifact header too short"
  | badMagic => "invalid artifact magic"
  | badVersion found expected =>
    "unsupported artifact version " ++ toString found ++ ", expected " ++ toString expected
  | payloadVersion found expected =>
    "artifact payload version " ++ toString found ++ " does not match expected " ++
      toString expected
  | undeclared => "class header was never declared"
  | unnamed => "class has no name"
  | duplicateMethod m => "duplicate method " ++ m
  | boundTwice m l => "method " ++ m ++ " binds " ++ l.render ++ " twice"
  | unboundTarget m l => "method " ++ m ++ " jumps to unbound " ++ l.render
  | localOutside m slot locals =>
    "method " ++ m ++ " uses local " ++ toString slot ++ " but max_locals is " ++ toString locals
  | badArrayKind m code => "method " ++ m ++ " has invalid newarray type " ++ toString code
  | tableLength m => "method " ++ m ++ " has tableswitch length mismatch"
  | lookupLength m => "method " ++ m ++ " has lookupswitch length mismatch"
  | lookupOrder m => "method " ++ m ++ " has unsorted lookupswitch keys"
  | unboundLine m l => "method " ++ m ++ " has line number at unbound " ++ l.render
  | unboundGuard m l => "method " ++ m ++ " try/catch uses unbound " ++ l.render

/-- Whether each key is less than the next one. -/
def ascending : List Int32 → Bool
  | a :: b :: rest => a.toInt < b.toInt && ascending (b :: rest)
  | _ => true

/-- The first of some labels that is not among the bound ones. -/
def firstUnbound? (bound : List Label) (ls : List Label) : Option Label :=
  ls.find? fun l => l ∉ bound

/-- Checks an instruction of a method with the given bound labels and number of local variables. -/
def Insn.check (bound : List Label) (locals : Nat) (method : String) (i : Insn) :
    Except FormatError Unit := do
  if let some l := firstUnbound? bound i.targets then throw (.unboundTarget method l)
  match i with
  | .var op slot =>
    if locals < slotEnd slot (op.varWidth?.getD 1) then throw (.localOutside method slot locals)
  | .int .newarray operand =>
    if (ArrayKind.ofCode? operand.toInt).isNone then throw (.badArrayKind method operand.toInt)
  | .tableSwitch min max _ labels =>
    if max.toInt - min.toInt + 1 ≠ labels.length then throw (.tableLength method)
  | .lookupSwitch _ keys labels =>
    if keys.length ≠ labels.length then throw (.lookupLength method)
    if !ascending keys then throw (.lookupOrder method)
  | .lineNumber _ start =>
    if start ∉ bound then throw (.unboundLine method start)
  | _ => pure ()

/-- Checks an entry of the exception table, with the labels that are bound. -/
def Guard.check (bound : List Label) (method : String) (g : Guard) : Except FormatError Unit := do
  if let some l := firstUnbound? bound g.labels then throw (.unboundGuard method l)

/-- Checks the code of the method with the given name and descriptor. -/
def MethodCode.check (method : String) (c : MethodCode) : Except FormatError Unit := do
  let bound := c.insns.filterMap Insn.bound?
  if let some l := firstRepeat? bound then throw (.boundTwice method l)
  c.insns.forM (Insn.check bound c.sizes.locals method)
  c.guards.forM (Guard.check bound method)

/-- The name of a method with its descriptor. -/
def MethodHeader.title (h : MethodHeader) : String :=
  h.name ++ h.desc

/-- Checks a method. -/
def MethodImage.check (m : MethodImage) : Except FormatError Unit :=
  match m.code with
  | some c => c.check m.header.title
  | none => .ok ()

/-- Checks methods, none of which may have the name and the descriptor of one before it. -/
def checkMethods (seen : List (String × String)) : List MethodImage → Except FormatError Unit
  | [] => .ok ()
  | m :: ms => do
    let key := (m.header.name, m.header.desc)
    if key ∈ seen then throw (.duplicateMethod m.header.title)
    m.check
    checkMethods (key :: seen) ms

/-- Checks a class. -/
def ClassImage.check (c : ClassImage) : Except FormatError Unit := do
  if c.header.name = "" then throw .unnamed
  checkMethods [] c.methods

end BytecodeLowering.Machine
