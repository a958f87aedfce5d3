import BytecodeLowering.Ir.Expr

/-!
# Statements

Three-address statements and what they do with control and with locals.

* `StmtId`: the number by which branches name a statement.
* `StmtKind`, `Stmt`: a statement, and a statement with its number and its source line.
* `StmtKind.targets`, `fallsThrough`, `endsBlock`: where control goes.
* `StmtKind.def?`, `uses`: the local that is written and the locals that are read.
-/

namespace BytecodeLowering.Ir

/-- The number of a statement. -/
structure StmtId where
  /-- The number. -/
  val : Nat
  deriving DecidableEq, Repr, Inhabited

/-- The text of a statement number. -/
def StmtId.render (s : StmtId) : String :=
  "s" ++ toString s.val

/-- A statement without its number. -/
inductive StmtKind where
  /-- Assigns a value to a place. -/
  | assign (lhs : Place) (rhs : Expr)
  /-- Binds a local to what the method was entered with. -/
  | identity (l : Local) (rhs : Source)
  /-- Calls a method and drops its result. -/
  | invoke (call : Invocation)
  /-- Branches if a condition holds. -/
  | branch (cond : Condition) (target : StmtId)
  /-- Branches always. -/
  | goto (target : StmtId)
  /-- Branches to the target of the value that a key is equal to. -/
  | switch (key : Operand) (values : List Int32) (targets : List StmtId) (default : StmtId)
  /-- Leaves the method with a value. -/
  | return (op : Operand)
  /-- Leaves the method without a value. -/
  | returnVoid
  /-- Throws an exception. -/
  | throw (op : Operand)
  /-- Acquires the lock of an object. -/
  | enterMonitor (op : Operand)
  /-- Releases the lock of an object. -/
  | exitMonitor (op : Operand)
  /-- Does nothing. -/
  | nop
  /-- Stops in a debugger. -/
  | breakpoint
  deriving DecidableEq, Repr

namespace StmtKind

/-- The name of the kind of statement. -/
def kindName : StmtKind → String
  | assign .. => "assign"
  | identity .. => "identity"
  | invoke _ => "invoke"
  | branch .. => "if"
  | goto _ => "goto"
  | switch .. => "switch"
  | .return _ => "return"
  | returnVoid => "return_void"
  | throw _ => "throw"
  | enterMonitor _ => "enter_monitor"
  | exitMonitor _ => "exit_monitor"
  | nop => "nop"
  | breakpoint => "breakpoint"

/-- The statements that the statement may branch to, in the order of its text; the default of a
switch comes last. -/
def targets : StmtKind → List StmtId
  | branch _ target | goto target => [target]
  | switch _ _ targets default => targets ++ [default]
  | _ => []

/-- Whether control may go on with the next statement. -/
def fallsThrough : StmtKind → Bool
  | goto _ | switch .. | .return _ | returnVoid | throw _ => false
  | _ => true

/-- Whether no statement behind it belongs to the same block. -/
def endsBlock : StmtKind → Bool
  | branch .. => true
  | k => !k.fallsThrough

/-- Whether the statement leaves the method regularly. -/
def isReturn : StmtKind → Bool
  | .return _ | returnVoid => true
  | _ => false

/-- Control only goes on to the next statement behind one that does not end a block. -/
theorem straight_of_not_endsBlock {k : StmtKind} (h : k.endsBlock = false) :
    k.fallsThrough = true ∧ k.targets = [] := by
  cases k <;> simp_all [endsBlock, fallsThrough, targets]

/-- Control goes to no other statement from one that leaves the method. -/
theorem leaves_of_isReturn {k : StmtKind} (h : k.isReturn = true) :
    k.fallsThrough = false ∧ k.targets = [] := by
  cases k <;> simp_all [isReturn, fallsThrough, targets]

/-- The local that the statement writes, if there is one. -/
def def? : StmtKind → Option Local
  | assign lhs _ => lhs.local?
  | identity l _ => some l
  | _ => none

/-- The locals that the statement reads. -/
def uses : StmtKind → List Local
  | assign lhs rhs => lhs.uses ++ rhs.uses
  | invoke call => call.uses
  | branch cond _ => cond.uses
  | switch key _ _ _ => localsOf [key]
  | .return op | throw op | enterMonitor op | exitMonitor op => localsOf [op]
  | identity .. | goto _ | returnVoid | nop | breakpoint => []

/-- The text of one case of a switch. -/
def renderCase (value : Int32) (target : StmtId) : String :=
  "case " ++ toString value.toInt ++ ": goto " ++ target.render ++ ";"

/-- The text of a statement. -/
def render : StmtKind → String
  | assign lhs rhs => lhs.render ++ " = " ++ rhs.render
  | identity l rhs => l.render ++ " := " ++ rhs.render
  | invoke call => call.render
  | branch cond target => "if " ++ cond.render ++ " goto " ++ target.render
  | goto target => "goto " ++ target.render
  | switch key values targets default =>
    "switch(" ++ key.render ++ ") \x7b " ++
      String.intercalate " " (List.zipWith renderCase values targets) ++ " default: goto " ++
      default.render ++ " \x7d"
  | .return op => "return " ++ op.render
  | returnVoid => "return"
  | throw op => "throw " ++ op.render
  | enterMonitor op => "entermonitor " ++ op.render
  | exitMonitor op => "exitmonitor " ++ op.render
  | nop => "nop"
  | breakpoint => "breakpoint"

end StmtKind

/-- A statement of a body. -/
structure Stmt where
  /-- Its number. -/
  id : StmtId
  /-- Its line in the source text, if known. -/
  line : Option Nat
  /-- What it does. -/
  kind : StmtKind
  deriving DecidableEq, Repr

end BytecodeLowering.Ir
