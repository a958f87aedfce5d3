import BytecodeLowering.Ir.Flow

/-!
# Method bodies

* `Body`: the locals, the statements and the block graph of a method.
* `Body.stmt?`, `Body.position?`: looking up a statement; of several with one number the first.
* `Body.defs`, `Body.usesLocal`: the locals that are written, and whether a local is read.
* `Builder`: a body under construction, whose statements are numbered from zero.
-/

namespace BytecodeLowering.Ir

/-- The body of a method. -/
structure Body where
  /-- The declared locals. -/
  locals : List Local
  /-- The statements in the order of the text. -/
  stmts : List Stmt
  /-- The block graph over the statements. -/
  flow : Flow
  deriving DecidableEq, Repr

namespace Body

/-- The body whose graph is that of its statements. -/
def ofStmts (locals : List Local) (stmts : List Stmt) (traps : List Trap) :
    Except FlowError Body :=
  (Flow.ofStmts stmts traps).map fun flow => ⟨locals, stmts, flow⟩

/-- The statement with the given number. -/
def stmt? (b : Body) (id : StmtId) : Option Stmt :=
  b.stmts.find? fun s => s.id = id

/-- The place of the statement with the given number. -/
def position? (b : Body) (id : StmtId) : Option Nat :=
  Flow.position? b.stmts id

/-- The locals that are written, each once, in the order of their first assignment. -/
def defs (b : Body) : List Local :=
  (b.stmts.filterMap fun s => s.kind.def?).eraseDups

/-- Whether some statement reads the local. -/
def usesLocal (b : Body) (l : Local) : Bool :=
  b.stmts.any fun s => l ∈ s.kind.uses

end Body

/-- A body under construction. -/
structure Builder where
  /-- The locals declared so far. -/
  locals : List Local := []
  /-- The statements so far. -/
  stmts : List Stmt := []
  /-- The traps so far. -/
  traps : List Trap := []

namespace Builder

/-- Declares a local, once. -/
def declare (b : Builder) (l : Local) : Builder :=
  if l ∈ b.locals then b else { b with locals := b.locals ++ [l] }

/-- Adds a statement under the next number. -/
def push (b : Builder) (kind : StmtKind) (line : Option Nat) : Builder :=
  { b with stmts := b.stmts ++ [⟨⟨b.stmts.length⟩, line, kind⟩] }

/-- Adds a trap. -/
def trap (b : Builder) (t : Trap) : Builder :=
  { b with traps := b.traps ++ [t] }

/-- The finished body. -/
def build (b : Builder) : Except FlowError Body :=
  Body.ofStmts b.locals b.stmts b.traps

end Builder

end BytecodeLowering.Ir
