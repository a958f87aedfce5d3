import BytecodeLowering.Ir.Stmt
import BytecodeLowering.Repeat

/-!
# Block graphs

Statement lists cut into basic blocks, with the blocks that control goes on to.

* `Block`, `Flow`: a basic block with its successors and its handlers, and a graph of them.
* `Flow.block?`, `Flow.owner?`: looking up a block by its number and by one of its statements.
* `Trap`: a protected range of a statement list.
* `Flow.ofStmts`: the graph of a statement list. A block starts at the first statement, at every
  statement that a branch or a trap names, and behind every statement that ends a block.
-/

namespace BytecodeLowering.Ir

/-- The number of a block. -/
structure BlockId where
  /-- The number. -/
  val : Nat
  deriving DecidableEq, Repr, Inhabited

/-- The text of a block number. -/
def BlockId.render (b : BlockId) : String :=
  "bb" ++ toString b.val

/-- The handler that an exception of a block is caught by. -/
structure CatchEdge where
  /-- The class of the exceptions that are caught. -/
  exception : ClassName
  /-- The block that handles them. -/
  handler : BlockId
  deriving DecidableEq, Repr

/-- A basic block. -/
structure Block where
  /-- Its number. -/
  id : BlockId
  /-- The numbers of its statements. -/
  stmts : List StmtId
  /-- The blocks that control may go on to. -/
  successors : List BlockId
  /-- The handlers of its exceptions, in the order in which they are tried. -/
  catches : List CatchEdge
  deriving DecidableEq, Repr

namespace Block

/-- The first statement. -/
def head? (b : Block) : Option StmtId :=
  b.stmts.head?

/-- The last statement. -/
def tail? (b : Block) : Option StmtId :=
  b.stmts.getLast?

end Block

/-- A protected range of a statement list. -/
structure Trap where
  /-- The class of the exceptions that are caught. -/
  exception : ClassName
  /-- The first statement of the range. -/
  start : StmtId
  /-- The statement behind the range. -/
  stop : StmtId
  /-- The first statement of the handler. -/
  handler : StmtId
  deriving DecidableEq, Repr

/-- The statements that a trap names. -/
def Trap.bounds (t : Trap) : List StmtId :=
  [t.start, t.stop, t.handler]

/-- Why a statement list has no block graph. -/
inductive FlowError where
  /-- Two statements have the same number. -/
  | duplicate (id : StmtId)
  /-- A branch or a trap names a statement that does not exist. -/
  | undefined (id : StmtId)
  deriving DecidableEq, Repr

/-- The wording of a graph error. -/
def FlowError.message : FlowError → String
  | duplicate id => "duplicate statement id " ++ id.render
  | undefined id => "statement " ++ id.render ++ " is referenced but not defined"

/-- A block graph. -/
structure Flow where
  /-- The blocks. -/
  blocks : List Block
  deriving DecidableEq, Repr

namespace Flow

/-- The first block with the given number. -/
def block? (g : Flow) (id : BlockId) : Option Block :=
  g.blocks.find? fun b => b.id = id

/-- The number of the last block that lists the given statement. -/
def owner? (g : Flow) (s : StmtId) : Option BlockId :=
  (g.blocks.reverse.find? fun b => s ∈ b.stmts).map Block.id

/-- The place of the first statement with the given number. -/
def position? (stmts : List Stmt) (id : StmtId) : Option Nat :=
  stmts.findIdx? fun s => s.id = id

/-- The statements that branches and traps name, branches first. -/
def named (stmts : List Stmt) (traps : List Trap) : List StmtId :=
  stmts.flatMap (fun s => s.kind.targets) ++ traps.flatMap Trap.bounds

/-- Whether a block starts at the given place of a statement list. -/
def isLeader (stmts : List Stmt) (traps : List Trap) (i : Nat) : Bool :=
  i = 0 ||
    (stmts[i]?.any fun s => s.id ∈ named stmts traps) ||
    (stmts[i - 1]?.any fun s => s.kind.endsBlock)

/-- The statements with their places, cut before every leader. -/
def segments (stmts : List Stmt) (traps : List Trap) : List (List (Stmt × Nat)) :=
  stmts.zipIdx.splitBy fun _ s => !isLeader stmts traps s.2

/-- The number of the segment with the given statement. -/
def segmentOf? (segs : List (List (Stmt × Nat))) (id : StmtId) : Option BlockId :=
  (segs.findIdx? fun seg => seg.any fun s => s.1.id = id).map BlockId.mk

/-- Whether a place lies in the range of a trap. -/
def covers (stmts : List Stmt) (i : Nat) (t : Trap) : Bool :=
  match position? stmts t.start, position? stmts t.stop with
  | some b, some e => b ≤ i && i < e
  | _, _ => false

/-- The block of one segment: control goes on behind its last statement, if that falls through, and
to the targets of that statement. The traps around its first statement protect it. -/
def blockOf (stmts : List Stmt) (traps : List Trap) (segs : List (List (Stmt × Nat)))
    (ordinal : Nat) (seg : List (Stmt × Nat)) : Block where
  id := ⟨ordinal⟩
  stmts := seg.map fun s => s.1.id
  successors :=
    match seg.getLast? with
    | none => []
    | some (last, _) =>
      -- The block behind comes first among the successors, before the targets.
      let next := if last.kind.fallsThrough ∧ ordinal + 1 < segs.length then [⟨ordinal + 1⟩] else []
      (next ++ last.kind.targets.filterMap (segmentOf? segs)).eraseDups
  catches :=
    match seg.head? with
    | none => []
    | some (_, i) =>
      ((traps.filter (covers stmts i)).filterMap fun t =>
        (segmentOf? segs t.handler).map fun h => ⟨t.exception, h⟩).eraseDups

/-- The block graph of a statement list with protected ranges. The statements must have numbers of
their own, and branches and traps must name statements of the list. -/
def ofStmts (stmts : List Stmt) (traps : List Trap) : Except FlowError Flow :=
  match firstRepeat? (stmts.map Stmt.id) with
  | some id => .error (.duplicate id)
  | none =>
    match (named stmts traps).find? fun id => (position? stmts id).isNone with
    | some id => .error (.undefined id)
    | none =>
      let segs := segments stmts traps
      .ok ⟨segs.zipIdx.map fun (seg, ordinal) => blockOf stmts traps segs ordinal seg⟩

end Flow

end BytecodeLowering.Ir
