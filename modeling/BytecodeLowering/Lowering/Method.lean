import BytecodeLowering.Lowering.Options
import BytecodeLowering.Lowering.Stmt
import BytecodeLowering.Machine.Code

/-!
# Methods

* `lowerBlock`: the instructions of a block.
* `lowerMethod`: the code of a method, which is that of its blocks in the order of its layout.
-/

namespace BytecodeLowering.Lowering

open Ir Machine

/-- The name of a method in messages. -/
def methodTitle (owner : ClassName) (m : Method) : String :=
  owner.text ++ "." ++ m.name

/-- A lowered method. -/
structure LoweredMethod where
  /-- Its code. -/
  code : MethodCode
  /-- The places of its locals. -/
  slots : Slots
  /-- The number of its labelled blocks. -/
  labels : Nat
  /-- The number of its exception ranges. -/
  traps : Nat
  deriving Repr

/-- Adds a place to the errors of a step. -/
def inStmt {α : Type} (title : String) (text : String) (step : Lower α) : Lower α :=
  fun p => (step p).mapError (LowerError.within title (some text))

/-- The statements of a block. -/
def lowerStmts (c : MethodContext) (title : String) (ids : List StmtId) : Lower (List Insn) := do
  let codes ← ids.mapM fun id =>
    match c.body.stmt? id with
    | some s => inStmt title s.kind.render (lowerStmt c s.kind)
    | none => inconsistent (.unknownStmt id)
  return codes.flatten

/-- The source line of the first statement of a block. -/
def headLine? (b : Body) (block : Block) : Option Nat := do
  (← b.stmt? (← block.head?)).line

/-- What stands in front of a block: its label, and the line that starts there. -/
def blockStart (c : MethodContext) (lineNumbers : Bool) (block : Block) (id : BlockId) :
    List Insn :=
  match c.labels.get? id with
  | none => []
  | some l =>
    .label l ::
      if lineNumbers then ((headLine? c.body block).map fun n => Insn.lineNumber n l).toList else []

/-- What stands behind a block: a jump to the block that control goes on to, unless that comes
next. -/
def blockEnd (c : MethodContext) (block : Block) (id : BlockId) : Lowered (List Insn) :=
  match block.tail?.bind c.layout.continuation? with
  | none => .ok []
  | some next =>
    if c.layout.next? id = some next then .ok []
    else (c.labels.get next).map fun l => [.jump .goto l]

/-- The instructions of a block. -/
def lowerBlock (c : MethodContext) (title : String) (lineNumbers : Bool) (id : BlockId) :
    Lower (List Insn) := do
  match c.body.flow.block? id with
  | none => inconsistent (.unknownBlock id)
  | some block =>
    let code ← lowerStmts c title block.stmts
    return blockStart c lineNumbers block id ++ code ++ (← blockEnd c block id)

/-- The instructions of a layout, block by block, with the places of the locals behind them. -/
def lowerBlocks (c : MethodContext) (title : String) (lineNumbers : Bool) :
    Lowered (List (List Insn) × Slots) := do
  let slots ← Slots.ofMethod c.method c.body
  let (codes, p) ← (c.layout.order.mapM (lowerBlock c title lineNumbers)).run ⟨slots, []⟩
  return (codes, p.slots)

/-- The code of a body, whose arguments take the given number of slots. -/
def lowerBody (title : String) (m : Method) (b : Body) (lineNumbers : Bool) (argSlots : Nat) :
    Lowered LoweredMethod := do
  let layout ← Layout.ofBody b lineNumbers
  let labels := layout.labels
  let guards ← layout.guards
  let (codes, slots) ← lowerBlocks ⟨m, b, layout, labels⟩ title lineNumbers
  -- A range that stops at the end of the method needs a label behind all blocks.
  let insns := codes.flatten ++ (labels.stop.map Insn.label).toList
  let sizes ← (maxSizes insns guards argSlots).mapError .code
  return ⟨⟨insns, guards, sizes⟩, slots, labels.blocks.length, layout.ranges.length⟩

/-- The code of a method of a class, whose arguments take the given number of slots. -/
def lowerMethod (owner : ClassName) (m : Method) (options : Options) (argSlots : Nat) :
    Lowered LoweredMethod :=
  let title := methodTitle owner m
  let result :=
    match m.body with
    | some b => lowerBody title m b options.lineNumbers argSlots
    | none => inconsistent .noBody
  result.mapError (LowerError.within title none)

end BytecodeLowering.Lowering
