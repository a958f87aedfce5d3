import BytecodeLowering.Lowering.Signature

/-!
# Block layout

The order in which the blocks of a method are put down, and what each of them needs for it.

* `Layout`: the order of the blocks, their exception ranges, the blocks that need a label, and where
  control goes on behind statements that fall through.
* `Layout.ofBody`: the layout of a body. Blocks come in the order of the statement list.
* `Labels`, `Layout.labels`: the labels of the blocks that need one, numbered in the order of the
  blocks, and one for the end of the method if a range ends there.
* `Layout.guards`: the exception table.
-/

namespace BytecodeLowering.Lowering

open Ir Machine

/-- The last block of a graph with the given number. -/
def lastBlock? (g : Flow) (id : BlockId) : Option Block :=
  g.blocks.reverse.find? fun b => b.id = id

/-- The block that a statement belongs to. -/
def blockOf (g : Flow) (s : StmtId) : Lowered BlockId :=
  match g.owner? s with
  | some b => .ok b
  | none => inconsistent (.outsideFlow s)

/-- Where an exception range stops. -/
inductive Boundary where
  /-- In front of a block. -/
  | block (b : BlockId)
  /-- Behind the last block. -/
  | methodEnd
  deriving DecidableEq, Repr

/-- An exception range in terms of blocks. -/
structure TrapRange where
  /-- The class of the exceptions that are caught. -/
  exception : ClassName
  /-- The first block of the range. -/
  start : BlockId
  /-- Where the range stops. -/
  stop : Boundary
  /-- The block that handles the exceptions. -/
  handler : BlockId
  deriving DecidableEq, Repr

/-- The layout of a body. -/
structure Layout where
  /-- The blocks in their order. -/
  order : List BlockId
  /-- The exception ranges in terms of statements. -/
  traps : List Trap
  /-- The exception ranges in terms of blocks. -/
  ranges : List TrapRange
  /-- The blocks that are entered by exceptions. -/
  handlers : List BlockId
  /-- The blocks that need a label. -/
  targets : List BlockId
  /-- The last statements of blocks with the blocks of the statements behind them, if they fall
  through. -/
  continuations : List (StmtId × BlockId)
  deriving Repr

/-- The block behind another one in an order. -/
def nextIn? (order : List BlockId) (b : BlockId) : Option BlockId :=
  (order.dropWhile (· ≠ b)).tail.head?

/-- Every block has statements, and they exist. -/
def checkBlocks (b : Body) : Lowered Unit :=
  b.flow.blocks.forM fun block => do
    if block.stmts.isEmpty then inconsistent (.emptyBlock block.id)
    block.stmts.forM fun s =>
      if (b.stmt? s).isNone then inconsistent (.undefinedStmt block.id s) else pure ()

/-- The block of a statement of the list. -/
def ownerOf (g : Flow) (s : Stmt) : Lowered BlockId :=
  match g.owner? s.id with
  | some b => .ok b
  | none => inconsistent (.strayStmt s.id)

/-- The blocks of the statements, each in the place of its first one. -/
def blockOrder (b : Body) : Lowered (List BlockId) :=
  (b.stmts.mapM (ownerOf b.flow)).map List.eraseDups

/-- The block of an order with the given number. -/
def getBlock (g : Flow) (id : BlockId) : Lowered Block :=
  match lastBlock? g id with
  | some b => .ok b
  | none => inconsistent (.unknownBlock id)

/-- The handlers of a block with their exceptions. -/
def handlersOf (g : Flow) (b : Block) : Lowered (List (ClassName × Block)) :=
  b.catches.mapM fun e =>
    match lastBlock? g e.handler with
    | some h => .ok (e.exception, h)
    | none => inconsistent (.undefinedHandler b.id e.handler)

/-- Where the exception ranges of a block stop: at the head of its first successor, or at its last
statement if it has no successor. -/
def stopOf (g : Flow) (b : Block) (last : StmtId) : Lowered StmtId :=
  match b.successors.head? with
  | none => .ok last
  | some next =>
    match (lastBlock? g next).bind Block.head? with
    | some s => .ok s
    | none => inconsistent (.undefinedSuccessor b.id next)

/-- The exception ranges of a block. A block of one statement has none. -/
def trapsOf (g : Flow) (b : Block) : Lowered (List Trap) := do
  let handlers ← handlersOf g b
  match b.stmts with
  | start :: second :: rest =>
    let stop ← stopOf g b ((second :: rest).getLast (List.cons_ne_nil _ _))
    return handlers.filterMap fun (exception, h) =>
      h.head?.map fun handler => ⟨exception, start, stop, handler⟩
  | _ => return []

/-- An exception range in terms of blocks. It covers at least the block of its first statement. -/
def rangeOf (g : Flow) (order : List BlockId) (t : Trap) : Lowered TrapRange := do
  let start ← blockOf g t.start
  let handler ← blockOf g t.handler
  let stop ← blockOf g t.stop
  let boundary :=
    -- A stop at or before the start would leave an empty range, which the exception table must not
    -- have.
    if order.idxOf start < order.idxOf stop then .block stop
    else
      match nextIn? order start with
      | some next => .block next
      | none => .methodEnd
  return ⟨t.exception, start, boundary, handler⟩

/-- The blocks at the ends of an exception range. -/
def TrapRange.blocks (r : TrapRange) : List BlockId :=
  [r.start, r.handler] ++
    match r.stop with
    | .block b => [b]
    | .methodEnd => []

/-- Whether a block is a single return. A goto into such a block is lowered as the return. -/
def isReturnBlock (b : Body) (block : Block) : Bool :=
  match block.stmts with
  | [s] => (b.stmt? s).any fun s => s.kind.isReturn
  | _ => false

/-- The blocks that a statement jumps to. -/
def jumpTargets (b : Body) (s : Stmt) : Lowered (List BlockId) := do
  match s.kind with
  | .branch _ target => return [← blockOf b.flow target]
  | .goto target =>
    let id ← blockOf b.flow target
    let block ← getBlock b.flow id
    -- The goto is lowered as the return itself, so nothing jumps to the block.
    return if isReturnBlock b block then [] else [id]
  | .switch _ values targets default =>
    if values.length ≠ targets.length then
      inconsistent (.switchLength s.id values.length targets.length)
    (targets ++ [default]).mapM (blockOf b.flow)
  | _ => return []

/-- The block that control goes on to behind a statement, if that is the last one of its block and
falls through; `next` is the statement behind it. -/
def continuation? (g : Flow) (s : Stmt) (next : Option Stmt) : Option BlockId := do
  let next ← next
  let current ← g.owner? s.id
  let block ← lastBlock? g current
  if s.kind.fallsThrough ∧ block.tail? = some s.id then g.owner? next.id else none

/-- The continuations of statements, in their order. -/
def continuationsOf (g : Flow) : List Stmt → List (StmtId × BlockId)
  | [] => []
  | s :: rest =>
    ((continuation? g s rest.head?).map fun b => (s.id, b)).toList ++ continuationsOf g rest

/-- The blocks that are continued to and do not come next. -/
def detours (g : Flow) (order : List BlockId) (continuations : List (StmtId × BlockId)) :
    List BlockId :=
  (continuations.filter fun (s, b) => ((g.owner? s).bind (nextIn? order)) ≠ some b).map Prod.snd

/-- Whether the first statement of a block has a source line. -/
def hasLine (b : Body) (id : BlockId) : Bool :=
  (((lastBlock? b.flow id).bind Block.head?).bind b.stmt?).any fun s => s.line.isSome

namespace Layout

/-- The layout of a body. With `lineNumbers`, blocks that start on a known line need a label. -/
def ofBody (b : Body) (lineNumbers : Bool) : Lowered Layout := do
  checkBlocks b
  let order ← blockOrder b
  let blocks ← order.mapM (getBlock b.flow)
  let traps := (← blocks.mapM (trapsOf b.flow)).flatten.eraseDups
  let ranges ← traps.mapM (rangeOf b.flow order)
  let jumps ← b.stmts.mapM (jumpTargets b)
  let continuations := continuationsOf b.flow b.stmts
  return {
    order, traps, ranges, continuations
    handlers := blocks.flatMap fun block => block.catches.map CatchEdge.handler
    targets :=
      ranges.flatMap TrapRange.blocks ++ jumps.flatten ++ detours b.flow order continuations ++
        if lineNumbers then order.filter (hasLine b) else [] }

/-- The block that comes next in the order. -/
def next? (l : Layout) (b : BlockId) : Option BlockId :=
  nextIn? l.order b

/-- The block that control goes on to behind the given last statement of a block. -/
def continuation? (l : Layout) (s : StmtId) : Option BlockId :=
  (l.continuations.reverse.find? fun c => c.1 = s).map Prod.snd

/-- Whether a block is entered by exceptions. -/
def isHandler (l : Layout) (b : BlockId) : Bool :=
  b ∈ l.handlers

/-- Whether a block needs a label. -/
def needsLabel (l : Layout) (b : BlockId) : Bool :=
  b ∈ l.targets

/-- Whether the end of the method needs a label. -/
def needsEndLabel (l : Layout) : Bool :=
  l.ranges.any fun r => r.stop = .methodEnd

end Layout

/-- The labels of a layout. -/
structure Labels where
  /-- The labels of blocks. -/
  blocks : List (BlockId × Label)
  /-- The label of the end of the method. -/
  stop : Option Label
  deriving Repr

/-- The labels of a layout, numbered from zero. -/
def Layout.labels (l : Layout) : Labels :=
  let labelled := l.order.filter l.needsLabel
  { blocks := labelled.zipIdx.map fun (b, n) => (b, ⟨n⟩)
    stop := if l.needsEndLabel then some ⟨labelled.length⟩ else none }

namespace Labels

/-- The label of a block, if it has one. -/
def get? (ls : Labels) (b : BlockId) : Option Label :=
  ls.blocks.lookup b

/-- The label of a block, which has to have one. -/
def get (ls : Labels) (b : BlockId) : Lowered Label :=
  match ls.get? b with
  | some l => .ok l
  | none => inconsistent (.unlabelled b)

/-- The label where an exception range stops. -/
def boundary (ls : Labels) : Boundary → Lowered Label
  | .block b => ls.get b
  | .methodEnd =>
    match ls.stop with
    | some l => .ok l
    | none => inconsistent .unlabelledEnd

/-- The entry of the exception table for an exception range. -/
def guardOf (ls : Labels) (r : TrapRange) : Lowered Guard := do
  let start ← ls.get r.start
  let stop ← ls.boundary r.stop
  let handler ← ls.get r.handler
  return ⟨start, stop, handler, some r.exception.internalName⟩

end Labels

/-- The exception table of a layout. -/
def Layout.guards (l : Layout) : Lowered (List Guard) :=
  l.ranges.mapM l.labels.guardOf

end BytecodeLowering.Lowering
