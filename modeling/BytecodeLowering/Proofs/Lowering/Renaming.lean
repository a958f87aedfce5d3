import BytecodeLowering.Proofs.Lowering.Partition

/-!
# Renamed block graphs

Block graphs that differ in the numbers of the blocks and in the order that they list them in have
the same layouts, up to the numbers.

* `Mirrors`: a computation has the changed results of another one, and fails where that does.
* `Block.rename`, `Body.Rewrites`: the same blocks under other numbers and in another order.
* `Layout.rename`, `Labels.rename`: a layout and its labels under other numbers.
* `Renames`, `renames_of_rewrites`: the lookups of a graph find the renamed blocks that those of
  another graph find.
* `Renames.mirrors_ofBody`: a body has the renamed layout of the other one.
-/

namespace BytecodeLowering

variable {ε α β γ δ : Type} {F : α → β} {G : γ → δ} {x : Except ε α} {y : Except ε β}

/-- A computation mirrors another one: it has the changed result of it, or both fail, whatever the
errors are. -/
def Mirrors (F : α → β) (x : Except ε α) (y : Except ε β) : Prop :=
  y.toOption = x.toOption.map F

namespace Mirrors

theorem ok {a : α} : Mirrors F (.ok a : Except ε α) (.ok (F a)) := rfl

/-- A computation mirrors itself. -/
theorem refl : Mirrors id x x := by
  rw [Mirrors, Option.map_id, id_eq]

/-- Two computations without a result mirror each other. -/
theorem of_ne_ok (hx : ∀ a, x ≠ .ok a) (hy : ∀ b, y ≠ .ok b) : Mirrors F x y := by
  cases x with
  | ok a => exact absurd rfl (hx a)
  | error e =>
    cases y with
    | ok b => exact absurd rfl (hy b)
    | error e' => rfl

/-- Going on from computations that mirror each other. -/
theorem bind {k : α → Except ε γ} {k' : β → Except ε δ} (h : Mirrors F x y)
    (hk : ∀ a, Mirrors G (k a) (k' (F a))) : Mirrors G (x >>= k) (y >>= k') := by
  cases x with
  | error e =>
    cases y with
    | error e' => rfl
    | ok b => cases h
  | ok a =>
    cases y with
    | error e => cases h
    | ok b =>
      obtain rfl : b = F a := Option.some.inj h
      exact hk a

/-- Results of computations that mirror each other are changed. -/
theorem map {g : α → γ} {g' : β → δ} (h : Mirrors F x y) (hg : ∀ a, g' (F a) = G (g a)) :
    Mirrors G (x.map g) (y.map g') := by
  cases x with
  | error e =>
    cases y with
    | error e' => rfl
    | ok b => cases h
  | ok a =>
    cases y with
    | error e => cases h
    | ok b =>
      obtain rfl : b = F a := Option.some.inj h
      exact congrArg some (hg a)

/-- Errors may be changed on both sides. -/
theorem mapError {g g' : ε → ε} (h : Mirrors F x y) : Mirrors F (x.mapError g) (y.mapError g') := by
  cases x <;> cases y <;> exact h

/-- A step taken on each element of a list and on what it is changed to. -/
theorem mapM {xs : List α} {k : α → Except ε γ} {k' : β → Except ε δ}
    (hk : ∀ a ∈ xs, Mirrors G (k a) (k' (F a))) :
    Mirrors (List.map G) (xs.mapM k) ((xs.map F).mapM k') := by
  induction xs with
  | nil => rfl
  | cons a xs ih =>
    rw [List.map_cons, List.mapM_cons, List.mapM_cons]
    refine (hk a List.mem_cons_self).bind fun c => ?_
    exact (ih fun a ha => hk a (List.mem_cons_of_mem _ ha)).bind fun cs => ok

/-- Two steps taken on each element of a list. -/
theorem mapM_same {xs : List α} {k : α → Except ε γ} {k' : α → Except ε δ}
    (hk : ∀ a ∈ xs, Mirrors G (k a) (k' a)) : Mirrors (List.map G) (xs.mapM k) (xs.mapM k') := by
  have hmap : Mirrors (List.map G) (xs.mapM k) ((xs.map id).mapM k') := mapM hk
  rwa [List.map_id] at hmap

end Mirrors

end BytecodeLowering

namespace BytecodeLowering.Ir

/-- An edge to a handler under another number. -/
def CatchEdge.rename (f : BlockId → BlockId) (e : CatchEdge) : CatchEdge where
  exception := e.exception
  handler := f e.handler

/-- A block under another number, with edges to blocks under other numbers. -/
def Block.rename (f : BlockId → BlockId) (block : Block) : Block where
  id := f block.id
  stmts := block.stmts
  successors := block.successors.map f
  catches := block.catches.map (CatchEdge.rename f)

namespace Block

variable {f : BlockId → BlockId} {block : Block}

@[simp]
theorem id_rename : (block.rename f).id = f block.id := rfl

@[simp]
theorem stmts_rename : (block.rename f).stmts = block.stmts := rfl

@[simp]
theorem head?_rename : (block.rename f).head? = block.head? := rfl

@[simp]
theorem successors_rename : (block.rename f).successors = block.successors.map f := rfl

end Block

/-- A body has the statements of another one, and its graph the blocks of the other graph under
other numbers, in any order. -/
structure Body.Rewrites (f : BlockId → BlockId) (b b' : Body) : Prop where
  /-- Blocks have numbers of their own again. -/
  injective : Function.Injective f
  /-- The locals are the same. -/
  locals : b'.locals = b.locals
  /-- So are the statements. -/
  stmts : b'.stmts = b.stmts
  /-- The blocks have other numbers. -/
  blocks : b'.flow.blocks.Perm (b.flow.blocks.map (Block.rename f))

end BytecodeLowering.Ir

namespace BytecodeLowering.Lowering

open Ir Machine

variable {f : BlockId → BlockId} {b b' : Body} {lines : Bool} {layout : Layout} {block : Block}
  {x : BlockId} {s : StmtId}

/-- The end of a range under another number. -/
def Boundary.rename (f : BlockId → BlockId) : Boundary → Boundary
  | .block x => .block (f x)
  | .methodEnd => .methodEnd

/-- A range of blocks under other numbers. -/
def TrapRange.rename (f : BlockId → BlockId) (r : TrapRange) : TrapRange where
  exception := r.exception
  start := f r.start
  stop := r.stop.rename f
  handler := f r.handler

/-- A layout of blocks under other numbers. -/
def Layout.rename (f : BlockId → BlockId) (layout : Layout) : Layout where
  order := layout.order.map f
  traps := layout.traps
  ranges := layout.ranges.map (TrapRange.rename f)
  handlers := layout.handlers.map f
  targets := layout.targets.map f
  continuations := layout.continuations.map (Prod.map id f)

/-- The labels of blocks under other numbers. -/
def Labels.rename (f : BlockId → BlockId) (labels : Labels) : Labels where
  blocks := labels.blocks.map (Prod.map f id)
  stop := labels.stop

/-- The lookups of one body find the renamed blocks that those of another one find. -/
structure Renames (f : BlockId → BlockId) (b b' : Body) : Prop where
  /-- Blocks have numbers of their own again. -/
  injective : Function.Injective f
  /-- The statements are the same. -/
  stmts : b'.stmts = b.stmts
  /-- Both pass the check of their blocks. -/
  checked : checkBlocks b = .ok () ∧ checkBlocks b' = .ok ()
  /-- The first block with a number is found. -/
  first? : ∀ x, b'.flow.block? (f x) = (b.flow.block? x).map (Block.rename f)
  /-- The last block with a number is found. -/
  last? : ∀ x, lastBlock? b'.flow (f x) = (lastBlock? b.flow x).map (Block.rename f)
  /-- The block of a statement is found. -/
  owner? : ∀ s, b'.flow.owner? s = (b.flow.owner? s).map f

/-- A body with the renamed blocks of another one passes the check iff the other one does. -/
theorem checkBlocks_iff_of_rewrites (h : b.Rewrites f b') :
    checkBlocks b' = .ok () ↔ checkBlocks b = .ok () := by
  have hstmt? : ∀ s, b'.stmt? s = b.stmt? s := by simp [Body.stmt?, h.stmts]
  simp only [checkBlocks_eq_ok_iff, h.blocks.mem_iff, List.forall_mem_map, hstmt?]
  rfl

/-- The lookups of a partition that is written in another way find the same blocks. -/
theorem renames_of_rewrites (hb : b.Partitioned) (hcheck : checkBlocks b = .ok ())
    (h : b.Rewrites f b') : Renames f b b' := by
  have hmem : ∀ y, y ∈ b'.flow.blocks ↔ ∃ x ∈ b.flow.blocks, x.rename f = y := fun y => by
    rw [h.blocks.mem_iff, List.mem_map]
  have hmemReverse : ∀ y, y ∈ b'.flow.blocks.reverse ↔
      ∃ x ∈ b.flow.blocks.reverse, x.rename f = y := by simpa using hmem
  have hid : ∀ (x : BlockId) (block : Block),
      decide ((block.rename f).id = f x) = decide (block.id = x) := by
    simp [h.injective.eq_iff]
  -- No two blocks pass the test of a lookup, so that the order of the blocks does not matter.
  refine ⟨h.injective, h.stmts, ⟨hcheck, (checkBlocks_iff_of_rewrites h).2 hcheck⟩, fun x => ?_,
    fun x => ?_, fun s => ?_⟩
  · refine find?_eq_map_of_unique hmem (fun block _ => hid x block) ?_
    intro block hblock block' hblock' hx hx'
    exact hb.block_inj hblock hblock' (by simp_all)
  · refine find?_eq_map_of_unique hmemReverse (fun block _ => hid x block) ?_
    intro block hblock block' hblock' hx hx'
    exact hb.block_inj (by simpa using hblock) (by simpa using hblock') (by simp_all)
  · have hfind : (b'.flow.blocks.reverse.find? fun x => s ∈ x.stmts) =
        (b.flow.blocks.reverse.find? fun x => s ∈ x.stmts).map (Block.rename f) := by
      refine find?_eq_map_of_unique hmemReverse (fun block _ => rfl) ?_
      intro block hblock block' hblock' hs hs'
      exact hb.eq_of_mem (by simpa using hblock) (by simpa using hblock') (by simpa using hs)
        (by simpa using hs')
    rw [Flow.owner?, Flow.owner?, hfind, Option.map_map, Option.map_map]
    rfl

/-- A range has the renamed blocks at its ends. -/
theorem blocks_rename {r : TrapRange} : (r.rename f).blocks = r.blocks.map f := by
  cases hstop : r.stop <;> simp [TrapRange.blocks, TrapRange.rename, Boundary.rename, hstop]

section Orders

variable {order : List BlockId}

/-- The place of a block is that of the renamed block. -/
theorem idxOf_map (hf : Function.Injective f) : (order.map f).idxOf (f x) = order.idxOf x := by
  induction order with
  | nil => rfl
  | cons y order ih =>
    rw [List.map_cons, List.idxOf_cons, List.idxOf_cons, ih]
    simp [hf.eq_iff, Bool.beq_eq_decide_eq]

/-- Behind a renamed block comes the renamed block behind it. -/
theorem nextIn?_map (hf : Function.Injective f) :
    nextIn? (order.map f) (f x) = (nextIn? order x).map f := by
  have htest : (fun y => decide (y ≠ f x)) ∘ f = fun y => decide (y ≠ x) := by
    funext y
    simp [hf.eq_iff]
  rw [nextIn?, nextIn?, List.dropWhile_map, htest, ← List.map_tail, List.head?_map]

end Orders

namespace Renames

variable (h : Renames f b b')

include h

/-- Statements are looked up in the same list. -/
theorem stmt?_eq : b'.stmt? s = b.stmt? s := by
  rw [Body.stmt?, Body.stmt?, h.stmts]

theorem mirrors_blockOf : Mirrors f (blockOf b.flow s) (blockOf b'.flow s) := by
  rw [blockOf, blockOf, h.owner?]
  cases b.flow.owner? s <;> rfl

theorem mirrors_ownerOf {stmt : Stmt} : Mirrors f (ownerOf b.flow stmt) (ownerOf b'.flow stmt) := by
  rw [ownerOf, ownerOf, h.owner?]
  cases b.flow.owner? stmt.id <;> rfl

theorem mirrors_getBlock :
    Mirrors (Block.rename f) (getBlock b.flow x) (getBlock b'.flow (f x)) := by
  rw [getBlock, getBlock, h.last?]
  cases lastBlock? b.flow x <;> rfl

/-- The order is that of the renamed blocks. -/
theorem mirrors_blockOrder : Mirrors (List.map f) (blockOrder b) (blockOrder b') := by
  have howners : Mirrors (List.map f) (b.stmts.mapM (ownerOf b.flow))
      (b'.stmts.mapM (ownerOf b'.flow)) := by
    rw [h.stmts]
    exact .mapM_same fun stmt _ => h.mirrors_ownerOf
  -- Blocks that differ stay different, so that each is put down for the same statement.
  exact howners.map fun owners => eraseDups_map fun _ _ _ _ heq => h.injective heq

/-- The handlers of a renamed block are the renamed handlers. -/
theorem mirrors_handlersOf : Mirrors (List.map (Prod.map id (Block.rename f)))
    (handlersOf b.flow block) (handlersOf b'.flow (block.rename f)) := by
  refine Mirrors.mapM fun e _ => ?_
  rw [CatchEdge.rename, h.last?]
  cases lastBlock? b.flow e.handler <;> rfl

/-- The ranges of a renamed block stop at the same statement. -/
theorem mirrors_stopOf :
    Mirrors id (stopOf b.flow block s) (stopOf b'.flow (block.rename f) s) := by
  rw [stopOf, stopOf, Block.successors_rename, List.head?_map]
  cases block.successors.head? with
  | none => rfl
  | some next =>
    simp only [Option.map_some, h.last?]
    cases lastBlock? b.flow next with
    | none => rfl
    | some block' =>
      simp only [Option.map_some, Option.bind_some, Block.head?_rename]
      cases block'.head? <;> rfl

/-- The ranges of a renamed block are the same ranges of statements. -/
theorem mirrors_trapsOf : Mirrors id (trapsOf b.flow block) (trapsOf b'.flow (block.rename f)) := by
  refine h.mirrors_handlersOf.bind fun handlers => ?_
  simp only [Block.stmts_rename]
  split
  · refine h.mirrors_stopOf.bind fun stop => ?_
    refine congrArg some ?_
    rw [List.filterMap_map]
    rfl
  · rfl

/-- In terms of blocks, a range is the renamed range. -/
theorem mirrors_rangeOf {order : List BlockId} {t : Trap} : Mirrors (TrapRange.rename f)
    (rangeOf b.flow order t) (rangeOf b'.flow (order.map f) t) := by
  refine h.mirrors_blockOf.bind fun start => ?_
  refine h.mirrors_blockOf.bind fun handler => h.mirrors_blockOf.bind fun stop => ?_
  refine congrArg some ?_
  -- Where a range stops is told by places in the order, which are the same.
  simp only [idxOf_map h.injective, nextIn?_map h.injective]
  split
  · rfl
  · cases nextIn? order start <;> rfl

/-- The blocks that a statement jumps to are the renamed blocks. -/
theorem mirrors_jumpTargets {stmt : Stmt} :
    Mirrors (List.map f) (jumpTargets b stmt) (jumpTargets b' stmt) := by
  unfold jumpTargets
  cases stmt.kind with
  | branch cond target => exact h.mirrors_blockOf.bind fun x => rfl
  | goto target =>
    refine h.mirrors_blockOf.bind fun x => h.mirrors_getBlock.bind fun block => ?_
    -- Whether a goto becomes a return is told by the statements of the block.
    have hreturn : isReturnBlock b' (block.rename f) = isReturnBlock b block := by
      simp only [isReturnBlock, h.stmt?_eq]
      rfl
    rw [hreturn]
    refine congrArg some ?_
    split <;> rfl
  | switch key values targets default =>
    dsimp only
    split
    · rfl
    · exact .mapM_same fun t _ => h.mirrors_blockOf
  | _ => rfl

/-- Control goes on to the renamed blocks. -/
theorem continuationsOf_eq {stmts : List Stmt} : continuationsOf b'.flow stmts =
    (continuationsOf b.flow stmts).map (Prod.map id f) := by
  have hcontinuation : ∀ (stmt : Stmt) (next : Option Stmt),
      continuation? b'.flow stmt next = (continuation? b.flow stmt next).map f := by
    intro stmt next
    cases next with
    | none => rfl
    | some next =>
      simp only [continuation?, h.owner?, Option.bind_eq_bind, Option.bind_some]
      cases b.flow.owner? stmt.id with
      | none => rfl
      | some x =>
        simp only [Option.map_some, Option.bind_some, h.last?]
        cases lastBlock? b.flow x with
        | none => rfl
        | some block =>
          simp only [Option.map_some, Option.bind_some]
          have htail : (block.rename f).tail? = block.tail? := rfl
          by_cases hgo : stmt.kind.fallsThrough ∧ block.tail? = some stmt.id
          · rw [if_pos hgo, if_pos (htail ▸ hgo)]
          · rw [if_neg hgo, if_neg (htail ▸ hgo), Option.map_none]
  induction stmts with
  | nil => rfl
  | cons stmt stmts ih =>
    rw [continuationsOf, continuationsOf, hcontinuation, ih, List.map_append]
    cases continuation? b.flow stmt stmts.head? <;> rfl

/-- The detours are the renamed ones. -/
theorem detours_eq {order : List BlockId} {continuations : List (StmtId × BlockId)} :
    detours b'.flow (order.map f) (continuations.map (Prod.map id f)) =
      (detours b.flow order continuations).map f := by
  rw [detours, detours, List.filter_map, List.map_map, List.map_map]
  -- Whether control makes a detour does not depend on how the blocks are numbered.
  have htest : ∀ c : StmtId × BlockId,
      ((b'.flow.owner? c.1).bind (nextIn? (order.map f)) ≠ some (f c.2)) =
        ((b.flow.owner? c.1).bind (nextIn? order) ≠ some c.2) := by
    intro c
    rw [h.owner?]
    cases b.flow.owner? c.1 with
    | none => simp
    | some x =>
      simp only [Option.map_some, Option.bind_some, nextIn?_map h.injective]
      cases nextIn? order x <;> simp [h.injective.eq_iff]
  simp only [Function.comp_def, Prod.map_fst, Prod.map_snd, id_eq, htest]

/-- A renamed block starts on the same line. -/
theorem hasLine_eq : hasLine b' (f x) = hasLine b x := by
  rw [hasLine, hasLine, h.last?]
  cases lastBlock? b.flow x with
  | none => rfl
  | some block =>
    simp only [Option.map_some, Option.bind_some, Block.head?_rename]
    cases block.head? with
    | none => rfl
    | some s => rw [Option.bind_some, Option.bind_some, h.stmt?_eq]

/-- The layout is the renamed one. -/
theorem mirrors_ofBody :
    Mirrors (Layout.rename f) (Layout.ofBody b lines) (Layout.ofBody b' lines) := by
  have hchecked : Mirrors id (checkBlocks b) (checkBlocks b') := by
    rw [h.checked.1, h.checked.2]
    rfl
  -- All parts of the layout come in the order of the statements, however the graph is written.
  refine hchecked.bind fun _ => h.mirrors_blockOrder.bind fun order => ?_
  refine (Mirrors.mapM fun x _ => h.mirrors_getBlock).bind fun blocks => ?_
  refine (Mirrors.mapM fun block _ => h.mirrors_trapsOf).bind fun traps => ?_
  rw [List.map_id]
  refine (Mirrors.mapM_same fun t _ => h.mirrors_rangeOf).bind fun ranges => ?_
  rw [h.stmts]
  refine (Mirrors.mapM_same fun stmt _ => h.mirrors_jumpTargets).bind fun jumps => ?_
  refine congrArg some ?_
  rw [h.continuationsOf_eq, h.detours_eq]
  have hlines : (order.map f).filter (hasLine b') =
      (order.filter (hasLine b)).map f := by
    rw [List.filter_map]
    simp only [Function.comp_def, h.hasLine_eq]
  have hhandlers :
      ((blocks.map (Block.rename f)).flatMap fun x => x.catches.map CatchEdge.handler) =
        (blocks.flatMap fun x => x.catches.map CatchEdge.handler).map f := by
    rw [List.flatMap_map, List.map_flatMap]
    simp [Block.rename, CatchEdge.rename, Function.comp_def]
  have hranges : (ranges.map (TrapRange.rename f)).flatMap TrapRange.blocks =
      (ranges.flatMap TrapRange.blocks).map f := by
    rw [List.flatMap_map, List.map_flatMap]
    simp only [blocks_rename]
  simp only [Layout.rename, hhandlers, hranges, hlines, List.map_append, List.map_flatten]
  cases lines <;> rfl

end Renames

end BytecodeLowering.Lowering
