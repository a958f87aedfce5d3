import BytecodeLowering.Proofs.Ir.Protection
import BytecodeLowering.Proofs.Lowering.Method
import BytecodeLowering.Proofs.Lowering.Walk

/-!
# Layout of derived graphs

The block graph of a statement list and its layout agree: the layout puts the blocks down as the
graph has them, and control goes on from each of them to the next one.

* `Closed`: a layout finds everything in a graph that it looks up there.
* `Closed.exists_switch_of_error`: a body with such a graph has no layout only because of a switch.
* `closed_of_ofStmts`: the block graph of a statement list is such a graph.
* `Layout.continuation?_eq`: control goes on to the next block behind each block that falls through.
* `Layout.FollowsGraph`, `Layout.followsGraph_of_ofStmts`: the blocks are put down one after the
  other.
-/

namespace BytecodeLowering.Lowering

open Ir Machine

variable {b : Body} {lines : Bool} {layout : Layout} {segs : List (List Stmt)}

/-- Whatever the layout of a body looks up in its graph is there. -/
structure Closed (b : Body) : Prop extends Covered b where
  /-- Handlers are blocks. -/
  handler : ∀ block ∈ b.flow.blocks, ∀ e ∈ block.catches,
    ∃ block' ∈ b.flow.blocks, block'.id = e.handler
  /-- Successors are blocks. -/
  successor : ∀ block ∈ b.flow.blocks, ∀ x ∈ block.successors,
    ∃ block' ∈ b.flow.blocks, block'.id = x

/-- A block of a graph is found by its number. -/
theorem exists_lastBlock? {g : Flow} {block : Block} (h : block ∈ g.blocks) :
    ∃ last, lastBlock? g block.id = some last := by
  rw [← Option.isSome_iff_exists, lastBlock?, List.find?_isSome]
  exact ⟨block, List.mem_reverse.2 h, by simp⟩

/-- A statement that a block lists is owned by a block. -/
theorem exists_owner?_of_mem {g : Flow} {s : StmtId} (h : ∃ block ∈ g.blocks, s ∈ block.stmts) :
    ∃ x, g.owner? s = some x := by
  obtain ⟨block, hblock, hs⟩ := h
  rw [← Option.isSome_iff_exists, Flow.owner?, Option.isSome_map, List.find?_isSome]
  exact ⟨block, List.mem_reverse.2 hblock, by simpa using hs⟩

/-- The block of a statement that a block lists is found. -/
theorem blockOf_ne_error {g : Flow} {s : StmtId} {e : LowerError}
    (h : ∃ block ∈ g.blocks, s ∈ block.stmts) : blockOf g s ≠ .error e := by
  obtain ⟨x, hx⟩ := exists_owner?_of_mem h
  rw [blockOf_eq_ok_iff.2 hx]
  nofun

/-- A block is found by its number. -/
theorem getBlock_ne_error {g : Flow} {x : BlockId} {e : LowerError}
    (h : ∃ block ∈ g.blocks, block.id = x) : getBlock g x ≠ .error e := by
  obtain ⟨block, hblock, rfl⟩ := h
  obtain ⟨last, hlast⟩ := exists_lastBlock? hblock
  rw [getBlock_eq_ok_iff.2 hlast]
  nofun

namespace Closed

variable {block : Block} {x : BlockId} {e : LowerError}

/-- The head of a block is found by the number of the block. -/
theorem exists_head? (h : Closed b) (hx : ∃ block ∈ b.flow.blocks, block.id = x) :
    ∃ block ∈ b.flow.blocks, lastBlock? b.flow x = some block ∧
      ∃ s ∈ block.stmts, block.head? = some s := by
  obtain ⟨block, hblock, rfl⟩ := hx
  obtain ⟨last, hlast⟩ := exists_lastBlock? hblock
  obtain ⟨hmem, -⟩ := mem_of_lastBlock? hlast
  have hne := (h.blocks last hmem).1
  exact ⟨last, hmem, hlast, _, List.head_mem hne, List.head?_eq_some_head hne⟩

/-- The check of the blocks passes. -/
theorem checkBlocks_eq_ok (h : Closed b) : checkBlocks b = .ok () := by
  refine checkBlocks_eq_ok_iff.2 fun block hblock => ?_
  obtain ⟨hne, hstmts⟩ := h.blocks block hblock
  refine ⟨hne, fun id hid => ?_⟩
  obtain ⟨s, hs, rfl⟩ := hstmts id hid
  rw [← Option.isSome_iff_exists, Body.stmt?, List.find?_isSome]
  exact ⟨s, hs, by simp⟩

/-- The blocks are put in an order. -/
theorem blockOrder_ne_error (h : Closed b) : blockOrder b ≠ .error e := by
  obtain ⟨owners, howners⟩ : ∃ owners, b.stmts.mapM (ownerOf b.flow) = .ok owners := by
    simp only [mapM_eq_ok_iff, exists_forall₂_iff, ownerOf_eq_ok_iff]
    exact fun s hs => exists_owner?_of_mem (h.stmts s hs)
  rw [blockOrder, howners]
  intro herror
  cases herror

/-- The blocks of the order are blocks of the graph. -/
theorem exists_block_of_mem_order {order : List BlockId} (h : blockOrder b = .ok order)
    (hx : x ∈ order) : ∃ block ∈ b.flow.blocks, block.id = x := by
  obtain ⟨owners, howners, rfl⟩ := map_eq_ok_iff.1 h
  obtain ⟨s, -, hs⟩ := (mem_iff_of_mapM_eq_ok howners).1 (List.mem_eraseDups.1 hx)
  obtain ⟨block, hblock, hid, -⟩ := Flow.exists_of_owner? (ownerOf_eq_ok_iff.1 hs)
  exact ⟨block, hblock, hid⟩

/-- The handlers of a block are found. -/
theorem handlersOf_ne_error (h : Closed b) (hblock : block ∈ b.flow.blocks) :
    handlersOf b.flow block ≠ .error e := by
  intro herror
  obtain ⟨edge, hedge, herror⟩ := exists_of_mapM_eq_error herror
  obtain ⟨_, -, hlast, -⟩ := h.exists_head? (h.handler block hblock edge hedge)
  rw [hlast] at herror
  cases herror

/-- The ranges of a block stop at a statement of a block. -/
theorem exists_stopOf (h : Closed b) (hblock : block ∈ b.flow.blocks) {last : StmtId}
    (hlast : last ∈ block.stmts) : ∃ stop, stopOf b.flow block last = .ok stop ∧
      ∃ block' ∈ b.flow.blocks, stop ∈ block'.stmts := by
  unfold stopOf
  cases hhead : block.successors.head? with
  | none => exact ⟨last, rfl, block, hblock, hlast⟩
  | some next =>
    obtain ⟨block', hblock', hnext, s, hs, hstart⟩ :=
      h.exists_head? (h.successor block hblock next (List.mem_of_head? hhead))
    exact ⟨s, by simp [hnext, hstart], block', hblock', hs⟩

/-- The ranges of a block are found. -/
theorem trapsOf_ne_error (h : Closed b) (hblock : block ∈ b.flow.blocks) :
    trapsOf b.flow block ≠ .error e := by
  intro herror
  rcases bind_eq_error_iff.1 herror with herror | ⟨handlers, -, herror⟩
  · exact h.handlersOf_ne_error hblock herror
  · split at herror
    · rename_i start second rest hstmts
      have hlast : (second :: rest).getLast (List.cons_ne_nil _ _) ∈ block.stmts :=
        hstmts ▸ List.mem_cons_of_mem _ (List.getLast_mem _)
      obtain ⟨stop, hstop, -⟩ := h.exists_stopOf hblock hlast
      rw [hstop] at herror
      cases herror
    · cases herror

/-- The statements that the ranges of a block are made of are listed by blocks. -/
theorem listed_of_trapsOf (h : Closed b) (hblock : block ∈ b.flow.blocks) {ts : List Trap}
    (hts : trapsOf b.flow block = .ok ts) {t : Trap} (ht : t ∈ ts) :
    ∀ s ∈ t.bounds, ∃ block ∈ b.flow.blocks, s ∈ block.stmts := by
  obtain ⟨handlers, hhandlers, hts⟩ := bind_eq_ok_iff.1 hts
  split at hts
  · -- A range starts in the block, stops in the block or a successor, and leads to a handler.
    rename_i start second rest hstmts
    have hlast : (second :: rest).getLast (List.cons_ne_nil _ _) ∈ block.stmts :=
      hstmts ▸ List.mem_cons_of_mem _ (List.getLast_mem _)
    obtain ⟨stop, hstop, block', hblock', hmem⟩ := h.exists_stopOf hblock hlast
    rw [hstop] at hts
    cases hts
    obtain ⟨⟨exception, handler⟩, hhandler, ht⟩ := List.mem_filterMap.1 ht
    obtain ⟨s, hs, rfl⟩ := Option.map_eq_some_iff.1 ht
    obtain ⟨edge, -, hedge, -⟩ := exists_left_of_mem (forall₂_of_handlersOf hhandlers) hhandler
    simp only [Trap.bounds, List.forall_mem_cons]
    refine ⟨⟨block, hblock, by simp [hstmts]⟩, ⟨block', hblock', hmem⟩, ?_, List.forall_mem_nil _⟩
    exact ⟨handler, (mem_of_lastBlock? hedge).1, List.mem_of_head? hs⟩
  · cases hts
    cases ht

/-- A range of statements that are in blocks is one of blocks. -/
theorem rangeOf_ne_error {g : Flow} {order : List BlockId} {t : Trap}
    (h : ∀ s ∈ t.bounds, ∃ block ∈ g.blocks, s ∈ block.stmts) : rangeOf g order t ≠ .error e := by
  simp only [Trap.bounds, List.forall_mem_cons] at h
  obtain ⟨hstart, hstop, hhandler, -⟩ := h
  intro herror
  rcases bind_eq_error_iff.1 herror with herror | ⟨_, -, herror⟩
  · exact blockOf_ne_error hstart herror
  rcases bind_eq_error_iff.1 herror with herror | ⟨_, -, herror⟩
  · exact blockOf_ne_error hhandler herror
  rcases bind_eq_error_iff.1 herror with herror | ⟨_, -, herror⟩
  · exact blockOf_ne_error hstop herror
  · cases herror

/-- The blocks that a statement jumps to are found, unless it is a switch whose values and targets
differ in number. -/
theorem exists_switch_of_jumpTargets (h : Closed b) {s : Stmt} (hs : s ∈ b.stmts)
    (herror : jumpTargets b s = .error e) : ∃ key values targets default,
      s.kind = .switch key values targets default ∧ values.length ≠ targets.length ∧
        e = .inconsistent (.switchLength s.id values.length targets.length) := by
  have htarget := h.targets s hs
  unfold jumpTargets at herror
  cases hkind : s.kind with
  | branch cond target =>
    simp only [hkind] at herror
    rcases bind_eq_error_iff.1 herror with herror | ⟨_, -, herror⟩
    · exact absurd herror (blockOf_ne_error (htarget target (by simp [hkind, StmtKind.targets])))
    · cases herror
  | goto target =>
    simp only [hkind] at herror
    rcases bind_eq_error_iff.1 herror with herror | ⟨x, hx, herror⟩
    · exact absurd herror (blockOf_ne_error (htarget target (by simp [hkind, StmtKind.targets])))
    obtain ⟨block, hblock, hid, -⟩ := Flow.exists_of_owner? (blockOf_eq_ok_iff.1 hx)
    rcases bind_eq_error_iff.1 herror with herror | ⟨_, -, herror⟩
    · exact absurd herror (getBlock_ne_error ⟨block, hblock, hid⟩)
    · cases herror
  | switch key values targets default =>
    simp only [hkind] at herror
    split at herror
    · rename_i hlength
      cases herror
      exact ⟨key, values, targets, default, rfl, hlength, rfl⟩
    · obtain ⟨t, ht, herror⟩ := exists_of_mapM_eq_error herror
      exact absurd herror (blockOf_ne_error (htarget t (by rwa [hkind, StmtKind.targets])))
  | _ =>
    simp only [hkind] at herror
    cases herror

/-- A body whose graph has everything that is looked up there is laid out, unless it has a switch
whose values and targets differ in number. -/
theorem exists_switch_of_error (h : Closed b) (herror : Layout.ofBody b lines = .error e) :
    ∃ s ∈ b.stmts, ∃ key values targets default,
      s.kind = .switch key values targets default ∧ values.length ≠ targets.length ∧
        e = .inconsistent (.switchLength s.id values.length targets.length) := by
  -- One stage of the layout after the other finds what it looks up, up to the targets.
  unfold Layout.ofBody at herror
  rw [h.checkBlocks_eq_ok] at herror
  rcases bind_eq_error_iff.1 herror with herror | ⟨_, -, herror⟩
  · cases herror
  rcases bind_eq_error_iff.1 herror with herror | ⟨order, horder, herror⟩
  · exact absurd herror h.blockOrder_ne_error
  rcases bind_eq_error_iff.1 herror with herror | ⟨blocks, hblocks, herror⟩
  · obtain ⟨x, hx, herror⟩ := exists_of_mapM_eq_error herror
    exact absurd herror (getBlock_ne_error (exists_block_of_mem_order horder hx))
  have hmem := mem_of_mapM_getBlock hblocks
  rcases bind_eq_error_iff.1 herror with herror | ⟨traps, htraps, herror⟩
  · obtain ⟨block, hblock, herror⟩ := exists_of_mapM_eq_error herror
    exact absurd herror (h.trapsOf_ne_error (hmem block hblock))
  rcases bind_eq_error_iff.1 herror with herror | ⟨ranges, -, herror⟩
  · obtain ⟨t, ht, herror⟩ := exists_of_mapM_eq_error herror
    obtain ⟨ts, hts, ht⟩ := List.mem_flatten.1 (List.mem_eraseDups.1 ht)
    obtain ⟨block, hblock, hts⟩ := (mem_iff_of_mapM_eq_ok htraps).1 hts
    exact absurd herror (rangeOf_ne_error (h.listed_of_trapsOf (hmem block hblock) hts ht))
  rcases bind_eq_error_iff.1 herror with herror | ⟨jumps, -, herror⟩
  · obtain ⟨s, hs, herror⟩ := exists_of_mapM_eq_error herror
    exact ⟨s, hs, h.exists_switch_of_jumpTargets hs herror⟩
  · cases herror

end Closed

/-- The block graph of a statement list has everything that its layout looks up. -/
theorem closed_of_ofStmts {locals : List Local} {stmts : List Stmt} {traps : List Trap}
    (hb : Body.ofStmts locals stmts traps = .ok b) : Closed b := by
  have hcut := Cut.ofStmts hb
  have hexists : ∀ x : BlockId, x.val < (Flow.pieces stmts traps).length →
      ∃ block ∈ b.flow.blocks, block.id = x := by
    intro x hx
    obtain ⟨block, hblock, -, hid, -⟩ := hcut.exists_block_of_piece (List.getElem?_eq_getElem hx)
    exact ⟨block, hblock, hid⟩
  refine ⟨⟨fun s hs => ?_, fun block hblock => ?_, fun s hs t ht => ?_⟩,
    fun block hblock e he => ?_, fun block hblock x hx => ?_⟩
  · -- A statement is listed by the block of its piece.
    obtain ⟨k, seg, hseg, hmem⟩ := hcut.exists_seg_of_mem hs
    obtain ⟨block, hblock, -, -, hstmts⟩ := hcut.exists_block_of_piece hseg
    exact ⟨block, hblock, hstmts ▸ List.mem_map_of_mem hmem⟩
  · obtain ⟨k, seg, -, hseg, -, hstmts⟩ := hcut.exists_piece hblock
    have hmem := List.mem_of_getElem? hseg
    rw [hstmts, Ne, List.map_eq_nil_iff]
    refine ⟨fun hnil => hcut.nil_notMem (hnil ▸ hmem), fun s hs => ?_⟩
    obtain ⟨stmt, hstmt, rfl⟩ := List.mem_map.1 hs
    exact ⟨stmt, hcut.mem_stmts hmem hstmt, rfl⟩
  · obtain ⟨j, -, -, howner, -, -⟩ := hcut.owner?_target hs ht
    obtain ⟨block, hblock, -, hmem⟩ := Flow.exists_of_owner? howner
    exact ⟨block, hblock, hmem⟩
  · -- The handler of an edge owns the statement that a range leads to.
    obtain ⟨k, -, hk, -, -, -⟩ := hcut.exists_piece hblock
    obtain ⟨t, -, -, howner, -⟩ := (Cut.mem_catches_iff hb hk).1 he
    obtain ⟨block', hblock', hid, -⟩ := Flow.exists_of_owner? howner
    exact ⟨block', hblock', hid⟩
  · obtain ⟨k, -, hk, -, -, -⟩ := hcut.exists_piece hblock
    exact hexists x (hcut.lt_of_mem_successors hk hx)

/-- Where control goes on behind a statement of a list is one of the continuations of the list. -/
theorem mem_continuationsOf {g : Flow} {front rest : List Stmt} {s : Stmt} {x : BlockId}
    (h : continuation? g s rest.head? = some x) :
    (s.id, x) ∈ continuationsOf g (front ++ s :: rest) := by
  induction front with
  | nil => simp [continuationsOf, h]
  | cons y front ih => exact List.mem_append_right _ ih

namespace Layout

/-- A block that falls through has a continuation, to the block behind it. -/
theorem mem_continuations (hcut : Cut b segs) (h : Layout.ofBody b lines = .ok layout) {k : Nat}
    {seg : List Stmt} {last : Stmt} (hk : segs[k]? = some seg) (hlast : seg.getLast? = some last)
    (hfalls : last.kind.fallsThrough) (hlt : k + 1 < segs.length) :
    (last.id, ⟨k + 1⟩) ∈ layout.continuations := by
  obtain ⟨init, hinit⟩ := List.getLast?_eq_some_iff.1 hlast
  have hnext : segs[k + 1]? = some segs[k + 1] := List.getElem?_eq_getElem hlt
  obtain ⟨s', rest, hseg⟩ : ∃ s' rest, segs[k + 1] = s' :: rest :=
    List.exists_cons_of_ne_nil fun hnil => hcut.nil_notMem (hnil ▸ List.getElem_mem hlt)
  rw [hseg] at hnext
  -- The head of the next piece stands behind the statement.
  have hstmts : b.stmts = ((segs.take k).flatten ++ init) ++ last ::
      (s' :: (rest ++ (segs.drop (k + 2)).flatten)) := by
    rw [hcut.stmts_split hk, hinit, List.drop_eq_getElem_cons hlt, hseg]
    simp
  obtain ⟨block, hblock⟩ := hcut.exists_block hk
  have hfound : lastBlock? b.flow ⟨k⟩ = some block := by
    rw [← hcut.id_eq hblock]
    exact lastBlock?_id hcut.partitioned (List.mem_of_getElem? hblock)
  have htail : block.tail? = some last.id := by
    rw [Block.tail?, hcut.stmts_eq hblock hk, List.getLast?_map, hlast, Option.map_some]
  rw [(ofBody_eq_ok h).continuations, hstmts]
  refine mem_continuationsOf ?_
  simp [Lowering.continuation?, hcut.owner?_eq hk (List.mem_of_getLast? hlast), hfound, hfalls,
    htail, hcut.owner?_eq hnext List.mem_cons_self]

/-- Behind the last statement of a piece control goes on to the block that comes next, if the
statement falls through. -/
theorem continuation?_eq (hcut : Cut b segs) (h : Layout.ofBody b lines = .ok layout) {k : Nat}
    {seg : List Stmt} {last : Stmt} (hk : segs[k]? = some seg) (hlast : seg.getLast? = some last) :
    layout.continuation? last.id = if last.kind.fallsThrough then layout.next? ⟨k⟩ else none := by
  cases hcont : layout.continuation? last.id with
  | some x =>
    have hmem : last ∈ b.stmts :=
      hcut.mem_stmts (List.mem_of_getElem? hk) (List.mem_of_getLast? hlast)
    obtain ⟨_, _, _, -, hfalls, -⟩ := exists_of_continuation? hcut h hmem hcont
    rw [if_pos hfalls, next?_of_continuation? hcut h hk hlast hcont]
  | none =>
    symm
    rw [ite_eq_right_iff]
    intro hfalls
    rw [next?_eq hcut h (List.getElem?_eq_some_iff.1 hk).1, ite_eq_right_iff]
    intro hlt
    have hrecorded := mem_continuations hcut h hk hlast hfalls hlt
    simp only [Layout.continuation?, Option.map_eq_none_iff, List.find?_eq_none] at hcont
    exact absurd (by simp) (hcont _ (List.mem_reverse.2 hrecorded))

/-- A layout follows a graph: the blocks are put down as the graph has them, and control goes on
from each that falls through to the next one. -/
structure FollowsGraph (b : Body) (lines : Bool) (layout : Layout) : Prop where
  /-- The blocks come in the order of the graph. -/
  order : layout.order = b.flow.blocks.map Block.id
  /-- They are numbered in this order. -/
  numbers : layout.order = (List.range b.flow.blocks.length).map BlockId.mk
  /-- Behind each block comes the one with the next number. -/
  next : ∀ k, layout.next? ⟨k⟩ = if k + 1 < b.flow.blocks.length then some ⟨k + 1⟩ else none
  /-- From the last statement of a block that falls through, control goes on to the next block. -/
  continuation : ∀ block ∈ b.flow.blocks, ∀ s ∈ b.stmts, block.tail? = some s.id →
    layout.continuation? s.id = if s.kind.fallsThrough then layout.next? block.id else none
  /-- A block is lowered to its statements behind its label, without a jump to the next block. -/
  code : ∀ m labels title, ∀ block ∈ b.flow.blocks,
    lowerBlock ⟨m, b, layout, labels⟩ title lines block.id = do
      let code ← lowerStmts ⟨m, b, layout, labels⟩ title block.stmts
      return blockStart ⟨m, b, layout, labels⟩ lines block block.id ++ code

/-- The layout of a body that is cut into pieces follows the graph. -/
theorem followsGraph (hcut : Cut b segs) (h : Layout.ofBody b lines = .ok layout) :
    layout.FollowsGraph b lines where
  order := by rw [order_eq hcut h, hcut.ids]
  numbers := by rw [order_eq hcut h, hcut.length_blocks]
  next := by
    intro k
    rw [hcut.length_blocks]
    by_cases hk : k < segs.length
    · exact next?_eq hcut h hk
    · rw [if_neg (by omega), next?, nextIn?_eq_none]
      simp [order_eq hcut h, Nat.not_lt.1 hk]
  continuation := by
    intro block hblock s hs htail
    obtain ⟨k, seg, -, hseg, hid, hstmts⟩ := hcut.exists_piece hblock
    rw [Block.tail?, hstmts, List.getLast?_map, Option.map_eq_some_iff] at htail
    obtain ⟨last, hlast, hlastid⟩ := htail
    obtain rfl : last = s := hcut.stmt_inj
      (hcut.mem_stmts (List.mem_of_getElem? hseg) (List.mem_of_getLast? hlast)) hs hlastid
    rw [hid]
    exact continuation?_eq hcut h hseg hlast
  code := by
    intro m labels title block hblock
    obtain ⟨k, -, hk, -, hid, -⟩ := hcut.exists_piece hblock
    rw [hid]
    simp only [lowerBlock, hcut.block?_eq hk, blockEnd_eq hcut h hk, lift_ok, pure_bind,
      List.append_nil]

/-- The block graph of a statement list fits its layout. The layout exists unless the values and the
targets of a switch differ in number, which is then the error, and has the blocks of the graph one
after the other, with no jump between them that no statement stands for. -/
theorem followsGraph_of_ofStmts {locals : List Local} {stmts : List Stmt} {traps : List Trap}
    (hb : Body.ofStmts locals stmts traps = .ok b) (lines : Bool) :
    ((∃ layout, Layout.ofBody b lines = .ok layout) ↔
      ∀ s ∈ stmts, ∀ key values targets default,
        s.kind = .switch key values targets default → values.length = targets.length) ∧
    (∀ e, Layout.ofBody b lines = .error e → ∃ s ∈ stmts, ∃ key values targets default,
      s.kind = .switch key values targets default ∧ values.length ≠ targets.length ∧
        e = .inconsistent (.switchLength s.id values.length targets.length)) ∧
    ∀ layout, Layout.ofBody b lines = .ok layout → layout.FollowsGraph b lines := by
  have hcut := Cut.ofStmts hb
  obtain ⟨-, hstmts⟩ := Body.ofStmts_parts hb
  have herror : ∀ e, Layout.ofBody b lines = .error e → ∃ s ∈ stmts, ∃ key values targets default,
      s.kind = .switch key values targets default ∧ values.length ≠ targets.length ∧
        e = .inconsistent (.switchLength s.id values.length targets.length) := by
    intro e he
    obtain ⟨s, hs, hswitch⟩ := (closed_of_ofStmts hb).exists_switch_of_error he
    exact ⟨s, hstmts ▸ hs, hswitch⟩
  refine ⟨⟨fun h s hs key values targets default hkind => ?_, fun h => ?_⟩, herror,
    fun layout => followsGraph hcut⟩
  · obtain ⟨layout, hlayout⟩ := h
    exact switch_length hlayout (hstmts ▸ hs) hkind
  · cases hresult : Layout.ofBody b lines with
    | ok layout => exact ⟨layout, rfl⟩
    | error e =>
      obtain ⟨s, hs, key, values, targets, default, hkind, hlength, -⟩ := herror e hresult
      exact absurd (h s hs key values targets default hkind) hlength

end Layout

section Restart

/-- A loop that falls into its test, is left by a switch and is started again behind exceptions. -/
def restartStmts : List Stmt :=
  [⟨⟨0⟩, none, .nop⟩, ⟨⟨1⟩, none, .nop⟩,
    ⟨⟨2⟩, none, .branch ⟨.eq, .const (.int 0), .const (.int 1)⟩ ⟨4⟩⟩,
    ⟨⟨3⟩, none, .switch (.const (.int 0)) [7] [⟨0⟩] ⟨4⟩⟩, ⟨⟨4⟩, none, .returnVoid⟩,
    ⟨⟨5⟩, none, .goto ⟨0⟩⟩]

/-- The body of `restartStmts`, whose first two statements are protected. -/
def restartBody : Body :=
  ⟨[], restartStmts, ⟨[⟨⟨0⟩, [⟨0⟩, ⟨1⟩], [⟨1⟩], [⟨⟨"E"⟩, ⟨4⟩⟩]⟩, ⟨⟨1⟩, [⟨2⟩], [⟨2⟩, ⟨3⟩], []⟩,
    ⟨⟨2⟩, [⟨3⟩], [⟨0⟩, ⟨3⟩], []⟩, ⟨⟨3⟩, [⟨4⟩], [], []⟩, ⟨⟨4⟩, [⟨5⟩], [⟨0⟩], []⟩]⟩⟩

/-- `Layout.followsGraph_of_ofStmts` at a body with a handler, a branch and a switch. -/
theorem restart_followsGraph :
    Body.ofStmts [] restartStmts [⟨⟨"E"⟩, ⟨0⟩, ⟨2⟩, ⟨5⟩⟩] = .ok restartBody ∧
      ∃ layout, Layout.ofBody restartBody true = .ok layout ∧ layout.FollowsGraph restartBody true ∧
        layout.continuation? ⟨1⟩ = some ⟨1⟩ := by
  have hb : Body.ofStmts [] restartStmts [⟨⟨"E"⟩, ⟨0⟩, ⟨2⟩, ⟨5⟩⟩] = .ok restartBody := by decide
  obtain ⟨hlayout, -, hfollows⟩ := Layout.followsGraph_of_ofStmts hb true
  have hpaired : ∀ s ∈ restartStmts, ∀ key values targets default,
      s.kind = .switch key values targets default → values.length = targets.length := by
    simp only [restartStmts, List.forall_mem_cons]
    refine ⟨nofun, nofun, nofun, ?_, nofun, nofun, List.forall_mem_nil _⟩
    rintro _ _ _ _ ⟨⟩
    rfl
  obtain ⟨layout, h⟩ := hlayout.2 hpaired
  refine ⟨hb, layout, h, hfollows layout h, ?_⟩
  have htail := (hfollows layout h).continuation ⟨⟨0⟩, [⟨0⟩, ⟨1⟩], [⟨1⟩], [⟨⟨"E"⟩, ⟨4⟩⟩]⟩
    (by decide) ⟨⟨1⟩, none, .nop⟩ (by decide) rfl
  exact htail.trans ((hfollows layout h).next 0)

end Restart

end BytecodeLowering.Lowering
