import BytecodeLowering.Proofs.Lowering.Placement

/-!
# Layout of partitioned bodies

The layout of a body whose blocks share out the statements, in whatever order the graph lists them.

* `lastBlock?_id`, `owner?_of_lastBlock?`: the lookups of the layout find the blocks.
* `Layout.perm_blocks`, `Layout.perm_stmts`: every block is put down once, and so is every
  statement.
* `protections`: the exceptional edges that the layout makes ranges of, in their order.
* `TrapFor`, `RangeFor`: the range of an edge in terms of statements and of blocks.
* `Layout.forall₂_ranges`: the layout has one range for each of the edges, in that order.
-/

namespace BytecodeLowering.Lowering

open Ir Machine

variable {b : Body} {lines : Bool} {layout : Layout} {x : BlockId} {block : Block} {s : StmtId}

/-- The last block with a number is the one block with it. -/
theorem lastBlock?_id (hb : b.Partitioned) (hblock : block ∈ b.flow.blocks) :
    lastBlock? b.flow block.id = some block :=
  hb.find?_eq hblock fun _ => List.mem_reverse

/-- The block that is found by a number owns the statements that it lists. -/
theorem owner?_of_lastBlock? (hb : b.Partitioned) (hx : lastBlock? b.flow x = some block)
    (hs : s ∈ block.stmts) : b.flow.owner? s = some x := by
  obtain ⟨hblock, rfl⟩ := mem_of_lastBlock? hx
  exact hb.owner?_eq hblock hs

namespace Layout

/-- The blocks that are put down are those that own a statement of the list. -/
theorem mem_order_iff_owner (h : Layout.ofBody b lines = .ok layout) :
    x ∈ layout.order ↔ ∃ stmt ∈ b.stmts, b.flow.owner? stmt.id = some x := by
  obtain ⟨owners, howners, heq⟩ := map_eq_ok_iff.1 (ofBody_eq_ok h).order
  rw [← heq, List.mem_eraseDups, mem_iff_of_mapM_eq_ok howners]
  simp only [ownerOf_eq_ok_iff]

/-- The blocks of the graph are put down. -/
theorem mem_order_iff_block (hb : b.Partitioned) (h : Layout.ofBody b lines = .ok layout) :
    x ∈ layout.order ↔ ∃ block ∈ b.flow.blocks, block.id = x := by
  rw [mem_order_iff_owner h]
  constructor
  · rintro ⟨stmt, -, hx⟩
    obtain ⟨block, hblock, hid, -⟩ := Flow.exists_of_owner? hx
    exact ⟨block, hblock, hid⟩
  · rintro ⟨block, hblock, rfl⟩
    -- A block is put down in the place of its first statement in the list.
    obtain ⟨hne, hstmts⟩ := (ofBody_eq_ok h).checked block hblock
    obtain ⟨s, hs⟩ := List.exists_mem_of_ne_nil _ hne
    obtain ⟨stmt, hstmt⟩ := hstmts s hs
    obtain ⟨hmem, hid⟩ := Body.mem_of_stmt? hstmt
    refine ⟨stmt, hmem, ?_⟩
    rw [hid]
    exact hb.owner?_eq hblock hs

/-- The blocks of a layout have the numbers that it orders. -/
theorem map_id_of_mapM_getBlock {g : Flow} {order : List BlockId} {blocks : List Block}
    (h : order.mapM (getBlock g) = .ok blocks) : blocks.map Block.id = order := by
  refine List.forall₂_eq_eq_eq ▸ (List.forall₂_map_left_iff.2 ?_)
  exact (mapM_eq_ok_iff.1 h).flip.imp fun block x hx =>
    (mem_of_lastBlock? (getBlock_eq_ok_iff.1 hx)).2

/-- Every block of the graph is put down once. -/
theorem perm_blocks (hb : b.Partitioned) (h : Layout.ofBody b lines = .ok layout)
    {blocks : List Block} (hids : blocks.map Block.id = layout.order)
    (hmem : ∀ block ∈ blocks, block ∈ b.flow.blocks) : blocks.Perm b.flow.blocks := by
  have hnodup : blocks.Nodup := .of_map Block.id (hids ▸ nodup_order h)
  refine (List.perm_ext_iff_of_nodup hnodup (.of_map Block.id hb.ids)).2 fun block => ?_
  refine ⟨hmem block, fun hblock => ?_⟩
  have hid : block.id ∈ blocks.map Block.id :=
    hids ▸ (mem_order_iff_block hb h).2 ⟨block, hblock, rfl⟩
  obtain ⟨block', hblock', hid⟩ := List.mem_map.1 hid
  exact hb.block_inj (hmem block' hblock') hblock hid ▸ hblock'

/-- The blocks that are looked up for a layout are those of the graph. -/
theorem perm_of_mapM_getBlock (hb : b.Partitioned) (h : Layout.ofBody b lines = .ok layout)
    {blocks : List Block} (hblocks : layout.order.mapM (getBlock b.flow) = .ok blocks) :
    blocks.Perm b.flow.blocks :=
  perm_blocks hb h (map_id_of_mapM_getBlock hblocks) (mem_of_mapM_getBlock hblocks)

end Layout

/-- The edges of a block that exception ranges are made of: the edges of a block of several
statements, each once. -/
def guardedEdges (block : Block) : List CatchEdge :=
  if 2 ≤ block.stmts.length then block.catches.eraseDups else []

/-- The edges of blocks that exception ranges are made of, block by block. -/
def protections (blocks : List Block) : List (Block × CatchEdge) :=
  blocks.flatMap fun block => (guardedEdges block).map fun e => (block, e)

theorem mem_protections_iff {blocks : List Block} {e : CatchEdge} :
    (block, e) ∈ protections blocks ↔
      block ∈ blocks ∧ 2 ≤ block.stmts.length ∧ e ∈ block.catches := by
  by_cases hlength : 2 ≤ block.stmts.length <;>
    simp [protections, guardedEdges, List.mem_flatMap, hlength]

/-- A range of statements starts with a block, stops where the ranges of the block do, and takes
exceptions to where an edge of the block takes them. -/
structure TrapFor (b : Body) (block : Block) (e : CatchEdge) (t : Trap) : Prop where
  /-- It is about the exception. -/
  exception : t.exception = e.exception
  /-- It starts with the block. -/
  start : b.flow.owner? t.start = some block.id
  /-- It stops at the first successor of the block, or at its last statement. -/
  stop : ∃ last ∈ block.stmts, stopOf b.flow block last = .ok t.stop
  /-- It leads to the handler. -/
  handler : b.flow.owner? t.handler = some e.handler

/-- The range of statements between two statements that leads to the handler of an edge. -/
def trapAlong (g : Flow) (start stop : StmtId) (e : CatchEdge) : Trap :=
  ⟨e.exception, start, stop, ((lastBlock? g e.handler).bind Block.head?).getD start⟩

section Handlers

variable {handler : Block} {e e' : CatchEdge} {start stop : StmtId}

/-- A block that is looked up has a first statement, which it owns. -/
theorem exists_head_of_lastBlock? (hb : b.Partitioned)
    (hchecked : ∀ block ∈ b.flow.blocks, block.stmts ≠ []) (h : lastBlock? b.flow x = some handler) :
    ∃ s, handler.head? = some s ∧ b.flow.owner? s = some x := by
  have hne := hchecked handler (mem_of_lastBlock? h).1
  refine ⟨handler.stmts.head hne, List.head?_eq_some_head hne, ?_⟩
  exact owner?_of_lastBlock? hb h (List.head_mem hne)

/-- The range of an edge leads to a statement that its handler owns. -/
theorem owner?_trapAlong (hb : b.Partitioned)
    (hchecked : ∀ block ∈ b.flow.blocks, block.stmts ≠ [])
    (h : lastBlock? b.flow e.handler = some handler) :
    b.flow.owner? (trapAlong b.flow start stop e).handler = some e.handler := by
  obtain ⟨s, hs, howner⟩ := exists_head_of_lastBlock? hb hchecked h
  simpa [trapAlong, h, hs] using howner

/-- So different edges have different ranges. -/
theorem trapAlong_inj {g : Flow}
    (howner : g.owner? (trapAlong g start stop e).handler = some e.handler)
    (howner' : g.owner? (trapAlong g start stop e').handler = some e'.handler)
    (h : trapAlong g start stop e = trapAlong g start stop e') : e = e' := by
  obtain ⟨exception, handler⟩ := e
  obtain ⟨exception', handler'⟩ := e'
  have hexception : exception = exception' := congrArg Trap.exception h
  have hhandler : handler = handler' := Option.some.inj (howner.symm.trans (h ▸ howner'))
  rw [hexception, hhandler]

/-- A block of one statement, or of none, has no edges that ranges are made of. -/
theorem guardedEdges_eq_nil (h : ∀ s s' rest, block.stmts ≠ s :: s' :: rest) :
    guardedEdges block = [] := by
  refine if_neg fun htwo => ?_
  rcases hstmts : block.stmts with _ | ⟨s, _ | ⟨s', rest⟩⟩
  · simp [hstmts] at htwo
  · simp [hstmts] at htwo
  · exact h s s' rest hstmts

/-- The ranges of a block are those of its edges. -/
theorem forall₂_trapsOf (hb : b.Partitioned)
    (hchecked : ∀ block ∈ b.flow.blocks, block.stmts ≠ []) (hblock : block ∈ b.flow.blocks)
    {ts : List Trap} (h : trapsOf b.flow block = .ok ts) :
    List.Forall₂ (TrapFor b block) (guardedEdges block) ts.eraseDups := by
  obtain ⟨handlers, hhandlers, h⟩ := bind_eq_ok_iff.1 h
  have hpaired := forall₂_of_handlersOf hhandlers
  split at h
  · rename_i start second rest hstmts
    obtain ⟨stop, hstop, h⟩ := bind_eq_ok_iff.1 h
    cases h
    have hguarded : guardedEdges block = block.catches.eraseDups := if_pos (by simp [hstmts])
    have hhandler : ∀ e ∈ block.catches,
        b.flow.owner? (trapAlong b.flow start stop e).handler = some e.handler := by
      intro e he
      obtain ⟨x, -, hlast, -⟩ := exists_right_of_mem hpaired he
      exact owner?_trapAlong hb hchecked hlast
    -- No handler is left out, because all have a first statement.
    have htrap : ∀ (e : CatchEdge) (x : ClassName × Block),
        lastBlock? b.flow e.handler = some x.2 ∧ e.exception = x.1 →
        (x.2.head?.map fun handler => (⟨x.1, start, stop, handler⟩ : Trap)) =
          some (trapAlong b.flow start stop e) := by
      rintro e ⟨exception, handler⟩ ⟨hlast, rfl⟩
      obtain ⟨s, hs, -⟩ := exists_head_of_lastBlock? hb hchecked hlast
      simp [trapAlong, hlast, hs]
    rw [hguarded, filterMap_eq_map_of_forall₂ (hpaired.imp htrap),
      eraseDups_map fun e he e' he' => trapAlong_inj (hhandler e he) (hhandler e' he')]
    refine List.forall₂_map_right_iff.2 (List.forall₂_same.2 fun e he => ?_)
    have hstart : start ∈ block.stmts := by simp [hstmts]
    have hlast : (second :: rest).getLast (List.cons_ne_nil _ _) ∈ block.stmts := by
      rw [hstmts]
      exact List.mem_cons_of_mem _ (List.getLast_mem _)
    exact ⟨rfl, hb.owner?_eq hblock hstart, ⟨_, hlast, hstop⟩,
      hhandler e (List.mem_eraseDups.1 he)⟩
  · rename_i hshort
    cases h
    rw [guardedEdges_eq_nil hshort, List.eraseDups_nil]
    exact .nil

end Handlers

/-- A range of blocks starts with a block, stops behind it, at the end of the method at the latest,
and takes exceptions to where an edge of the block takes them. -/
structure RangeFor (order : List BlockId) (block : Block) (e : CatchEdge) (r : TrapRange) :
    Prop where
  /-- It is about the exception. -/
  exception : r.exception = e.exception
  /-- It starts with the block. -/
  start : r.start = block.id
  /-- It stops behind the block. -/
  stop : ∀ y, r.stop = .block y → order.idxOf block.id < order.idxOf y
  /-- It leads to the handler. -/
  handler : r.handler = e.handler

/-- The block behind another one comes later. -/
theorem idxOf_lt_of_nextIn? {order : List BlockId} {y : BlockId} (hnodup : order.Nodup)
    (h : nextIn? order x = some y) : order.idxOf x < order.idxOf y := by
  by_cases hx : x ∈ order
  · obtain ⟨front, rest, rfl⟩ := List.append_of_mem hx
    obtain ⟨-, hbehind, hapart⟩ := List.nodup_append.1 hnodup
    have hfront : x ∉ front := fun hmem => hapart x hmem x List.mem_cons_self rfl
    rw [nextIn?_append hfront] at h
    obtain ⟨rest, rfl⟩ := List.head?_eq_some_iff.1 h
    have hy : y ∉ front := fun hmem => hapart y hmem y (by simp) rfl
    have hne : x ≠ y := fun heq => (List.nodup_cons.1 hbehind).1 (heq ▸ List.mem_cons_self)
    rw [List.idxOf_append_of_notMem hfront, List.idxOf_append_of_notMem hy, List.idxOf_cons_self,
      List.idxOf_cons_ne _ hne]
    omega
  · rw [nextIn?_eq_none hx] at h
    cases h

/-- In terms of blocks, the range of an edge stops behind its block. -/
theorem rangeFor_of_rangeOf {order : List BlockId} (hnodup : order.Nodup) {e : CatchEdge} {t : Trap}
    {r : TrapRange} (ht : TrapFor b block e t) (h : rangeOf b.flow order t = .ok r) :
    RangeFor order block e r := by
  obtain ⟨start, hstart, h⟩ := bind_eq_ok_iff.1 h
  obtain ⟨handler, hhandler, h⟩ := bind_eq_ok_iff.1 h
  obtain ⟨stop, hstop, h⟩ := bind_eq_ok_iff.1 h
  cases h
  rw [blockOf_eq_ok_iff, ht.start] at hstart
  rw [blockOf_eq_ok_iff, ht.handler] at hhandler
  cases hstart
  cases hhandler
  refine ⟨ht.exception, rfl, fun y hy => ?_, rfl⟩
  dsimp only at hy
  -- A stop that is not behind the block is moved to the next one, or to the end of the method.
  split at hy
  · rename_i hlt
    cases hy
    exact hlt
  · split at hy
    · rename_i hnext
      cases hy
      exact idxOf_lt_of_nextIn? hnodup hnext
    · cases hy

namespace Layout

/-- A layout has one range for each edge that ranges are made of, block by block. -/
theorem forall₂_traps (hb : b.Partitioned) (h : Layout.ofBody b lines = .ok layout)
    {blocks : List Block} (hblocks : layout.order.mapM (getBlock b.flow) = .ok blocks) :
    List.Forall₂ (fun y t => TrapFor b y.1 y.2 t) (protections blocks) layout.traps := by
  have hparts := ofBody_eq_ok h
  obtain ⟨blocks', traps, hblocks', htraps, heq, -⟩ := hparts.traps
  obtain rfl : blocks = blocks' := Except.ok.inj (hblocks.symm.trans hblocks')
  have hpieces : List.Forall₂ (fun block ts => List.Forall₂ (TrapFor b block) (guardedEdges block)
      ts.eraseDups) blocks traps := by
    refine ((List.forall₂_and_left blocks traps).2
      ⟨fun _ h => h, mapM_eq_ok_iff.1 htraps⟩).imp ?_
    rintro block ts ⟨hmem, hts⟩
    exact forall₂_trapsOf hb (fun block hblock => (hparts.checked block hblock).1)
      ((perm_of_mapM_getBlock hb h hblocks).mem_iff.1 hmem) hts
  -- Blocks share no range, as each starts with its block.
  have hdisjoint : traps.Pairwise List.Disjoint := by
    rw [List.pairwise_iff_getElem]
    intro i j hi hj hij t hti htj
    have hlength := hpieces.length_eq
    have howner : ∀ (k : Nat) (hk : k < traps.length), t ∈ traps[k] →
        b.flow.owner? t.start = layout.order[k]? := by
      intro k hk ht
      obtain ⟨e, -, htrap⟩ := exists_left_of_mem (hpieces.get (hlength ▸ hk) hk)
        (List.mem_eraseDups.2 ht)
      rw [htrap.start, ← map_id_of_mapM_getBlock hblocks]
      simp [hlength ▸ hk]
    have hids := (howner i hi hti).symm.trans (howner j hj htj)
    have hilt : i < layout.order.length := by
      rw [← map_id_of_mapM_getBlock hblocks, List.length_map]
      exact hlength ▸ hi
    exact hij.ne ((List.getElem?_inj hilt (nodup_order h)).1 hids)
  rw [heq, eraseDups_flatten hdisjoint, protections, List.flatMap_def]
  refine List.rel_flatten ?_
  refine List.forall₂_map_left_iff.2 (List.forall₂_map_right_iff.2 (hpieces.imp ?_))
  exact fun block ts h => List.forall₂_map_left_iff.2 h

end Layout

end BytecodeLowering.Lowering
