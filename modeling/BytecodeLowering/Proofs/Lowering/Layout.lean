import BytecodeLowering.Proofs.Ir.Segments
import BytecodeLowering.Proofs.Lowering.Parts
import Mathlib.Data.List.TakeWhile

/-!
# Layout of bodies

What the layout of a body is made of, and the layout of a body whose blocks are the pieces of its
statements.

* `checkBlocks_eq_ok_iff`, `forall₂_of_handlersOf`, `exists_owner_of_jumpTargets`: what is looked up
  in the graph.
* `boundary_eq_ok_iff`, `guardOf_eq_ok_iff`: the entry of the exception table for a range.
* `Layout.ofBody_eq_ok`: what a layout is made of.
* `Layout.nodup_order`: no block is put down twice, whatever graph the blocks come from.
* `Layout.order_eq`, `Layout.next?_eq`: the blocks are put down in the order of the pieces.
* `Layout.next?_of_continuation?`: control goes on to the block that comes next.
* `Layout.get?_labels_eq_some_iff`: the label of a block counts the blocks with labels in front of
  it, so that blocks have labels of their own.
* `Labels.all`, `Layout.nodup_all`, `Layout.filterMap_get?`: the labels are different, and those of
  the blocks come in the order of the blocks.
-/

namespace BytecodeLowering.Lowering

open Ir Machine

variable {b : Body} {lines : Bool} {layout : Layout} {segs : List (List Stmt)}

/-- The block behind another one is the one that follows its first occurrence. -/
theorem nextIn?_append {front rest : List BlockId} {x : BlockId} (hx : x ∉ front) :
    nextIn? (front ++ x :: rest) x = rest.head? := by
  have hdrop : (front ++ x :: rest).dropWhile (· ≠ x) = x :: rest := by
    induction front with
    | nil => simp
    | cons y ys ih =>
      obtain ⟨hy, hys⟩ := not_or.1 (mt List.mem_cons.2 hx)
      rw [List.cons_append, List.dropWhile_cons_of_pos (by simpa using Ne.symm hy), ih hys]
  rw [nextIn?, hdrop, List.tail_cons]

/-- Nothing comes behind a block that is not put down. -/
theorem nextIn?_eq_none {order : List BlockId} {x : BlockId} (h : x ∉ order) :
    nextIn? order x = none := by
  have hdrop : order.dropWhile (· ≠ x) = [] := by
    rw [List.dropWhile_eq_nil_iff]
    intro y hy
    simpa using fun heq : y = x => h (heq ▸ hy)
  rw [nextIn?, hdrop]
  rfl

/-- The check of the blocks passes iff each has statements, and only such as there are. -/
theorem checkBlocks_eq_ok_iff : checkBlocks b = .ok () ↔ ∀ block ∈ b.flow.blocks,
    block.stmts ≠ [] ∧ ∀ s ∈ block.stmts, ∃ stmt, b.stmt? s = some stmt := by
  rw [checkBlocks, forM_eq_ok_iff]
  refine forall₂_congr fun block _ => ?_
  have hstmt : ∀ s, (if (b.stmt? s).isNone then inconsistent (.undefinedStmt block.id s)
      else pure () : Lowered Unit) = .ok () ↔ ∃ stmt, b.stmt? s = some stmt := by
    intro s
    cases b.stmt? s <;> simp [inconsistent, pure, Except.pure]
  split
  · rename_i hempty
    refine iff_of_false (fun h => ?_) fun h => h.1 (List.isEmpty_iff.1 hempty)
    cases h
  · rename_i hne
    rw [forM_eq_ok_iff, and_iff_right (mt List.isEmpty_iff.2 hne)]
    exact forall₂_congr fun s _ => hstmt s

/-- A block of a layout is the last one with its number. -/
theorem getBlock_eq_ok_iff {g : Flow} {x : BlockId} {block : Block} :
    getBlock g x = .ok block ↔ lastBlock? g x = some block := by
  cases h : lastBlock? g x <;> simp [getBlock, h, inconsistent]

/-- What is found by a number is a block with the number. -/
theorem mem_of_lastBlock? {g : Flow} {x : BlockId} {block : Block}
    (h : lastBlock? g x = some block) : block ∈ g.blocks ∧ block.id = x :=
  ⟨List.mem_reverse.1 (List.mem_of_find?_eq_some h), by simpa using List.find?_some h⟩

/-- A block of a layout is one of the graph. -/
theorem mem_of_getBlock {g : Flow} {x : BlockId} {block : Block} (h : getBlock g x = .ok block) :
    block ∈ g.blocks :=
  (mem_of_lastBlock? (getBlock_eq_ok_iff.1 h)).1

/-- So are all blocks of a layout. -/
theorem mem_of_mapM_getBlock {g : Flow} {order : List BlockId} {blocks : List Block}
    (h : order.mapM (getBlock g) = .ok blocks) : ∀ block ∈ blocks, block ∈ g.blocks := by
  intro block hblock
  obtain ⟨x, -, hx⟩ := (mem_iff_of_mapM_eq_ok h).1 hblock
  exact mem_of_getBlock hx

/-- A block is a single return if it lists one statement, and that one is a return. -/
theorem isReturnBlock_iff {block : Block} : isReturnBlock b block ↔
    ∃ t ret, block.stmts = [t] ∧ b.stmt? t = some ret ∧ ret.kind.isReturn := by
  rw [isReturnBlock]
  rcases block.stmts with _ | ⟨t, _ | ⟨t', rest⟩⟩ <;> simp [Option.any_eq_true]

/-- The block of a statement of the list is the one that owns it. -/
theorem ownerOf_eq_ok_iff {g : Flow} {s : Stmt} {x : BlockId} :
    ownerOf g s = .ok x ↔ g.owner? s.id = some x := by
  cases h : g.owner? s.id <;> simp [ownerOf, h, inconsistent]

/-- The handlers of a block are those that its edges lead to. -/
theorem forall₂_of_handlersOf {g : Flow} {block : Block} {handlers : List (ClassName × Block)}
    (h : handlersOf g block = .ok handlers) :
    List.Forall₂ (fun e x => lastBlock? g e.handler = some x.2 ∧ e.exception = x.1) block.catches
      handlers := by
  refine (mapM_eq_ok_iff.1 h).imp fun e x hx => ?_
  cases hlast : lastBlock? g e.handler with
  | none =>
    rw [hlast] at hx
    cases hx
  | some y =>
    rw [hlast] at hx
    cases hx
    exact ⟨rfl, rfl⟩

/-- The targets of a statement are owned by blocks. The statement jumps to these, unless it is a goto,
which may become a return. -/
theorem exists_owner_of_jumpTargets {s : Stmt} {ids : List BlockId} {t : StmtId}
    (h : jumpTargets b s = .ok ids) (ht : t ∈ s.kind.targets) :
    ∃ x, b.flow.owner? t = some x ∧ (x ∈ ids ∨ s.kind = .goto t) := by
  simp only [← blockOf_eq_ok_iff]
  unfold jumpTargets at h
  cases hkind : s.kind with
  | branch cond target =>
    obtain rfl : t = target := by simpa [hkind, StmtKind.targets] using ht
    simp only [hkind] at h
    obtain ⟨x, hx, h⟩ := bind_eq_ok_iff.1 h
    cases h
    exact ⟨x, hx, .inl List.mem_cons_self⟩
  | goto target =>
    obtain rfl : t = target := by simpa [hkind, StmtKind.targets] using ht
    simp only [hkind] at h
    obtain ⟨x, hx, -⟩ := bind_eq_ok_iff.1 h
    exact ⟨x, hx, .inr rfl⟩
  | switch key values targets default =>
    simp only [hkind] at h
    split at h
    · cases h
    · rw [hkind, StmtKind.targets] at ht
      obtain ⟨x, hx, hblock⟩ := exists_right_of_mem (mapM_eq_ok_iff.1 h) ht
      exact ⟨x, hblock, .inl hx⟩
  | _ =>
    rw [hkind] at ht
    cases ht

/-- The label of a block that has to have one is that of the block. -/
theorem get_eq_ok_iff {labels : Labels} {x : BlockId} {l : Label} :
    labels.get x = .ok l ↔ labels.get? x = some l := by
  rw [Labels.get]
  cases labels.get? x <;> simp [inconsistent]

/-- The label of the end of a range is that of a block, or the one behind all blocks. -/
theorem boundary_eq_ok_iff {labels : Labels} {x : Boundary} {l : Label} :
    labels.boundary x = .ok l ↔
      (∃ y, x = .block y ∧ labels.get? y = some l) ∨ x = .methodEnd ∧ labels.stop = some l := by
  cases x with
  | block y => simp [Labels.boundary, get_eq_ok_iff]
  | methodEnd => cases hstop : labels.stop <;> simp [Labels.boundary, hstop, inconsistent]

/-- The entry of the exception table for an exception range has the labels of its blocks. -/
theorem guardOf_eq_ok_iff {labels : Labels} {r : TrapRange} {g : Guard} :
    labels.guardOf r = .ok g ↔ labels.get? r.start = some g.start ∧
      labels.boundary r.stop = .ok g.stop ∧ labels.get? r.handler = some g.handler ∧
      g.exception = some r.exception.internalName := by
  simp only [Labels.guardOf, bind_eq_ok_iff, get_eq_ok_iff]
  constructor
  · rintro ⟨start, hstart, stop, hstop, handler, hhandler, ⟨⟩⟩
    exact ⟨hstart, hstop, hhandler, rfl⟩
  · obtain ⟨start, stop, handler, exception⟩ := g
    rintro ⟨hstart, hstop, hhandler, rfl⟩
    exact ⟨start, hstart, stop, hstop, handler, hhandler, rfl⟩

/-- The labels of the blocks and the one of the end of the method. -/
def Labels.all (labels : Labels) : List Label :=
  labels.blocks.map Prod.snd ++ labels.stop.toList

/-- The label of a block is one of them. -/
theorem Labels.mem_all_of_get? {labels : Labels} {x : BlockId} {l : Label}
    (h : labels.get? x = some l) : l ∈ labels.all :=
  List.mem_append_left _ (List.mem_map.2 ⟨(x, l), mem_of_lookup_eq_some h, rfl⟩)

namespace Layout

/-- What the layout of a body is made of. -/
structure Parts (b : Body) (lines : Bool) (layout : Layout) : Prop where
  /-- Every block has statements, and they exist. -/
  checked : ∀ block ∈ b.flow.blocks,
    block.stmts ≠ [] ∧ ∀ s ∈ block.stmts, ∃ stmt, b.stmt? s = some stmt
  /-- The blocks are those of the statements. -/
  order : blockOrder b = .ok layout.order
  /-- The exception ranges are those of the blocks. -/
  traps : ∃ blocks traps, layout.order.mapM (getBlock b.flow) = .ok blocks ∧
    blocks.mapM (trapsOf b.flow) = .ok traps ∧ layout.traps = traps.flatten.eraseDups ∧
    layout.handlers = blocks.flatMap fun block => block.catches.map CatchEdge.handler
  /-- The ranges in terms of blocks. -/
  ranges : layout.traps.mapM (rangeOf b.flow layout.order) = .ok layout.ranges
  /-- Control goes on behind the last statements of blocks. -/
  continuations : layout.continuations = continuationsOf b.flow b.stmts
  /-- The blocks at the ends of ranges, those that are jumped to, those that are continued to from
  elsewhere, and with line numbers those that start a line need labels. -/
  targets : ∃ jumps, b.stmts.mapM (jumpTargets b) = .ok jumps ∧
    layout.targets = layout.ranges.flatMap TrapRange.blocks ++ jumps.flatten ++
      detours b.flow layout.order layout.continuations ++
        if lines then layout.order.filter (hasLine b) else []

/-- A layout is made of its parts. -/
theorem ofBody_eq_ok (h : Layout.ofBody b lines = .ok layout) : Parts b lines layout := by
  unfold Layout.ofBody at h
  obtain ⟨_, hchecked, h⟩ := bind_eq_ok_iff.1 h
  obtain ⟨order, horder, h⟩ := bind_eq_ok_iff.1 h
  obtain ⟨blocks, hblocks, h⟩ := bind_eq_ok_iff.1 h
  obtain ⟨traps, htraps, h⟩ := bind_eq_ok_iff.1 h
  obtain ⟨ranges, hranges, h⟩ := bind_eq_ok_iff.1 h
  obtain ⟨jumps, hjumps, h⟩ := bind_eq_ok_iff.1 h
  cases h
  exact
    { checked := checkBlocks_eq_ok_iff.1 hchecked
      order := horder
      traps := ⟨blocks, traps, hblocks, htraps, rfl, rfl⟩
      ranges := hranges
      continuations := rfl
      targets := ⟨jumps, hjumps, rfl⟩ }

/-- No block is put down twice. -/
theorem nodup_order (h : Layout.ofBody b lines = .ok layout) : layout.order.Nodup := by
  obtain ⟨owners, -, heq⟩ := map_eq_ok_iff.1 (ofBody_eq_ok h).order
  rw [← heq]
  exact nodup_eraseDups owners

/-- The owners of the statements of the last pieces are the numbers of these pieces. -/
theorem eraseDups_owners (hcut : Cut b segs) {done rest : List (List Stmt)} {owners : List BlockId}
    (hsegs : segs = done ++ rest)
    (h : List.Forall₂ (fun s x => ownerOf b.flow s = .ok x) rest.flatten owners) :
    owners.eraseDups = (List.range' done.length rest.length).map BlockId.mk ∧
      ∀ x ∈ owners, done.length ≤ x.val := by
  induction rest generalizing done owners with
  | nil =>
    cases h
    simp
  | cons seg rest ih =>
    obtain ⟨here, behind, hhere, hbehind, rfl⟩ := exists_append_of_forall₂ h
    have hsplit : segs = (done ++ [seg]) ++ rest := by simp [hsegs]
    obtain ⟨hdups, hbound⟩ := ih hsplit hbehind
    rw [List.length_append, List.length_singleton] at hdups hbound
    -- All statements of the piece have one owner, and no later piece has it.
    have hk : segs[done.length]? = some seg := by simp [hsegs]
    have howner : here = List.replicate here.length ⟨done.length⟩ := by
      refine List.eq_replicate_of_mem fun x hx => ?_
      obtain ⟨s, hs, hx⟩ := exists_left_of_mem hhere hx
      simpa [ownerOf, hcut.owner?_eq hk hs, eq_comm] using hx
    have hnonempty : here.length ≠ 0 := by
      intro hnil
      obtain rfl := List.length_eq_zero_iff.1 hnil
      cases hhere
      exact hcut.nil_notMem (List.mem_of_getElem? hk)
    have hfresh : ⟨done.length⟩ ∉ behind :=
      fun hmem => Nat.not_succ_le_self done.length (hbound _ hmem)
    refine ⟨?_, ?_⟩
    · rw [howner, eraseDups_replicate_append hnonempty hfresh, hdups, List.length_cons,
        List.range'_succ, List.map_cons]
    · intro x hx
      rcases List.mem_append.1 hx with hx | hx
      · rw [howner] at hx
        rw [List.eq_of_mem_replicate hx]
      · exact Nat.le_of_succ_le (hbound x hx)

/-- The blocks are put down in the order of the pieces. -/
theorem order_eq (hcut : Cut b segs) (h : Layout.ofBody b lines = .ok layout) :
    layout.order = (List.range segs.length).map BlockId.mk := by
  obtain ⟨owners, howners, heq⟩ := map_eq_ok_iff.1 (ofBody_eq_ok h).order
  rw [mapM_eq_ok_iff, ← hcut.flatten] at howners
  have hsplit : segs = [] ++ segs := rfl
  rw [← heq, (eraseDups_owners hcut hsplit howners).1, List.range_eq_range']
  rfl

/-- The block that comes next is the one with the next number, if there is one. -/
theorem next?_eq (hcut : Cut b segs) (h : Layout.ofBody b lines = .ok layout) {k : Nat}
    (hk : k < segs.length) :
    layout.next? ⟨k⟩ = if k + 1 < segs.length then some ⟨k + 1⟩ else none := by
  -- The blocks come by number, so that the one with the next number stands behind the block.
  have hsplit : layout.order = ((List.range segs.length).map BlockId.mk).take k ++
      ⟨k⟩ :: ((List.range segs.length).map BlockId.mk).drop (k + 1) := by
    rw [order_eq hcut h]
    conv_lhs => rw [← List.take_append_drop k ((List.range segs.length).map BlockId.mk)]
    rw [List.drop_eq_getElem_cons (by simpa using hk)]
    simp
  rw [Layout.next?, hsplit, nextIn?_append, List.head?_drop]
  · split <;> simp_all
  · intro hmem
    obtain ⟨i, hi, hik⟩ := List.mem_take_iff_getElem.1 hmem
    simp at hi hik
    omega

/-- Control goes on from a statement to the owner of the statement behind it. -/
theorem exists_of_mem_continuationsOf {g : Flow} {stmts : List Stmt} {x : StmtId × BlockId}
    (h : x ∈ continuationsOf g stmts) : ∃ front s s' rest, stmts = front ++ s :: s' :: rest ∧
      x.1 = s.id ∧ s.kind.fallsThrough ∧ g.owner? s'.id = some x.2 := by
  induction stmts with
  | nil => cases h
  | cons s stmts ih =>
    rw [continuationsOf, List.mem_append] at h
    rcases h with h | h
    · obtain ⟨y, hy, rfl⟩ := Option.map_eq_some_iff.1 (Option.mem_toList.1 h)
      cases stmts with
      | nil => cases hy
      | cons s' rest =>
        refine ⟨[], s, s', rest, rfl, rfl, ?_⟩
        simp only [Lowering.continuation?, List.head?_cons, Option.bind_eq_bind,
          Option.bind_some, Option.bind_eq_some_iff] at hy
        obtain ⟨current, -, block, -, hy⟩ := hy
        split at hy
        · rename_i hfall
          exact ⟨hfall.1, hy⟩
        · cases hy
    · obtain ⟨front, s', s'', rest, rfl, hnext⟩ := ih h
      exact ⟨s :: front, s', s'', rest, rfl, hnext⟩

/-- The continuation of a statement is one of those of the layout. -/
theorem mem_of_continuation? {t : StmtId} {x : BlockId} (h : layout.continuation? t = some x) :
    (t, x) ∈ layout.continuations := by
  obtain ⟨⟨s, y⟩, hfind, rfl⟩ := Option.map_eq_some_iff.1 h
  obtain rfl : s = t := by simpa using List.find?_some hfind
  exact List.mem_reverse.1 (List.mem_of_find?_eq_some hfind)

/-- Control goes on from a statement that falls through, and to the owner of the statement behind
it. -/
theorem exists_of_continuation? (hcut : Cut b segs) (h : Layout.ofBody b lines = .ok layout)
    {s : Stmt} {x : BlockId} (hs : s ∈ b.stmts) (hx : layout.continuation? s.id = some x) :
    ∃ front s' rest, b.stmts = front ++ s :: s' :: rest ∧ s.kind.fallsThrough ∧
      b.flow.owner? s'.id = some x := by
  have hmem := mem_of_continuation? hx
  rw [(ofBody_eq_ok h).continuations] at hmem
  obtain ⟨front, s₁, s', rest, hstmts, hid, hfalls, howner⟩ := exists_of_mem_continuationsOf hmem
  obtain rfl : s = s₁ := hcut.stmt_inj hs (by simp [hstmts]) hid
  exact ⟨front, s', rest, hstmts, hfalls, howner⟩

/-- Behind the last statement of a block control goes on to the block that comes next. -/
theorem next?_of_continuation? (hcut : Cut b segs) (h : Layout.ofBody b lines = .ok layout)
    {k : Nat} {seg : List Stmt} {last : Stmt} {x : BlockId} (hk : segs[k]? = some seg)
    (hlast : seg.getLast? = some last) (hx : layout.continuation? last.id = some x) :
    layout.next? ⟨k⟩ = some x := by
  have hmem : last ∈ b.stmts :=
    hcut.mem_stmts (List.mem_of_getElem? hk) (List.mem_of_getLast? hlast)
  obtain ⟨front, s', rest, hstmts, -, howner⟩ := exists_of_continuation? hcut h hmem hx
  obtain ⟨rest', hnext⟩ := hcut.exists_next hstmts hk hlast
  rw [next?_eq hcut h (List.getElem?_eq_some_iff.1 hk).1,
    if_pos (List.getElem?_eq_some_iff.1 hnext).1, ← howner,
    hcut.owner?_eq hnext List.mem_cons_self]

/-- A goto into a block without a label is one into a block that is a single return. -/
theorem exists_return_of_goto (h : Layout.ofBody b lines = .ok layout) {s : Stmt} {t : StmtId}
    {x : BlockId} (hs : s ∈ b.stmts) (ht : s.kind = .goto t) (hx : b.flow.owner? t = some x)
    (hlabel : layout.needsLabel x = false) :
    ∃ block t' ret, lastBlock? b.flow x = some block ∧ block.stmts = [t'] ∧
      b.stmt? t' = some ret ∧ ret.kind.isReturn := by
  obtain ⟨jumps, hjumps, htargets⟩ := (ofBody_eq_ok h).targets
  obtain ⟨ids, hids, hjump⟩ := exists_right_of_mem (mapM_eq_ok_iff.1 hjumps) hs
  -- A block that is jumped to has a label.
  have hnot : x ∉ ids := by
    intro hmem
    have hx : x ∈ layout.targets := by
      rw [htargets]
      exact List.mem_append_left _ (List.mem_append_left _
        (List.mem_append_right _ (List.mem_flatten.2 ⟨ids, hids, hmem⟩)))
    simp [needsLabel, hx] at hlabel
  rw [jumpTargets, ht] at hjump
  simp only [bind_eq_ok_iff, blockOf, hx] at hjump
  obtain ⟨_, ⟨⟩, block, hblock, hjump⟩ := hjump
  have hreturn : isReturnBlock b block := by
    by_contra hreturn
    rw [if_neg hreturn] at hjump
    cases hjump
    exact hnot List.mem_cons_self
  obtain ⟨t', ret, hlone⟩ := isReturnBlock_iff.1 hreturn
  exact ⟨block, t', ret, getBlock_eq_ok_iff.1 hblock, hlone⟩

/-- Such a block is a piece of one statement. -/
theorem lone_of_goto (hcut : Cut b segs) (h : Layout.ofBody b lines = .ok layout) {s ret : Stmt}
    {t : StmtId} {j : Nat} {rest : List Stmt} (hs : s ∈ b.stmts) (hgoto : s.kind = .goto t)
    (hj : segs[j]? = some (ret :: rest)) (ht : ret.id = t)
    (hlabel : layout.needsLabel ⟨j⟩ = false) : rest = [] ∧ ret.kind.isReturn := by
  have howner : b.flow.owner? t = some ⟨j⟩ := ht ▸ hcut.owner?_eq hj List.mem_cons_self
  obtain ⟨block, t', ret', hblock, hlone, hret, hreturn⟩ :=
    exists_return_of_goto h hs hgoto howner hlabel
  obtain ⟨block', hblock'⟩ := hcut.exists_block hj
  have heq : lastBlock? b.flow ⟨j⟩ = some block' := hcut.find?_eq hblock' (by simp)
  cases heq.symm.trans hblock
  rw [hcut.stmts_eq hblock' hj, List.map_cons] at hlone
  obtain ⟨rfl, hnil⟩ := List.cons.inj hlone
  have hmem : ret ∈ b.stmts := hcut.mem_stmts (List.mem_of_getElem? hj) List.mem_cons_self
  cases hret.symm.trans (hcut.stmt?_eq hmem)
  exact ⟨List.map_eq_nil_iff.1 hnil, hreturn⟩

/-- A switch has as many values as targets. -/
theorem switch_length (h : Layout.ofBody b lines = .ok layout) {s : Stmt} {key : Operand}
    {values : List Int32} {targets : List StmtId} {default : StmtId} (hs : s ∈ b.stmts)
    (hk : s.kind = .switch key values targets default) : values.length = targets.length := by
  obtain ⟨jumps, hjumps, -⟩ := (ofBody_eq_ok h).targets
  obtain ⟨ids, -, hjump⟩ := exists_right_of_mem (mapM_eq_ok_iff.1 hjumps) hs
  rw [jumpTargets, hk] at hjump
  by_contra hne
  simp only [hne, ne_eq, not_false_iff, if_true] at hjump
  cases hjump

/-- The blocks that have labels. -/
def labelled (layout : Layout) : List BlockId :=
  layout.order.filter layout.needsLabel

/-- Only blocks that are put down have labels. -/
theorem mem_order_of_get? {x : BlockId} {l : Label} (h : layout.labels.get? x = some l) :
    x ∈ layout.order := by
  have hmem : (x, l) ∈ layout.labels.blocks := mem_of_lookup_eq_some h
  obtain ⟨⟨y, n⟩, hy, heq⟩ := List.mem_map.1 hmem
  cases heq
  exact (List.mem_filter.1 (List.mem_of_getElem? (List.mem_zipIdx_iff_getElem?.1 hy))).1

/-- The lookup in a list that numbers distinct blocks finds the number of a block. -/
theorem lookup_zipIdx_eq_some_iff {xs : List BlockId} {n : Nat} {x : BlockId} {l : Label}
    (hnodup : xs.Nodup) :
    ((xs.zipIdx n).map fun (x, n) => (x, (⟨n⟩ : Label))).lookup x = some l ↔
      n ≤ l.id ∧ xs[l.id - n]? = some x := by
  induction xs generalizing n with
  | nil => simp
  | cons y ys ih =>
    obtain ⟨hy, hys⟩ := List.nodup_cons.1 hnodup
    simp only [List.zipIdx_cons, List.map_cons, List.lookup_cons]
    by_cases hxy : x = y
    · subst hxy
      simp only [beq_self_eq_true, Option.some.injEq]
      constructor
      · rintro rfl
        simp
      · rintro ⟨hle, hget⟩
        cases hsub : l.id - n with
        | zero =>
          have : l.id = n := by omega
          cases l
          simp_all
        | succ i =>
          -- The block would stand behind its first place as well.
          rw [hsub, List.getElem?_cons_succ] at hget
          exact absurd (List.mem_of_getElem? hget) hy
    · have hne : (x == y) = false := beq_false_of_ne hxy
      simp only [hne, ih hys]
      constructor
      · rintro ⟨hle, hget⟩
        refine ⟨Nat.le_of_succ_le hle, ?_⟩
        rwa [show l.id - n = l.id - (n + 1) + 1 by omega, List.getElem?_cons_succ]
      · rintro ⟨hle, hget⟩
        cases hsub : l.id - n with
        | zero =>
          rw [hsub, List.getElem?_cons_zero] at hget
          exact absurd (Option.some.inj hget).symm hxy
        | succ i =>
          rw [hsub, List.getElem?_cons_succ] at hget
          refine ⟨by omega, ?_⟩
          rwa [show l.id - (n + 1) = i by omega]

/-- The label of a block counts the labelled blocks in front of it. -/
theorem get?_labels_eq_some_iff (hnodup : layout.order.Nodup) {x : BlockId} {l : Label} :
    layout.labels.get? x = some l ↔ layout.labelled[l.id]? = some x := by
  refine (lookup_zipIdx_eq_some_iff (hnodup.filter _)).trans ?_
  simp [labelled]

/-- A block of a layout has a label iff it needs one. -/
theorem get?_labels_eq_none_iff (hnodup : layout.order.Nodup) {x : BlockId}
    (hx : x ∈ layout.order) : layout.labels.get? x = none ↔ layout.needsLabel x = false := by
  rw [← not_iff_not, ← ne_eq, Option.ne_none_iff_exists']
  constructor
  · rintro ⟨l, hl⟩
    have hmem := List.mem_of_getElem? ((get?_labels_eq_some_iff hnodup).1 hl)
    simpa using (List.mem_filter.1 hmem).2
  · intro hneeds
    have hmem : x ∈ layout.labelled := List.mem_filter.2 ⟨hx, by simpa using hneeds⟩
    obtain ⟨n, hn⟩ := List.getElem?_of_mem hmem
    exact ⟨⟨n⟩, (get?_labels_eq_some_iff hnodup).2 hn⟩

/-- Blocks have labels of their own. -/
theorem get?_labels_inj (hnodup : layout.order.Nodup) {x y : BlockId} {l : Label}
    (hx : layout.labels.get? x = some l) (hy : layout.labels.get? y = some l) : x = y := by
  rw [get?_labels_eq_some_iff hnodup] at hx hy
  exact Option.some.inj (hx.symm.trans hy)

/-- The label of the end of the method is none of a block. -/
theorem get?_labels_ne_stop (hnodup : layout.order.Nodup) {x : BlockId} {l : Label}
    (hx : layout.labels.get? x = some l) : layout.labels.stop ≠ some l := by
  have hlt := (List.getElem?_eq_some_iff.1 ((get?_labels_eq_some_iff hnodup).1 hx)).1
  intro hstop
  have hl : layout.needsEndLabel ∧ ⟨layout.labelled.length⟩ = l := by
    simpa [Layout.labels, labelled] using hstop
  rw [← hl.2] at hlt
  exact Nat.lt_irrefl _ hlt

/-- All labels that a layout gives are different. -/
theorem nodup_all : layout.labels.all.Nodup := by
  have hblocks : layout.labels.blocks.map Prod.snd =
      (List.range layout.labelled.length).map Label.mk := by
    rw [List.range_eq_range', ← List.zipIdx_map_snd 0, List.map_map]
    exact List.map_map
  rw [Labels.all, hblocks]
  have hinj : Function.Injective Label.mk := fun _ _ => Label.mk.inj
  refine List.Nodup.append (List.nodup_range.map hinj) ?_ ?_
  · cases layout.labels.stop <;> simp
  · -- The label of the end is behind those of the blocks.
    intro l hl hstop
    obtain ⟨n, hn, rfl⟩ := List.mem_map.1 hl
    have hend : layout.needsEndLabel ∧ layout.labelled.length = n := by
      simpa [Layout.labels, labelled] using hstop
    exact absurd (List.mem_range.1 hn) (hend.2 ▸ Nat.lt_irrefl _)

/-- The labels of the blocks come in the order of the blocks. -/
theorem filterMap_get? (hnodup : layout.order.Nodup) :
    layout.order.filterMap layout.labels.get? = layout.labels.blocks.map Prod.snd := by
  have hneeds : ∀ x ∈ layout.order, layout.labels.get? x =
      if layout.needsLabel x then layout.labels.get? x else none := by
    intro x hx
    cases hx' : layout.needsLabel x with
    | true => rfl
    | false => exact (get?_labels_eq_none_iff hnodup hx).2 hx'
  rw [List.filterMap_congr hneeds, ← List.filterMap_filter]
  refine filterMap_eq_map_of_forall₂ ?_
  refine List.forall₂_map_left_iff.2 (List.forall₂_iff_get.2 ⟨by simp, fun k hk hk' => ?_⟩)
  refine (get?_labels_eq_some_iff hnodup).2 ?_
  simp [labelled]

end Layout

end BytecodeLowering.Lowering
