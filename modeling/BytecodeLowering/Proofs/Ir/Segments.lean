import BytecodeLowering.Proofs.Ir.Partition
import BytecodeLowering.Proofs.Result
import Mathlib.Data.List.SplitBy

/-!
# Statements of the blocks of a body

The block graph of a statement list, told by the pieces that it cuts the list into.

* `Flow.pieces`: the statements between the leaders of a statement list.
* `Cut`: the pieces make up the statements of a body, each is a block, a branch leads to the head of
  a piece, and nothing but the last statement of a piece ends a block.
* `Cut.ofStmts`: the block graph of a statement list comes with such pieces.
* `Cut.block?_eq`, `Cut.owner?_eq`, `Cut.stmt?_eq`: what the lookups of the graph find.
* `headPlace`: where a piece starts among the statements.
-/

namespace BytecodeLowering.Ir

namespace Flow

variable {stmts : List Stmt} {traps : List Trap}

/-- The pieces of a statement list that are its blocks. -/
def pieces (stmts : List Stmt) (traps : List Trap) : List (List Stmt) :=
  (segments stmts traps).map (List.map Prod.fst)

/-- A statement list has a block graph iff its statements have numbers of their own and everything
that is named exists. -/
theorem ofStmts_eq_ok_iff {g : Flow} :
    ofStmts stmts traps = .ok g ↔
      (stmts.map Stmt.id).Nodup ∧ (∀ t ∈ named stmts traps, ∃ s ∈ stmts, s.id = t) ∧
        g = ⟨(segments stmts traps).zipIdx.map fun (seg, ordinal) =>
          blockOf stmts traps (segments stmts traps) ordinal seg⟩ := by
  rw [ofStmts, ← firstRepeat?_eq_none_iff]
  cases hrepeat : firstRepeat? (stmts.map Stmt.id) with
  | some id => simp
  | none =>
    cases hundefined : (named stmts traps).find? fun id => (position? stmts id).isNone with
    | some id =>
      have hnone : position? stmts id = none := by simpa using List.find?_some hundefined
      have hmem := List.mem_of_find?_eq_some hundefined
      simp only [reduceCtorEq, true_and, false_iff, not_and]
      intro hnamed
      obtain ⟨s, hs, hid⟩ := hnamed id hmem
      rw [position?, List.findIdx?_eq_none_iff] at hnone
      simpa [hid] using hnone s hs
    | none =>
      have hnamed : ∀ t ∈ named stmts traps, ∃ s ∈ stmts, s.id = t := by
        intro t ht
        have hsome := List.find?_eq_none.1 hundefined t ht
        simpa [position?] using hsome
      simp only [Except.ok.injEq, true_and]
      exact ⟨fun h => ⟨hnamed, h.symm⟩, fun h => h.2.symm⟩

/-- The pieces make up the statements. -/
theorem flatten_pieces (stmts : List Stmt) (traps : List Trap) :
    (pieces stmts traps).flatten = stmts := by
  rw [pieces, ← List.map_flatten, segments, List.flatten_splitBy, List.zipIdx_map_fst]

/-- No piece is empty. -/
theorem nil_notMem_pieces : [] ∉ pieces stmts traps := by
  intro h
  obtain ⟨seg, hseg, hnil⟩ := List.mem_map.1 h
  rw [List.map_eq_nil_iff] at hnil
  exact List.nil_notMem_splitBy _ _ (hnil ▸ hseg)

/-- Inside a piece no statement is named, and none has one in front of it that ends a block. -/
theorem inner_of_mem_pieces {seg front rest : List Stmt} {s s' : Stmt}
    (hseg : seg ∈ pieces stmts traps) (heq : seg = front ++ s :: s' :: rest) :
    s.kind.endsBlock = false ∧ s'.id ∉ named stmts traps := by
  obtain ⟨group, hgroup, rfl⟩ := List.mem_map.1 hseg
  obtain ⟨gfront, grest, rfl, rfl, hrest⟩ := List.map_eq_append_iff.1 heq
  obtain ⟨x, xrest, rfl, rfl, hxrest⟩ := List.map_eq_cons_iff.1 hrest
  obtain ⟨y, yrest, rfl, rfl, -⟩ := List.map_eq_cons_iff.1 hxrest
  -- The statement behind the gap does not lead a block.
  have hinner := (List.isChain_append_cons_cons.1 (List.isChain_of_mem_splitBy hgroup)).2.1
  obtain ⟨before, after, hsplit⟩ := List.append_of_mem hgroup
  have hflatten : stmts.zipIdx =
      (before.flatten ++ gfront) ++ x :: y :: (yrest ++ after.flatten) := by
    rw [← List.flatten_splitBy (fun _ s => !isLeader stmts traps s.2) stmts.zipIdx, ← segments,
      hsplit]
    simp
  obtain ⟨n, hn⟩ : ∃ n, n = (before.flatten ++ gfront).length := ⟨_, rfl⟩
  have hx : stmts.zipIdx[n]? = some x := by
    rw [hflatten, hn, List.getElem?_append_right (Nat.le_refl _), Nat.sub_self]
    rfl
  have hy : stmts.zipIdx[n + 1]? = some y := by
    rw [hflatten, hn, List.getElem?_append_right (Nat.le_add_right _ 1), Nat.add_sub_cancel_left]
    rfl
  obtain ⟨a, ha, rfl⟩ := Option.map_eq_some_iff.1 (List.getElem?_zipIdx ▸ hx)
  obtain ⟨c, hc, rfl⟩ := Option.map_eq_some_iff.1 (List.getElem?_zipIdx ▸ hy)
  simpa [isLeader, ha, hc, and_comm] using hinner

/-- What is named heads a piece. -/
theorem exists_head_of_mem_named (h : ∀ t ∈ named stmts traps, ∃ s ∈ stmts, s.id = t)
    {t : StmtId} (ht : t ∈ named stmts traps) :
    ∃ (j : Nat) (s : Stmt) (rest : List Stmt),
      (pieces stmts traps)[j]? = some (s :: rest) ∧ s.id = t := by
  obtain ⟨s, hs, rfl⟩ := h t ht
  obtain ⟨seg, hseg, hs⟩ := List.mem_flatten.1 ((flatten_pieces stmts traps).symm ▸ hs)
  obtain ⟨front, rest, rfl⟩ := List.append_of_mem hs
  obtain ⟨j, hj⟩ := List.getElem?_of_mem hseg
  rcases List.eq_nil_or_concat front with rfl | ⟨front, x, rfl⟩
  · exact ⟨j, s, rest, hj, rfl⟩
  · have hsplit : front.concat x ++ s :: rest = front ++ x :: s :: rest := by simp
    exact absurd ht (inner_of_mem_pieces hseg hsplit).2

/-- As numbers are used once, a piece with a statement of the number that another piece has at its
head is that piece. -/
theorem piece_unique (hnodup : (stmts.map Stmt.id).Nodup) {s : Stmt} {rest seg : List Stmt}
    {k i : Nat} (hk : (pieces stmts traps)[k]? = some (s :: rest))
    (hi : (pieces stmts traps)[i]? = some seg) (hseg : ∃ x ∈ seg, x.id = s.id) : i = k := by
  obtain ⟨x, hx, hid⟩ := hseg
  have hflat := flatten_pieces stmts traps
  have hxmem : x ∈ stmts := hflat ▸ List.mem_flatten.2 ⟨seg, List.mem_of_getElem? hi, hx⟩
  have hsmem : s ∈ stmts :=
    hflat ▸ List.mem_flatten.2 ⟨_, List.mem_of_getElem? hk, List.mem_cons_self⟩
  obtain rfl := List.inj_on_of_nodup_map hnodup hxmem hsmem hid
  exact index_unique (hflat.symm ▸ hnodup.of_map) hk hi List.mem_cons_self hx

/-- The search for the piece of the head of a piece finds that piece. -/
theorem segmentOf?_head (hnodup : (stmts.map Stmt.id).Nodup) {s : Stmt} {rest : List Stmt} {k : Nat}
    (hk : (pieces stmts traps)[k]? = some (s :: rest)) :
    segmentOf? (segments stmts traps) s.id = some ⟨k⟩ := by
  have hfind :
      (pieces stmts traps).findIdx? (fun seg => seg.any fun x => x.id = s.id) = some k := by
    obtain ⟨hlt, heq⟩ := List.getElem?_eq_some_iff.1 hk
    refine List.findIdx?_eq_some_iff_getElem.2 ⟨hlt, by simp [heq], fun i hi hany => ?_⟩
    have hilt : i < (pieces stmts traps).length := hi.trans hlt
    have := piece_unique hnodup hk (List.getElem?_eq_getElem hilt) (by simpa using hany)
    omega
  rw [pieces, List.findIdx?_map] at hfind
  rw [segmentOf?, Option.map_eq_some_iff]
  refine ⟨k, ?_, rfl⟩
  rw [← hfind]
  congr 1
  ext seg
  simp [Function.comp_def]

/-- The search for the piece of a target finds the one that the target heads. -/
theorem segmentOf?_eq_some_iff (hnodup : (stmts.map Stmt.id).Nodup)
    (h : ∀ t ∈ named stmts traps, ∃ s ∈ stmts, s.id = t) {t : StmtId}
    (ht : t ∈ named stmts traps) {j : Nat} :
    segmentOf? (segments stmts traps) t = some ⟨j⟩ ↔
      ∃ s rest, (pieces stmts traps)[j]? = some (s :: rest) ∧ s.id = t := by
  obtain ⟨k, s, rest, hk, rfl⟩ := exists_head_of_mem_named h ht
  rw [segmentOf?_head hnodup hk]
  constructor
  · intro heq
    cases heq
    exact ⟨s, rest, hk, rfl⟩
  · rintro ⟨s', rest', hj, hid⟩
    rw [piece_unique hnodup hk hj ⟨s', List.mem_cons_self, hid⟩]

/-- A block is left for the next one, if its last statement falls through, and for those that the
targets of its last statement head. -/
theorem mem_successors_blockOf_iff (hnodup : (stmts.map Stmt.id).Nodup)
    (h : ∀ t ∈ named stmts traps, ∃ s ∈ stmts, s.id = t) {group : List (Stmt × Nat)}
    {last : Stmt × Nat} (hlast : group.getLast? = some last)
    (htargets : ∀ t ∈ last.1.kind.targets, t ∈ named stmts traps) {k j : Nat} :
    ⟨j⟩ ∈ (blockOf stmts traps (segments stmts traps) k group).successors ↔
      last.1.kind.fallsThrough ∧ j = k + 1 ∧ k + 1 < (pieces stmts traps).length ∨
        ∃ s rest, (pieces stmts traps)[j]? = some (s :: rest) ∧ s.id ∈ last.1.kind.targets := by
  have hlength : (pieces stmts traps).length = (segments stmts traps).length := by simp [pieces]
  simp only [blockOf, hlast, List.mem_eraseDups, List.mem_append, List.mem_filterMap, hlength]
  refine or_congr ?_ ⟨?_, ?_⟩
  · split
    · rename_i hnext
      simp [hnext]
    · rename_i hnext
      simp only [List.not_mem_nil, false_iff]
      exact fun hj => hnext ⟨hj.1, hj.2.2⟩
  · rintro ⟨t, ht, hsegment⟩
    obtain ⟨s, rest, hj, rfl⟩ := (segmentOf?_eq_some_iff hnodup h (htargets t ht)).1 hsegment
    exact ⟨s, rest, hj, ht⟩
  · rintro ⟨s, rest, hj, ht⟩
    exact ⟨s.id, ht, (segmentOf?_eq_some_iff hnodup h (htargets _ ht)).2 ⟨s, rest, hj, rfl⟩⟩

/-- The blocks of a statement list are those of its segments. -/
theorem getElem?_blocks {k : Nat} {block : Block}
    (h : ((segments stmts traps).zipIdx.map fun (seg, ordinal) =>
      blockOf stmts traps (segments stmts traps) ordinal seg)[k]? = some block) :
    ∃ group, (segments stmts traps)[k]? = some group ∧
      block = blockOf stmts traps (segments stmts traps) k group := by
  simp only [List.getElem?_map, List.getElem?_zipIdx, Option.map_map, Option.map_eq_some_iff] at h
  obtain ⟨group, hgroup, rfl⟩ := h
  exact ⟨group, hgroup, by simp⟩

end Flow

/-- The place of the head of a piece. -/
def headPlace (segs : List (List Stmt)) (k : Nat) : Nat :=
  (segs.take k).flatten.length

section HeadPlace

variable {segs : List (List Stmt)} {j k : Nat}

/-- A piece starts where the one in front of it ends. -/
theorem headPlace_succ {seg : List Stmt} (hk : segs[k]? = some seg) :
    headPlace segs (k + 1) = headPlace segs k + seg.length := by
  rw [headPlace, headPlace, List.take_add_one, hk, List.flatten_append, List.length_append]
  simp

theorem headPlace_mono (h : j ≤ k) : headPlace segs j ≤ headPlace segs k := by
  have hprefix : segs.take j <+: segs.take k := List.take_prefix_take_left h
  obtain ⟨rest, hrest⟩ := hprefix
  rw [headPlace, headPlace, ← hrest, List.flatten_append, List.length_append]
  exact Nat.le_add_right _ _

end HeadPlace

/-- A body cut into pieces, one for each of its blocks. -/
structure Cut (b : Body) (segs : List (List Stmt)) : Prop where
  /-- The pieces make up the statements. -/
  flatten : segs.flatten = b.stmts
  /-- No piece is empty. -/
  nil_notMem : [] ∉ segs
  /-- The statements have numbers of their own. -/
  nodup : (b.stmts.map Stmt.id).Nodup
  /-- The blocks are numbered in the order of the pieces. -/
  ids : b.flow.blocks.map Block.id = (List.range segs.length).map BlockId.mk
  /-- The blocks list the statements of the pieces. -/
  stmts : b.flow.blocks.map Block.stmts = segs.map (List.map Stmt.id)
  /-- Branches lead to the heads of pieces. -/
  target : ∀ s ∈ b.stmts, ∀ t ∈ s.kind.targets,
    ∃ (j : Nat) (s' : Stmt) (rest : List Stmt), segs[j]? = some (s' :: rest) ∧ s'.id = t
  /-- Only the last statement of a piece ends a block. -/
  inner : ∀ seg ∈ segs, ∀ (front : List Stmt) (s s' : Stmt) (rest : List Stmt),
    seg = front ++ s :: s' :: rest → s.kind.endsBlock = false
  /-- Control goes on to the next piece, or to the targets of the last statement. -/
  successors : ∀ (k : Nat) (block : Block) (seg : List Stmt) (last : Stmt),
    b.flow.blocks[k]? = some block → segs[k]? = some seg → seg.getLast? = some last →
      ∀ j, ⟨j⟩ ∈ block.successors ↔
        last.kind.fallsThrough ∧ j = k + 1 ∧ k + 1 < segs.length ∨
          ∃ s rest, segs[j]? = some (s :: rest) ∧ s.id ∈ last.kind.targets

namespace Cut

variable {b : Body} {segs : List (List Stmt)}

/-- There are as many blocks as pieces. -/
theorem length_blocks (h : Cut b segs) : b.flow.blocks.length = segs.length := by
  simpa using congrArg List.length h.ids

/-- The block at a place has the number of the place. -/
theorem id_eq (h : Cut b segs) {k : Nat} {block : Block} (hk : b.flow.blocks[k]? = some block) :
    block.id = ⟨k⟩ := by
  have hid : (b.flow.blocks.map Block.id)[k]? = some block.id := by simp [hk]
  rw [h.ids] at hid
  obtain ⟨_, hid⟩ := List.getElem?_eq_some_iff.1 hid
  simpa using hid.symm

/-- The block at a place lists the statements of the piece there. -/
theorem stmts_eq (h : Cut b segs) {k : Nat} {block : Block} {seg : List Stmt}
    (hk : b.flow.blocks[k]? = some block) (hs : segs[k]? = some seg) :
    block.stmts = seg.map Stmt.id := by
  have hstmts : (b.flow.blocks.map Block.stmts)[k]? = some block.stmts := by simp [hk]
  rw [h.stmts] at hstmts
  simpa [hs] using hstmts.symm

/-- There is a block for each piece. -/
theorem exists_block (h : Cut b segs) {k : Nat} {seg : List Stmt} (hs : segs[k]? = some seg) :
    ∃ block, b.flow.blocks[k]? = some block := by
  have hk : k < b.flow.blocks.length := h.length_blocks ▸ (List.getElem?_eq_some_iff.1 hs).1
  exact ⟨_, List.getElem?_eq_getElem hk⟩

/-- There is a piece for each block. -/
theorem exists_seg (h : Cut b segs) {k : Nat} {block : Block}
    (hk : b.flow.blocks[k]? = some block) : ∃ seg, segs[k]? = some seg := by
  have hk : k < segs.length := h.length_blocks ▸ (List.getElem?_eq_some_iff.1 hk).1
  exact ⟨_, List.getElem?_eq_getElem hk⟩

/-- A block has a number and the statements of the piece there. -/
theorem exists_piece (h : Cut b segs) {block : Block} (hblock : block ∈ b.flow.blocks) :
    ∃ (k : Nat) (seg : List Stmt), b.flow.blocks[k]? = some block ∧ segs[k]? = some seg ∧
      block.id = ⟨k⟩ ∧ block.stmts = seg.map Stmt.id := by
  obtain ⟨k, hk⟩ := List.getElem?_of_mem hblock
  obtain ⟨seg, hseg⟩ := h.exists_seg hk
  exact ⟨k, seg, hk, hseg, h.id_eq hk, h.stmts_eq hk hseg⟩

/-- A piece has a last statement, and no other that ends a block. -/
theorem exists_concat (h : Cut b segs) {k : Nat} {seg : List Stmt} (hs : segs[k]? = some seg) :
    ∃ init last, seg = init ++ [last] ∧ ∀ s ∈ init, s.kind.endsBlock = false := by
  have hmem := List.mem_of_getElem? hs
  rcases List.eq_nil_or_concat seg with rfl | ⟨init, last, rfl⟩
  · exact absurd hmem h.nil_notMem
  · rw [List.concat_eq_append] at hmem ⊢
    refine ⟨init, last, rfl, fun s hs => ?_⟩
    obtain ⟨front, rest, rfl⟩ := List.append_of_mem hs
    cases rest with
    | nil => exact h.inner _ hmem front s last [] (by simp)
    | cons s' rest => exact h.inner _ hmem front s s' (rest ++ [last]) (by simp)

/-- The owner of a statement has the number of a piece. -/
theorem lt_of_owner? (h : Cut b segs) {s : StmtId} {x : BlockId} (hx : b.flow.owner? s = some x) :
    x.val < segs.length := by
  obtain ⟨block, hblock, rfl, -⟩ := Flow.exists_of_owner? hx
  obtain ⟨k, seg, -, hseg, hid, -⟩ := h.exists_piece hblock
  rw [hid]
  exact (List.getElem?_eq_some_iff.1 hseg).1

/-- A piece is that of a block with its number and its statements. -/
theorem exists_block_of_piece (h : Cut b segs) {k : Nat} {seg : List Stmt}
    (hseg : segs[k]? = some seg) :
    ∃ block ∈ b.flow.blocks, b.flow.blocks[k]? = some block ∧ block.id = ⟨k⟩ ∧
      block.stmts = seg.map Stmt.id := by
  obtain ⟨block, hk⟩ := h.exists_block hseg
  exact ⟨block, List.mem_of_getElem? hk, hk, h.id_eq hk, h.stmts_eq hk hseg⟩

/-- The statements of a piece are statements of the body. -/
theorem mem_stmts (h : Cut b segs) {seg : List Stmt} {s : Stmt} (hseg : seg ∈ segs)
    (hs : s ∈ seg) : s ∈ b.stmts :=
  h.flatten ▸ List.mem_flatten.2 ⟨seg, hseg, hs⟩

/-- Every statement of the body is in a piece. -/
theorem exists_seg_of_mem (h : Cut b segs) {s : Stmt} (hs : s ∈ b.stmts) :
    ∃ (k : Nat) (seg : List Stmt), segs[k]? = some seg ∧ s ∈ seg := by
  obtain ⟨seg, hseg, hs⟩ := List.mem_flatten.1 (h.flatten ▸ hs)
  obtain ⟨k, hk⟩ := List.getElem?_of_mem hseg
  exact ⟨k, seg, hk, hs⟩

/-- The pieces share out the statements. -/
theorem partitioned (h : Cut b segs) : b.Partitioned where
  stmts := h.nodup
  ids := by
    rw [h.ids]
    exact List.nodup_range.map fun _ _ hid => BlockId.mk.inj hid
  once := by
    rw [h.stmts, ← List.map_flatten, h.flatten]
    exact h.nodup

/-- Statements with one number are the same. -/
theorem stmt_inj (h : Cut b segs) {s s' : Stmt} (hs : s ∈ b.stmts) (hs' : s' ∈ b.stmts)
    (hid : s.id = s'.id) : s = s' :=
  h.partitioned.stmt_inj hs hs' hid

/-- A statement is in one piece only. -/
theorem seg_inj (h : Cut b segs) {j k : Nat} {seg seg' : List Stmt} {s : Stmt}
    (hk : segs[k]? = some seg) (hj : segs[j]? = some seg') (hs : s ∈ seg) (hs' : s ∈ seg') :
    j = k :=
  index_unique (h.flatten.symm ▸ h.nodup.of_map) hk hj hs hs'

/-- A piece stands between the pieces in front of it and those behind it. -/
theorem stmts_split (h : Cut b segs) {k : Nat} {seg : List Stmt} (hk : segs[k]? = some seg) :
    b.stmts = (segs.take k).flatten ++ seg ++ (segs.drop (k + 1)).flatten := by
  obtain ⟨hlt, hget⟩ := List.getElem?_eq_some_iff.1 hk
  rw [← h.flatten]
  conv_lhs => rw [← List.take_append_drop k segs, List.drop_eq_getElem_cons hlt, hget]
  simp

/-- The statement behind the last one of a piece heads the next piece. -/
theorem exists_next (h : Cut b segs) {k : Nat} {seg front rest : List Stmt} {s s' : Stmt}
    (heq : b.stmts = front ++ s :: s' :: rest) (hk : segs[k]? = some seg)
    (hlast : seg.getLast? = some s) : ∃ rest', segs[k + 1]? = some (s' :: rest') := by
  obtain ⟨init, rfl⟩ := List.getLast?_eq_some_iff.1 hlast
  have hsplit : b.stmts =
      ((segs.take k).flatten ++ init) ++ s :: (segs.drop (k + 1)).flatten := by
    rw [h.stmts_split hk]
    simp
  -- A statement stands in the list only once, so the list behind it is the same.
  have hnodup : b.stmts.Nodup := h.nodup.of_map
  have hbehind : (segs.drop (k + 1)).flatten = s' :: rest := by
    have hfront : s ∉ front := fun hs => by
      have := (List.nodup_append.1 (heq ▸ hnodup)).2.2 s hs s List.mem_cons_self
      exact this rfl
    have hrest : s ∉ (s' :: rest) :=
      (List.nodup_cons.1 (List.nodup_append.1 (heq ▸ hnodup)).2.1).1
    exact ((List.append_cons_inj_of_notMem hfront hrest).1 (heq.symm.trans hsplit)).2.2.symm
  rw [← List.head?_drop]
  cases hdrop : segs.drop (k + 1) with
  | nil => simp [hdrop] at hbehind
  | cons seg' segs' =>
    have hmem : seg' ∈ segs := List.mem_of_mem_drop (hdrop ▸ List.mem_cons_self)
    cases seg' with
    | nil => exact absurd hmem h.nil_notMem
    | cons x xs =>
      rw [hdrop, List.flatten_cons, List.cons_append] at hbehind
      obtain rfl := (List.cons.inj hbehind).1
      exact ⟨xs, rfl⟩

/-- The successors of a block are blocks of the graph. -/
theorem lt_of_mem_successors (h : Cut b segs) {k : Nat} {block : Block} {id : BlockId}
    (hk : b.flow.blocks[k]? = some block) (hid : id ∈ block.successors) :
    id.val < segs.length := by
  obtain ⟨seg, hseg⟩ := h.exists_seg hk
  have hne : seg ≠ [] := fun hnil => h.nil_notMem (hnil ▸ List.mem_of_getElem? hseg)
  rcases (h.successors k block seg _ hk hseg (List.getLast?_eq_some_getLast hne) id.val).1 hid with
    ⟨-, heq, hlt⟩ | ⟨s, rest, hnext, -⟩
  · exact heq ▸ hlt
  · exact (List.getElem?_eq_some_iff.1 hnext).1

/-- The block with the number of a place is the one at that place. -/
theorem find?_eq (h : Cut b segs) {k : Nat} {block : Block} {blocks : List Block}
    (hk : b.flow.blocks[k]? = some block) (hblocks : ∀ x, x ∈ blocks ↔ x ∈ b.flow.blocks) :
    (blocks.find? fun x => x.id = ⟨k⟩) = some block := by
  rw [← h.id_eq hk]
  exact h.partitioned.find?_eq (List.mem_of_getElem? hk) hblocks

/-- The first block with the number of a place is the one at that place. -/
theorem block?_eq (h : Cut b segs) {k : Nat} {block : Block}
    (hk : b.flow.blocks[k]? = some block) : b.flow.block? ⟨k⟩ = some block :=
  h.find?_eq hk fun _ => Iff.rfl

/-- A statement is owned by the block of its piece. -/
theorem owner?_eq (h : Cut b segs) {k : Nat} {seg : List Stmt} {s : Stmt}
    (hk : segs[k]? = some seg) (hs : s ∈ seg) : b.flow.owner? s.id = some ⟨k⟩ := by
  obtain ⟨block, hblock⟩ := h.exists_block hk
  rw [← h.id_eq hblock]
  refine h.partitioned.owner?_eq (List.mem_of_getElem? hblock) ?_
  rw [h.stmts_eq hblock hk]
  exact List.mem_map_of_mem hs

/-- The lookup of a statement finds it. -/
theorem stmt?_eq (h : Cut b segs) {s : Stmt} (hs : s ∈ b.stmts) : b.stmt? s.id = some s :=
  h.partitioned.stmt?_eq hs

/-- The lookup of the place of a statement finds it. -/
theorem position?_eq (h : Cut b segs) {j : Nat} {s : Stmt} (hj : b.stmts[j]? = some s) :
    b.position? s.id = some j := by
  obtain ⟨hlt, rfl⟩ := List.getElem?_eq_some_iff.1 hj
  refine List.findIdx?_eq_some_iff_getElem.2 ⟨hlt, by simp, fun i hi => ?_⟩
  have hilt : i < b.stmts.length := hi.trans hlt
  intro hid
  have heq := h.stmt_inj (List.getElem_mem hilt) (List.getElem_mem hlt) (by simpa using hid)
  exact hi.ne ((List.Nodup.getElem_inj_iff h.nodup.of_map).1 heq)

/-- A statement of a piece stands behind the pieces in front of it and what the piece has in front
of the statement. -/
theorem getElem?_piece (h : Cut b segs) {k : Nat} {front rest : List Stmt} {s : Stmt}
    (hk : segs[k]? = some (front ++ s :: rest)) :
    b.stmts[(segs.take k).flatten.length + front.length]? = some s := by
  have hsplit : b.stmts = ((segs.take k).flatten ++ front) ++
      s :: (rest ++ (segs.drop (k + 1)).flatten) := by
    rw [h.stmts_split hk]
    simp
  rw [hsplit, ← List.length_append, List.getElem?_append_right (Nat.le_refl _), Nat.sub_self,
    List.getElem?_cons_zero]

/-- The head of a piece stands behind the pieces in front of it. -/
theorem getElem?_head (h : Cut b segs) {k : Nat} {s : Stmt} {rest : List Stmt}
    (hk : segs[k]? = some (s :: rest)) : b.stmts[(segs.take k).flatten.length]? = some s := by
  have hk' : segs[k]? = some ([] ++ s :: rest) := hk
  exact h.getElem?_piece hk'

/-- Only one place has a given statement. -/
theorem index_inj (h : Cut b segs) {i j : Nat} {s : Stmt} (hi : b.stmts[i]? = some s)
    (hj : b.stmts[j]? = some s) : i = j :=
  Option.some.inj ((h.position?_eq hi).symm.trans (h.position?_eq hj))

/-- A statement is in the piece around its place. -/
theorem exists_headPlace_of_getElem? (h : Cut b segs) {j : Nat} {s : Stmt}
    (hj : b.stmts[j]? = some s) : ∃ (k : Nat) (seg : List Stmt), segs[k]? = some seg ∧ s ∈ seg ∧
      headPlace segs k ≤ j ∧ j < headPlace segs (k + 1) := by
  obtain ⟨k, seg, hk, hmem⟩ := h.exists_seg_of_mem (List.mem_of_getElem? hj)
  obtain ⟨front, rest, rfl⟩ := List.append_of_mem hmem
  have hplace := h.index_inj hj (h.getElem?_piece hk)
  refine ⟨k, _, hk, hmem, ?_, ?_⟩
  · rw [hplace, headPlace]
    exact Nat.le_add_right _ _
  · rw [headPlace_succ hk, headPlace, List.length_append, List.length_cons]
    omega

/-- The block that owns the target of a branch is the one that the target heads. -/
theorem owner?_target (h : Cut b segs) {s : Stmt} {t : StmtId} (hs : s ∈ b.stmts)
    (ht : t ∈ s.kind.targets) :
    ∃ (j : Nat) (s' : Stmt) (rest : List Stmt),
      b.flow.owner? t = some ⟨j⟩ ∧ segs[j]? = some (s' :: rest) ∧ s'.id = t := by
  obtain ⟨j, s', rest, hj, rfl⟩ := h.target s hs t ht
  exact ⟨j, s', rest, h.owner?_eq hj List.mem_cons_self, hj, rfl⟩

end Cut

/-- A body has the locals and the statements that it is made of. -/
theorem Body.ofStmts_parts {locals : List Local} {stmts : List Stmt} {traps : List Trap} {b : Body}
    (h : Body.ofStmts locals stmts traps = .ok b) : b.locals = locals ∧ b.stmts = stmts := by
  obtain ⟨g, -, rfl⟩ := map_eq_ok_iff.1 h
  exact ⟨rfl, rfl⟩

/-- A body with the block graph of its statements is cut into the pieces of the graph. -/
theorem Cut.ofStmts {locals : List Local} {stmts : List Stmt} {traps : List Trap} {b : Body}
    (h : Body.ofStmts locals stmts traps = .ok b) : Cut b (Flow.pieces stmts traps) := by
  obtain ⟨g, hg, rfl⟩ := map_eq_ok_iff.1 h
  obtain ⟨hnodup, hnamed, rfl⟩ := Flow.ofStmts_eq_ok_iff.1 hg
  have htargets : ∀ s ∈ stmts, ∀ t ∈ s.kind.targets, t ∈ Flow.named stmts traps := by
    intro s hs t ht
    exact List.mem_append_left _ (List.mem_flatMap.2 ⟨s, hs, ht⟩)
  refine
    { flatten := Flow.flatten_pieces stmts traps
      nil_notMem := Flow.nil_notMem_pieces
      nodup := hnodup
      ids := ?_
      stmts := ?_
      target := fun s hs t ht => Flow.exists_head_of_mem_named hnamed (htargets s hs t ht)
      inner := fun seg hseg front s s' rest heq => (Flow.inner_of_mem_pieces hseg heq).1
      successors := ?_ }
  · refine List.ext_getElem (by simp [Flow.pieces]) fun k _ _ => ?_
    simp [Flow.blockOf]
  · refine List.ext_getElem (by simp [Flow.pieces]) fun k _ _ => ?_
    simp [Flow.blockOf, Flow.pieces]
  · -- A group of statements with their lines was cut off, of which `seg` are the statements.
    intro k block seg last hblock hseg hlast j
    obtain ⟨group, hgroup, rfl⟩ := Flow.getElem?_blocks hblock
    obtain ⟨group', hgroup', rfl⟩ : ∃ group', (Flow.segments stmts traps)[k]? = some group' ∧
        group'.map Prod.fst = seg := by simpa [Flow.pieces] using hseg
    obtain rfl := Option.some.inj (hgroup.symm.trans hgroup')
    obtain ⟨x, hx, rfl⟩ : ∃ x, group.getLast? = some x ∧ x.1 = last := by
      simpa using hlast
    have hmem : x.1 ∈ stmts := by
      rw [← Flow.flatten_pieces stmts traps]
      exact List.mem_flatten.2 ⟨_, List.mem_of_getElem? hseg, List.mem_of_getLast? hlast⟩
    exact Flow.mem_successors_blockOf_iff hnodup hnamed hx (htargets _ hmem)

end BytecodeLowering.Ir
