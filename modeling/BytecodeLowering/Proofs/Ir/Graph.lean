import BytecodeLowering.Proofs.Ir.Segments

/-!
# Block graphs and control flow

The block graph of a statement list is its control-flow graph.

* `Flow.Continues`: control may go on from the statement at one place to the one at another.
* `Flow.Represents`: the blocks of a graph make up a statement list, control enters them at the head
  and leaves them at the tail, and goes on inside and between them as it does in the list.
* `Flow.ofStmts_represents`: a statement list has no graph iff a number is used twice or something
  that is named does not exist, and the graph that it has represents it.
-/

namespace BytecodeLowering.Ir

namespace Flow

variable {stmts : List Stmt} {traps : List Trap} {g : Flow}

/-- Control may go on from the statement at one place to the one at another: the next one, if the
statement falls through, or one that it branches to. -/
def Continues (stmts : List Stmt) (i j : Nat) : Prop :=
  ∃ s s', stmts[i]? = some s ∧ stmts[j]? = some s' ∧
    (s.kind.fallsThrough ∧ j = i + 1 ∨ s'.id ∈ s.kind.targets)

/-- One statement directly follows another inside a block. -/
def Follows (g : Flow) (x y : StmtId) : Prop :=
  ∃ block ∈ g.blocks, [x, y] <:+: block.stmts

/-- A block whose tail is the one statement has a successor whose head is the other. -/
def Leads (g : Flow) (x y : StmtId) : Prop :=
  ∃ block ∈ g.blocks, ∃ next ∈ g.blocks,
    block.tail? = some x ∧ next.head? = some y ∧ next.id ∈ block.successors

/-- A graph is the control-flow graph of a statement list with protected ranges. -/
structure Represents (g : Flow) (stmts : List Stmt) (traps : List Trap) : Prop where
  /-- The blocks make up the statements. -/
  flatten : (g.blocks.map Block.stmts).flatten = stmts.map Stmt.id
  /-- No block is empty. -/
  ne_nil : ∀ block ∈ g.blocks, block.stmts ≠ []
  /-- The blocks are numbered in their order. -/
  ids : g.blocks.map Block.id = (List.range g.blocks.length).map BlockId.mk
  /-- What branches and traps name is the head of the block that owns it. -/
  head : ∀ t ∈ named stmts traps,
    ∃ block ∈ g.blocks, g.owner? t = some block.id ∧ block.head? = some t
  /-- A statement that ends a block is the tail of the one it is in. -/
  tail : ∀ block ∈ g.blocks, ∀ s ∈ stmts, s.id ∈ block.stmts → s.kind.endsBlock = true →
    block.tail? = some s.id
  /-- No block lists a successor twice. -/
  nodup : ∀ block ∈ g.blocks, block.successors.Nodup
  /-- Successors are blocks of the graph. -/
  closed : ∀ block ∈ g.blocks, ∀ id ∈ block.successors, ∃ next ∈ g.blocks, next.id = id
  /-- Control goes on inside the blocks and from a tail to the heads of the successors. -/
  control : ∀ (i j : Nat) (s s' : Stmt), stmts[i]? = some s → stmts[j]? = some s' →
    (Continues stmts i j ↔ g.Follows s.id s'.id ∨ g.Leads s.id s'.id)

end Flow

namespace Cut

variable {b : Body} {segs : List (List Stmt)}

/-- A statement is at one place of one piece only. -/
theorem piece_inj (h : Cut b segs) {j k : Nat} {front front' rest rest' : List Stmt} {s : Stmt}
    (hj : segs[j]? = some (front ++ s :: rest)) (hk : segs[k]? = some (front' ++ s :: rest')) :
    j = k ∧ front = front' ∧ rest = rest' := by
  obtain rfl := h.seg_inj (s := s) hj hk (by simp) (by simp)
  have hlength := h.index_inj (h.getElem?_piece hj) (h.getElem?_piece hk)
  obtain ⟨hfront, hrest⟩ := List.append_inj (Option.some.inj (hj.symm.trans hk)) (by omega)
  exact ⟨rfl, hfront, (List.cons.inj hrest).2⟩

/-- Inside a block a statement is followed by the next one of its piece. -/
theorem follows_iff (h : Cut b segs) {k : Nat} {front rest : List Stmt} {s s' : Stmt}
    (hseg : segs[k]? = some (front ++ s :: rest)) (hs' : s' ∈ b.stmts) :
    b.flow.Follows s.id s'.id ↔ rest.head? = some s' := by
  constructor
  · rintro ⟨block, hblock, hinfix⟩
    -- The two statements stand next to each other in the piece of that block, which is this one.
    obtain ⟨j, seg, -, hj, -, hstmts⟩ := h.exists_piece hblock
    obtain ⟨pair, ⟨front', rest', rfl⟩, hpair⟩ := List.infix_map_iff.1 (hstmts ▸ hinfix)
    obtain ⟨x, y, rfl⟩ : ∃ x y, pair = [x, y] :=
      List.length_eq_two.1 (by simpa using (congrArg List.length hpair).symm)
    have hmem : ∀ z ∈ front' ++ [x, y] ++ rest', z ∈ b.stmts := fun _ hz =>
      h.mem_stmts (List.mem_of_getElem? hj) hz
    obtain ⟨hx, hy⟩ : s.id = x.id ∧ s'.id = y.id := by simpa using hpair
    obtain rfl := h.stmt_inj (h.mem_stmts (List.mem_of_getElem? hseg) (by simp))
      (hmem x (by simp)) hx
    obtain rfl := h.stmt_inj hs' (hmem y (by simp)) hy
    have hj' : segs[j]? = some (front' ++ s :: s' :: rest') := by simpa using hj
    rw [(h.piece_inj hseg hj').2.2, List.head?_cons]
  · intro hhead
    obtain ⟨rest', rfl⟩ := List.head?_eq_some_iff.1 hhead
    obtain ⟨block, hblock, -, -, hstmts⟩ := h.exists_block_of_piece hseg
    exact ⟨block, hblock, front.map Stmt.id, rest'.map Stmt.id, by simp [hstmts]⟩

/-- Blocks are left behind the last statement of their piece, for the head of another piece. -/
theorem leads_iff (h : Cut b segs) {k : Nat} {block : Block} {front rest : List Stmt}
    {s s' : Stmt} (hblock : b.flow.blocks[k]? = some block)
    (hseg : segs[k]? = some (front ++ s :: rest)) (hs' : s' ∈ b.stmts) :
    b.flow.Leads s.id s'.id ↔ rest = [] ∧ ∃ (n : Nat) (rest' : List Stmt),
      segs[n]? = some (s' :: rest') ∧ ⟨n⟩ ∈ block.successors := by
  constructor
  · rintro ⟨block', hblock', next, hnext, htail, hhead, hmem⟩
    -- Numbers tell statements apart, so that the tail and the head are the two statements.
    obtain ⟨j, seg, hj, hjseg, -, hstmts⟩ := h.exists_piece hblock'
    obtain ⟨n, seg', -, hnseg, hid, hstmts'⟩ := h.exists_piece hnext
    rw [Block.tail?, hstmts, List.getLast?_map, Option.map_eq_some_iff] at htail
    rw [Block.head?, hstmts', List.head?_map, Option.map_eq_some_iff] at hhead
    obtain ⟨x, hx, hxid⟩ := htail
    obtain ⟨y, hy, hyid⟩ := hhead
    obtain ⟨init, rfl⟩ := List.getLast?_eq_some_iff.1 hx
    obtain ⟨rest', rfl⟩ := List.head?_eq_some_iff.1 hy
    obtain rfl := h.stmt_inj (h.mem_stmts (List.mem_of_getElem? hjseg) (by simp))
      (h.mem_stmts (List.mem_of_getElem? hseg) (by simp)) hxid
    obtain rfl := h.stmt_inj (h.mem_stmts (List.mem_of_getElem? hnseg) (by simp)) hs' hyid
    obtain ⟨rfl, -, rfl⟩ := h.piece_inj hjseg hseg
    obtain rfl := Option.some.inj (hj.symm.trans hblock)
    exact ⟨rfl, n, rest', hnseg, hid ▸ hmem⟩
  · rintro ⟨rfl, n, rest', hn, hmem⟩
    obtain ⟨next, hnext, -, hid, hstmts'⟩ := h.exists_block_of_piece hn
    refine ⟨block, List.mem_of_getElem? hblock, next, hnext, ?_, ?_, hid ▸ hmem⟩
    · simp [Block.tail?, h.stmts_eq hblock hseg]
    · simp [Block.head?, hstmts']

/-- Inside a piece control goes on to the next statement and nowhere else. -/
theorem continues_iff_of_inner (h : Cut b segs) {k i j : Nat} {front rest : List Stmt}
    {s s' : Stmt} (hseg : segs[k]? = some (front ++ s :: s' :: rest)) (hi : b.stmts[i]? = some s) :
    Flow.Continues b.stmts i j ↔ b.stmts[j]? = some s' := by
  obtain ⟨hfalls, htargets⟩ := StmtKind.straight_of_not_endsBlock
    (h.inner _ (List.mem_of_getElem? hseg) front s s' rest rfl)
  have hplace := h.index_inj hi (h.getElem?_piece hseg)
  have hnext : b.stmts[i + 1]? = some s' := by
    have hseg' : segs[k]? = some ((front ++ [s]) ++ s' :: rest) := by simpa using hseg
    simpa [hplace, Nat.add_assoc] using h.getElem?_piece hseg'
  constructor
  -- An inner statement has no targets, so that control only falls through.
  · rintro ⟨x, y, hx, -, ⟨-, rfl⟩ | htarget⟩
    · exact hnext
    · obtain rfl := Option.some.inj (hi.symm.trans hx)
      simp [htargets] at htarget
  · intro hj
    exact ⟨s, s', hi, hj, .inl ⟨hfalls, h.index_inj hj hnext⟩⟩

/-- From the last statement of a piece control goes on to the heads of pieces, the ones that belong
to the successors of the block. -/
theorem continues_iff_of_last (h : Cut b segs) {k i j : Nat} {block : Block} {seg : List Stmt}
    {s : Stmt} (hblock : b.flow.blocks[k]? = some block) (hseg : segs[k]? = some seg)
    (hlast : seg.getLast? = some s) (hi : b.stmts[i]? = some s) :
    Flow.Continues b.stmts i j ↔ ∃ (n : Nat) (s' : Stmt) (rest : List Stmt),
      segs[n]? = some (s' :: rest) ∧ b.stmts[j]? = some s' ∧ ⟨n⟩ ∈ block.successors := by
  have hsucc := h.successors k block seg s hblock hseg hlast
  constructor
  · rintro ⟨x, s', hx, hj, hgo⟩
    obtain rfl := Option.some.inj (hi.symm.trans hx)
    rcases hgo with ⟨hfalls, rfl⟩ | htarget
    · -- The statement behind the last one heads the next piece.
      obtain ⟨hlt, hget⟩ := List.getElem?_eq_some_iff.1 hj
      obtain ⟨hlt', hget'⟩ := List.getElem?_eq_some_iff.1 hi
      have hsplit : b.stmts = b.stmts.take i ++ s :: s' :: b.stmts.drop (i + 2) := by
        conv_lhs => rw [← List.take_append_drop i b.stmts, List.drop_eq_getElem_cons hlt',
          List.drop_eq_getElem_cons hlt, hget, hget']
      obtain ⟨rest, hnext⟩ := h.exists_next hsplit hseg hlast
      exact ⟨k + 1, s', rest, hnext, hj, (hsucc _).2
        (.inl ⟨hfalls, rfl, (List.getElem?_eq_some_iff.1 hnext).1⟩)⟩
    · obtain ⟨n, t, rest, hn, hid⟩ := h.target s (List.mem_of_getElem? hi) _ htarget
      obtain rfl := h.stmt_inj (h.mem_stmts (List.mem_of_getElem? hn) List.mem_cons_self)
        (List.mem_of_getElem? hj) hid
      exact ⟨n, t, rest, hn, hj, (hsucc n).2 (.inr ⟨t, rest, hn, htarget⟩)⟩
  · rintro ⟨n, s', rest, hn, hj, hmem⟩
    refine ⟨s, s', hi, hj, ?_⟩
    rcases (hsucc n).1 hmem with ⟨hfalls, rfl, -⟩ | ⟨t, rest', hn', htarget⟩
    · -- The next piece starts where this one ends.
      obtain ⟨init, rfl⟩ := List.getLast?_eq_some_iff.1 hlast
      have hplace := h.index_inj hi (h.getElem?_piece hseg)
      have hnext := h.index_inj hj (h.getElem?_head hn)
      rw [← headPlace, headPlace_succ hseg, headPlace, List.length_append] at hnext
      rw [List.length_singleton] at hnext
      exact .inl ⟨hfalls, by omega⟩
    · rw [hn] at hn'
      obtain ⟨rfl, -⟩ := List.cons.inj (Option.some.inj hn')
      exact .inr htarget

/-- The heads and the tails of the pieces are those of the blocks, so that the graph represents the
statements. -/
theorem represents (h : Cut b segs) {traps : List Trap}
    (hnamed : ∀ t ∈ Flow.named b.stmts traps, ∃ (k : Nat) (s : Stmt) (rest : List Stmt),
      segs[k]? = some (s :: rest) ∧ s.id = t)
    (hnodup : ∀ block ∈ b.flow.blocks, block.successors.Nodup) :
    b.flow.Represents b.stmts traps where
  flatten := by rw [h.stmts, ← List.map_flatten, h.flatten]
  ne_nil := by
    intro block hblock
    obtain ⟨k, seg, -, hseg, -, hstmts⟩ := h.exists_piece hblock
    rw [hstmts, Ne, List.map_eq_nil_iff]
    rintro rfl
    exact h.nil_notMem (List.mem_of_getElem? hseg)
  ids := by rw [h.ids, h.length_blocks]
  head := by
    intro t ht
    obtain ⟨k, s, rest, hseg, rfl⟩ := hnamed t ht
    obtain ⟨block, hblock, -, hid, hstmts⟩ := h.exists_block_of_piece hseg
    refine ⟨block, hblock, ?_, ?_⟩
    · rw [h.owner?_eq hseg List.mem_cons_self, hid]
    · rw [Block.head?, hstmts, List.map_cons, List.head?_cons]
  tail := by
    -- With a statement behind it in its piece, this one would not end a block.
    intro block hblock s hs hmem hends
    obtain ⟨k, seg, -, hseg, -, hstmts⟩ := h.exists_piece hblock
    obtain ⟨s', hs', hid⟩ := List.mem_map.1 (hstmts ▸ hmem)
    obtain rfl := h.stmt_inj (h.mem_stmts (List.mem_of_getElem? hseg) hs') hs hid
    obtain ⟨front, rest, rfl⟩ := List.append_of_mem hs'
    cases rest with
    | nil => simp [Block.tail?, hstmts]
    | cons x rest =>
      have hstraight := h.inner _ (List.mem_of_getElem? hseg) front s' x rest rfl
      simp [hstraight] at hends
  nodup := hnodup
  closed := by
    intro block hblock id hid
    obtain ⟨k, _, hk, -, -, -⟩ := h.exists_piece hblock
    have hnext := List.getElem?_eq_getElem (h.lt_of_mem_successors hk hid)
    obtain ⟨block', hblock', -, hid', -⟩ := h.exists_block_of_piece hnext
    exact ⟨block', hblock', hid'⟩
  control := by
    intro i j s s' hi hj
    have hs' : s' ∈ b.stmts := List.mem_of_getElem? hj
    obtain ⟨k, seg, hseg, hs⟩ := h.exists_seg_of_mem (List.mem_of_getElem? hi)
    obtain ⟨block, hblock⟩ := h.exists_block hseg
    obtain ⟨front, rest, rfl⟩ := List.append_of_mem hs
    rw [h.follows_iff hseg hs', h.leads_iff hblock hseg hs']
    cases rest with
    | cons x rest =>
      rw [h.continues_iff_of_inner hseg hi, hj]
      simp [eq_comm]
    | nil =>
      rw [h.continues_iff_of_last hblock hseg (by simp) hi, hj]
      simp

end Cut

namespace Flow

/-- A statement list has no block graph iff two statements share a number or something that a branch
or a trap names does not exist. The graph that it has otherwise is its control-flow graph. -/
theorem ofStmts_represents (stmts : List Stmt) (traps : List Trap) :
    ((∃ e, ofStmts stmts traps = .error e) ↔
      ¬(stmts.map Stmt.id).Nodup ∨ ∃ t ∈ named stmts traps, ∀ s ∈ stmts, s.id ≠ t) ∧
    ∀ g, ofStmts stmts traps = .ok g → g.Represents stmts traps := by
  constructor
  -- Whether there is a graph is known, so that it is known when there is none.
  · have hok : (∃ g, ofStmts stmts traps = .ok g) ↔
        (stmts.map Stmt.id).Nodup ∧ ∀ t ∈ named stmts traps, ∃ s ∈ stmts, s.id = t := by
      simp only [ofStmts_eq_ok_iff]
      exact ⟨fun ⟨_, hnodup, hnamed, _⟩ => ⟨hnodup, hnamed⟩,
        fun ⟨hnodup, hnamed⟩ => ⟨_, hnodup, hnamed, rfl⟩⟩
    have herror : (∃ e, ofStmts stmts traps = .error e) ↔ ¬∃ g, ofStmts stmts traps = .ok g := by
      cases ofStmts stmts traps <;> simp
    rw [herror, hok, not_and_or]
    simp only [not_forall, not_exists, not_and, exists_prop, ne_eq]
  · intro g hg
    have hbody : Body.ofStmts [] stmts traps = .ok ⟨[], stmts, g⟩ :=
      map_eq_ok_iff.2 ⟨g, hg, rfl⟩
    have hcut := Cut.ofStmts hbody
    obtain ⟨-, hnamed, rfl⟩ := ofStmts_eq_ok_iff.1 hg
    refine hcut.represents (fun t ht => exists_head_of_mem_named hnamed ht) ?_
    intro block hblock
    obtain ⟨k, hk⟩ := List.getElem?_of_mem hblock
    obtain ⟨group, -, rfl⟩ := getElem?_blocks hk
    cases hlast : group.getLast? with
    | none => simp [blockOf, hlast]
    | some last => simpa [blockOf, hlast] using nodup_eraseDups _

section Detour

/-- A loop whose way back is also the handler of its exceptions. -/
def detour : List Stmt :=
  [⟨⟨4⟩, none, .nop⟩,
    ⟨⟨7⟩, none, .branch ⟨.eq, .const (.int 0), .const (.int 1)⟩ ⟨9⟩⟩,
    ⟨⟨5⟩, none, .goto ⟨4⟩⟩,
    ⟨⟨9⟩, none, .returnVoid⟩]

/-- The protected range of `detour`. -/
def detourTraps : List Trap :=
  [⟨⟨"E"⟩, ⟨4⟩, ⟨9⟩, ⟨5⟩⟩]

/-- The block graph of `detour`. -/
def detourFlow : Flow :=
  ⟨[⟨⟨0⟩, [⟨4⟩, ⟨7⟩], [⟨1⟩, ⟨2⟩], [⟨⟨"E"⟩, ⟨1⟩⟩]⟩, ⟨⟨1⟩, [⟨5⟩], [⟨0⟩], [⟨⟨"E"⟩, ⟨1⟩⟩]⟩,
    ⟨⟨2⟩, [⟨9⟩], [], []⟩]⟩

/-- `ofStmts_represents` at a list with a branch, a jump back and a handler. -/
theorem detour_represents :
    ofStmts detour detourTraps = .ok detourFlow ∧ detourFlow.Represents detour detourTraps :=
  ⟨by decide, (ofStmts_represents detour detourTraps).2 detourFlow (by decide)⟩

end Detour

end Flow

end BytecodeLowering.Ir
