import BytecodeLowering.Proofs.Ir.Segments
import BytecodeLowering.Proofs.Repeat

/-!
# Protected ranges and blocks

What the ranges that a statement list declares say about its blocks.

* `Cut.catches_eq`, `Cut.mem_catches_iff`: a block has the handlers of the ranges that cover its
  head.
* `Cut.covers_headPlace_iff`: a range covers a block in full or not at all.
* `Body.Shields`: a range protects a statement through the blocks that it covers.
* `Cut.shields_iff_covers`: when this is what the range says.
* `Flow.ofStmts_catches`: the handlers of blocks are those that were declared, in their order.
-/

namespace BytecodeLowering.Ir

/-- A range covers the statements from its first one up to the one behind it. -/
theorem Flow.covers_eq_true_iff {stmts : List Stmt} {t : Trap} {j : Nat} :
    covers stmts j t = true ↔
      ∃ i ∈ position? stmts t.start, ∃ n ∈ position? stmts t.stop, i ≤ j ∧ j < n := by
  unfold covers
  cases position? stmts t.start with
  | none => simp
  | some i =>
    cases position? stmts t.stop with
    | none => simp
    | some n => simp

/-- The handler that a range gives to the statement at a place, if it covers it. -/
def Flow.catch? (g : Flow) (stmts : List Stmt) (i : Nat) (t : Trap) : Option CatchEdge :=
  if covers stmts i t then (g.owner? t.handler).map fun h => ⟨t.exception, h⟩ else none

/-- A range gives a handler to the statements that it covers. -/
theorem Flow.catch?_eq_some_iff {g : Flow} {stmts : List Stmt} {i : Nat} {t : Trap}
    {e : CatchEdge} : g.catch? stmts i t = some e ↔
      covers stmts i t = true ∧ g.owner? t.handler = some e.handler ∧ t.exception = e.exception := by
  rw [catch?, Option.ite_none_right_eq_some, Option.map_eq_some_iff]
  refine and_congr_right fun _ => ⟨?_, fun ⟨howner, hexception⟩ => ⟨_, howner, by rw [hexception]⟩⟩
  rintro ⟨h, howner, rfl⟩
  exact ⟨howner, rfl⟩

namespace Cut

variable {b : Body} {segs : List (List Stmt)}

variable {locals : List Local} {stmts : List Stmt} {traps : List Trap}

/-- The first statement of a segment comes with its place. -/
theorem getElem?_of_head {group : List (Stmt × Nat)} {x : Stmt × Nat}
    (hgroup : group ∈ Flow.segments stmts traps) (hx : group.head? = some x) :
    stmts[x.2]? = some x.1 := by
  have hmem : x ∈ stmts.zipIdx := by
    rw [← List.flatten_splitBy (fun _ s => !Flow.isLeader stmts traps s.2) stmts.zipIdx,
      ← Flow.segments]
    exact List.mem_flatten.2 ⟨group, hgroup, List.mem_of_mem_head? hx⟩
  exact List.mem_zipIdx_iff_getElem?.1 hmem

/-- The block of a handler is the one that owns it. -/
theorem segmentOf?_handler (hb : Body.ofStmts locals stmts traps = .ok b) {t : Trap}
    (ht : t ∈ traps) {x : BlockId} :
    Flow.segmentOf? (Flow.segments stmts traps) t.handler = some x ↔
      b.flow.owner? t.handler = some x := by
  have hcut := Cut.ofStmts hb
  obtain ⟨g, hg, rfl⟩ := map_eq_ok_iff.1 hb
  obtain ⟨hnodup, hnamed, rfl⟩ := Flow.ofStmts_eq_ok_iff.1 hg
  have hmem : t.handler ∈ Flow.named stmts traps :=
    List.mem_append_right _ (List.mem_flatMap.2 ⟨t, ht, by simp [Trap.bounds]⟩)
  obtain ⟨j, s, rest, hj, hid⟩ := Flow.exists_head_of_mem_named hnamed hmem
  have howner := hcut.owner?_eq hj List.mem_cons_self
  have hsegment := Flow.segmentOf?_head hnodup hj
  rw [← hid, hsegment, howner]

/-- The handlers of a block are those of the ranges that cover its head, in the order of the ranges
and each once. -/
theorem catches_eq (hb : Body.ofStmts locals stmts traps = .ok b) {k : Nat} {block : Block}
    (hk : b.flow.blocks[k]? = some block) : block.catches =
      (traps.filterMap
        (b.flow.catch? b.stmts (headPlace (Flow.pieces stmts traps) k))).eraseDups := by
  have hcut := Cut.ofStmts hb
  have hhandler := fun t ht x => segmentOf?_handler hb (t := t) ht (x := x)
  obtain ⟨seg, hseg⟩ := hcut.exists_seg hk
  obtain ⟨g, hg, rfl⟩ := map_eq_ok_iff.1 hb
  obtain ⟨-, -, rfl⟩ := Flow.ofStmts_eq_ok_iff.1 hg
  obtain ⟨group, hgroup, rfl⟩ := Flow.getElem?_blocks hk
  obtain ⟨_, hgroup', rfl⟩ : ∃ group', (Flow.segments stmts traps)[k]? = some group' ∧
      group'.map Prod.fst = seg := by simpa [Flow.pieces] using hseg
  obtain rfl := Option.some.inj (hgroup.symm.trans hgroup')
  cases group with
  | nil => exact absurd (List.mem_of_getElem? hseg) hcut.nil_notMem
  | cons x rest =>
    -- The head of the block is where the piece starts.
    have hplace : x.2 = headPlace (Flow.pieces stmts traps) k :=
      hcut.index_inj (getElem?_of_head (List.mem_of_getElem? hgroup) rfl) (hcut.getElem?_head hseg)
    have hcatches : (Flow.blockOf stmts traps (Flow.segments stmts traps) k (x :: rest)).catches =
        ((traps.filter (Flow.covers stmts x.2)).filterMap fun t =>
          (Flow.segmentOf? (Flow.segments stmts traps) t.handler).map
            fun h => ⟨t.exception, h⟩).eraseDups := rfl
    rw [hcatches, List.filterMap_filter, hplace]
    refine congrArg _ (List.filterMap_congr fun t ht => ?_)
    rw [Flow.catch?, Option.ext (hhandler t ht)]

/-- A block has the handlers of the ranges that cover its head. -/
theorem mem_catches_iff (hb : Body.ofStmts locals stmts traps = .ok b) {k : Nat} {block : Block}
    (hk : b.flow.blocks[k]? = some block) {edge : CatchEdge} :
    edge ∈ block.catches ↔ ∃ t ∈ traps,
      Flow.covers b.stmts (headPlace (Flow.pieces stmts traps) k) t = true ∧
      b.flow.owner? t.handler = some edge.handler ∧ t.exception = edge.exception := by
  rw [catches_eq hb hk, List.mem_eraseDups, List.mem_filterMap]
  simp only [Flow.catch?_eq_some_iff]

/-- A range covers a block in full or not at all. -/
theorem covers_headPlace_iff (hb : Body.ofStmts locals stmts traps = .ok b) {t : Trap}
    (ht : t ∈ traps) {j k : Nat} (hle : headPlace (Flow.pieces stmts traps) k ≤ j)
    (hlt : j < headPlace (Flow.pieces stmts traps) (k + 1)) :
    Flow.covers b.stmts (headPlace (Flow.pieces stmts traps) k) t = Flow.covers b.stmts j t := by
  have hcut := Cut.ofStmts hb
  obtain ⟨g, hg, rfl⟩ := map_eq_ok_iff.1 hb
  obtain ⟨-, hnamed, -⟩ := Flow.ofStmts_eq_ok_iff.1 hg
  -- Both ends of the range are heads of pieces, so that no piece has one of them in it.
  have hplace : ∀ id ∈ t.bounds, ∃ n, Flow.position? stmts id =
      some (headPlace (Flow.pieces stmts traps) n) := by
    intro id hid
    obtain ⟨n, s, rest, hn, rfl⟩ := Flow.exists_head_of_mem_named hnamed
      (List.mem_append_right _ (List.mem_flatMap.2 ⟨t, ht, hid⟩))
    exact ⟨n, hcut.position?_eq (hcut.getElem?_head hn)⟩
  obtain ⟨m, hm⟩ := hplace t.start (by simp [Trap.bounds])
  obtain ⟨n, hn⟩ := hplace t.stop (by simp [Trap.bounds])
  have hends : ∀ i, headPlace (Flow.pieces stmts traps) i ≤
      headPlace (Flow.pieces stmts traps) k ↔ headPlace (Flow.pieces stmts traps) i ≤ j := by
    intro i
    refine ⟨fun h => h.trans hle, fun h => headPlace_mono ?_⟩
    by_contra hki
    have hbehind : headPlace (Flow.pieces stmts traps) (k + 1) ≤
        headPlace (Flow.pieces stmts traps) i := headPlace_mono (not_le.1 hki)
    omega
  rw [Bool.eq_iff_iff, Flow.covers_eq_true_iff, Flow.covers_eq_true_iff]
  simp only [hm, hn, Option.mem_def, Option.some.injEq, exists_eq_left', hends m]
  rw [← not_le, hends n, not_le]

/-- A range gives a handler to all statements of a block, or to none of them. -/
theorem catch?_headPlace_eq (hb : Body.ofStmts locals stmts traps = .ok b) {t : Trap}
    (ht : t ∈ traps) {j k : Nat} (hle : headPlace (Flow.pieces stmts traps) k ≤ j)
    (hlt : j < headPlace (Flow.pieces stmts traps) (k + 1)) :
    b.flow.catch? b.stmts (headPlace (Flow.pieces stmts traps) k) t = b.flow.catch? b.stmts j t := by
  rw [Flow.catch?, Flow.catch?, covers_headPlace_iff hb ht hle hlt]

/-- A block has the handlers of the ranges that cover any of its statements. -/
theorem catches_eq_of_mem (hb : Body.ofStmts locals stmts traps = .ok b) {k : Nat} {block : Block}
    (hk : b.flow.blocks[k]? = some block) {j : Nat}
    (hle : headPlace (Flow.pieces stmts traps) k ≤ j)
    (hlt : j < headPlace (Flow.pieces stmts traps) (k + 1)) :
    block.catches = (traps.filterMap (b.flow.catch? b.stmts j)).eraseDups := by
  rw [catches_eq hb hk]
  exact congrArg _ (List.filterMap_congr fun t ht => catch?_headPlace_eq hb ht hle hlt)

end Cut

namespace Flow

variable {stmts : List Stmt} {traps : List Trap} {g : Flow}

/-- A range takes exceptions from a place of a statement list to a block: it covers the place, and
the block owns its handler. -/
structure Catches (g : Flow) (stmts : List Stmt) (i : Nat) (t : Trap) (e : CatchEdge) : Prop where
  /-- It is about the exceptions. -/
  exception : t.exception = e.exception
  /-- The block owns the handler. -/
  handler : g.owner? t.handler = some e.handler
  /-- The place is not in front of the start of the range, and in front of its stop. -/
  covers : ∃ start ∈ position? stmts t.start, ∃ stop ∈ position? stmts t.stop, start ≤ i ∧ i < stop

theorem catch?_eq_some_iff_catches {i : Nat} {t : Trap} {e : CatchEdge} :
    g.catch? stmts i t = some e ↔ g.Catches stmts i t e := by
  rw [catch?_eq_some_iff, covers_eq_true_iff]
  exact ⟨fun ⟨hcovers, hhandler, hexception⟩ => ⟨hexception, hhandler, hcovers⟩,
    fun ⟨hexception, hhandler, hcovers⟩ => ⟨hcovers, hhandler, hexception⟩⟩

/-- The handlers that ranges give to a place come in the order of the ranges: a handler that stands
in front of another one is given by a range in front of all that give the other one. -/
theorem pairwise_catches (i : Nat) :
    (traps.filterMap (g.catch? stmts i)).eraseDups.Pairwise fun e e' =>
      ∃ front t rest, traps = front ++ t :: rest ∧ g.Catches stmts i t e ∧
        ∀ t' ∈ front ++ [t], ¬g.Catches stmts i t' e' := by
  refine (pairwise_eraseDups _).imp fun {e e'} => ?_
  rintro ⟨given, givenRest, heq, hnot⟩
  obtain ⟨front, behind, rfl, rfl, hbehind⟩ := List.filterMap_eq_append_iff.1 heq
  obtain ⟨skipped, t, rest, rfl, hskipped, ht, -⟩ := List.filterMap_eq_cons_iff.1 hbehind
  refine ⟨front ++ skipped, t, rest, by simp, catch?_eq_some_iff_catches.1 ht, fun t' ht' h => ?_⟩
  rw [← catch?_eq_some_iff_catches] at h
  -- What ranges up to this one give is what was given so far.
  refine hnot ?_
  have hmem : t' ∈ front ∨ t' ∈ skipped ∨ t' = t := by simpa using ht'
  rcases hmem with hmem | hmem | rfl
  · exact List.mem_append_left _ (List.mem_filterMap.2 ⟨t', hmem, h⟩)
  · cases (hskipped t' hmem).symm.trans h
  · cases ht.symm.trans h
    exact List.mem_append_right _ List.mem_cons_self

/-- The handlers of the blocks are those that were declared. The block that owns the statement at a
place has the handlers that ranges around the place lead to and no others, each once and in the order
of the first ranges that do. -/
theorem ofStmts_catches (h : ofStmts stmts traps = .ok g) :
    (∀ block ∈ g.blocks, block.catches.Nodup) ∧
    ∀ i s, stmts[i]? = some s → ∃ block ∈ g.blocks,
      g.owner? s.id = some block.id ∧ g.block? block.id = some block ∧ s.id ∈ block.stmts ∧
      (∀ e, e ∈ block.catches ↔ ∃ t ∈ traps, g.Catches stmts i t e) ∧
      block.catches.Pairwise fun e e' => ∃ front t rest, traps = front ++ t :: rest ∧
        g.Catches stmts i t e ∧ ∀ t' ∈ front ++ [t], ¬g.Catches stmts i t' e' := by
  have hb : Body.ofStmts [] stmts traps = .ok ⟨[], stmts, g⟩ := map_eq_ok_iff.2 ⟨g, h, rfl⟩
  have hcut := Cut.ofStmts hb
  constructor
  · intro block hblock
    obtain ⟨k, hk⟩ := List.getElem?_of_mem hblock
    rw [Cut.catches_eq hb hk]
    exact nodup_eraseDups _
  · intro i s hs
    obtain ⟨k, seg, hseg, hmem, hle, hlt⟩ := hcut.exists_headPlace_of_getElem? hs
    obtain ⟨block, hblock, hk, hid, hstmts⟩ := hcut.exists_block_of_piece hseg
    have hcatches := Cut.catches_eq_of_mem hb hk hle hlt
    refine ⟨block, hblock, ?_, ?_, ?_, fun e => ?_, ?_⟩
    · rw [hid]
      exact hcut.owner?_eq hseg hmem
    · rw [hid]
      exact hcut.block?_eq hk
    · rw [hstmts]
      exact List.mem_map_of_mem hmem
    · rw [hcatches, List.mem_eraseDups, List.mem_filterMap]
      simp only [catch?_eq_some_iff_catches]
    · rw [hcatches]
      exact pairwise_catches i

section Nested

/-- Four statements, and the handler of their exceptions. -/
def nested : List Stmt :=
  [⟨⟨0⟩, none, .nop⟩, ⟨⟨1⟩, none, .nop⟩, ⟨⟨2⟩, none, .nop⟩, ⟨⟨3⟩, none, .returnVoid⟩,
    ⟨⟨4⟩, none, .returnVoid⟩]

/-- Protected ranges of `nested`: one that goes backwards, two that overlap and catch the same, and
one around them. -/
def nestedTraps : List Trap :=
  [⟨⟨"D"⟩, ⟨2⟩, ⟨1⟩, ⟨4⟩⟩, ⟨⟨"E"⟩, ⟨0⟩, ⟨2⟩, ⟨4⟩⟩, ⟨⟨"F"⟩, ⟨0⟩, ⟨4⟩, ⟨4⟩⟩, ⟨⟨"E"⟩, ⟨1⟩, ⟨3⟩, ⟨4⟩⟩]

/-- The block graph of `nested`. In the third block, the outer range comes before the inner one. -/
def nestedFlow : Flow :=
  ⟨[⟨⟨0⟩, [⟨0⟩], [⟨1⟩], [⟨⟨"E"⟩, ⟨4⟩⟩, ⟨⟨"F"⟩, ⟨4⟩⟩]⟩,
    ⟨⟨1⟩, [⟨1⟩], [⟨2⟩], [⟨⟨"E"⟩, ⟨4⟩⟩, ⟨⟨"F"⟩, ⟨4⟩⟩]⟩,
    ⟨⟨2⟩, [⟨2⟩], [⟨3⟩], [⟨⟨"F"⟩, ⟨4⟩⟩, ⟨⟨"E"⟩, ⟨4⟩⟩]⟩,
    ⟨⟨3⟩, [⟨3⟩], [], [⟨⟨"F"⟩, ⟨4⟩⟩]⟩, ⟨⟨4⟩, [⟨4⟩], [], []⟩]⟩

/-- `ofStmts_catches` at ranges that overlap. -/
theorem nested_catches :
    ofStmts nested nestedTraps = .ok nestedFlow ∧
      (∀ block ∈ nestedFlow.blocks, block.catches.Nodup) ∧
      ∃ block ∈ nestedFlow.blocks, nestedFlow.owner? ⟨2⟩ = some block.id ∧
        ∀ e, e ∈ block.catches ↔ ∃ t ∈ nestedTraps, nestedFlow.Catches nested 2 t e := by
  have h : ofStmts nested nestedTraps = .ok nestedFlow := by decide
  obtain ⟨hnodup, howned⟩ := ofStmts_catches h
  obtain ⟨block, hblock, howner, -, -, hcatches, -⟩ := howned 2 ⟨⟨2⟩, none, .nop⟩ rfl
  exact ⟨h, hnodup, block, hblock, howner, hcatches⟩

end Nested

end Flow

end BytecodeLowering.Ir
