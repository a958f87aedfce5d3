import BytecodeLowering.Proofs.Lowering.Sharing
import BytecodeLowering.Proofs.Lowering.Twin

/-!
# Code with and without line numbers

The code of a method with line numbers beside that without them, made from the same states.

* `Copies`: the returns that stand in place of goto statements without line numbers only.
* `Pair`: the code of a method with line numbers and without them.
* `Pair.alike`, `Pair.copy`: the code of a block in both, if it ends with no such return and if it
  does.
* `Pair.shares`: the code with line numbers jumps where that without them has copies.
* `Pair.exists_sizes_iff`, `Pair.sizes_eq`: when both can be measured, and that their frames have
  the same sizes then.
-/

namespace BytecodeLowering.Lowering

open Ir Machine

/-- A block ends with a goto that becomes a return without line numbers only: without them, its code
ends with a copy of that of the return. -/
def Copies (b : Body) (layout : Layout) (k j : Nat) : Prop :=
  ∃ block s ret, b.flow.blocks[k]? = some block ∧ block.tail?.bind b.stmt? = some s ∧
    Redirects b layout s ret j

/-- The code of a method with line numbers and without them. -/
structure Pair (m : Method) (b : Body) (layout : Layout) (segs : List (List Stmt))
    (codes codes' : List (List Insn)) (st : Nat → Progress) : Prop where
  /-- The code without line numbers. -/
  plain : Emission m b false layout segs codes (st 0) (st segs.length)
  /-- It is made from state to state. -/
  stages : Stages m b false layout segs codes st
  /-- The code with line numbers. -/
  lined : Emission m b true (layout.withLines b) segs codes' (st 0) (st segs.length)
  /-- It is made from the same states. -/
  stages' : Stages m b true (layout.withLines b) segs codes' st
  /-- Another name for a caught exception that is returned in place of a goto has the same place
  behind the return itself. -/
  unmoved : ∀ k init last ret j, segs[k]? = some (init ++ [last]) → Redirects b layout last ret j →
    ∀ l ∈ ret.kind.uses, l.role = .handlerRef →
      (st (k + 1)).slots.binding? l = (st (j + 1)).slots.binding? l

variable {m : Method} {b : Body} {layout : Layout} {segs : List (List Stmt)}
  {codes codes' : List (List Insn)} {st : Nat → Progress} {j k : Nat} {seg init : List Stmt}
  {s ret last : Stmt} {code code' : List Insn} {c : MethodContext} {lines : Bool}
  {p p' q q' : Progress}

/-- The copies of a block, told by the pieces. -/
theorem copies_iff (hcut : Cut b segs) : Copies b layout k j ↔
    ∃ init last ret, segs[k]? = some (init ++ [last]) ∧ Redirects b layout last ret j := by
  constructor
  · rintro ⟨block, s, ret, hblock, hs, hr⟩
    obtain ⟨seg, hseg⟩ := hcut.exists_seg hblock
    obtain ⟨init, last, rfl, -⟩ := hcut.exists_concat hseg
    have hlast := hcut.stmt?_eq (hcut.mem_stmts (List.mem_of_getElem? hseg) (s := last) (by simp))
    rw [Block.tail?, hcut.stmts_eq hblock hseg] at hs
    obtain rfl : last = s := by simpa [hlast] using hs
    exact ⟨init, last, ret, hseg, hr⟩
  · rintro ⟨init, last, ret, hseg, hr⟩
    obtain ⟨block, hblock⟩ := hcut.exists_block hseg
    have hlast := hcut.stmt?_eq (hcut.mem_stmts (List.mem_of_getElem? hseg) (s := last) (by simp))
    exact ⟨block, last, ret, hblock, by simp [Block.tail?, hcut.stmts_eq hblock hseg, hlast], hr⟩

/-- What stands in front of a piece changes nothing. -/
theorem alike_pieceStart : Alike (pieceStart c lines seg k) [] :=
  .nil_of_idle fun i hi => idle_of_isMark (Items.isMark_pieceStart lines seg k i hi)

/-- Nothing stands in front of a piece iff it has no label. -/
theorem pieceStart_eq_nil_iff : pieceStart c lines seg k = [] ↔ c.labels.get? ⟨k⟩ = none := by
  unfold pieceStart
  cases c.labels.get? ⟨k⟩ <;> simp

/-- Steps that are taken from one state lead to one result. -/
theorem Lowers.unique {α β : Type} {f : α → Lower β} {xs : List α} {ys ys' : List β}
    (h : Lowers f p xs ys q) (h' : Lowers f p xs ys' q') : ys = ys' ∧ q = q' := by
  have heq := (mapM_run_iff.2 h).symm.trans (mapM_run_iff.2 h')
  simpa using heq

namespace Pair

/-- The last statement of a piece is lowered from one state with line numbers and without them. -/
theorem exists_last (h : Pair m b layout segs codes codes' st)
    (hseg : segs[k]? = some (init ++ [last])) (hcode : codes[k]? = some code)
    (hcode' : codes'[k]? = some code') : ∃ front lastCode lastCode' q,
      pieceStart (contextOf m b layout) false (init ++ [last]) k ++ front ++ lastCode = code ∧
      pieceStart (contextOf m b (layout.withLines b)) true (init ++ [last]) k ++ front ++
        lastCode' = code' ∧
      lowerStmt (contextOf m b layout) last.kind q = .ok (lastCode, st (k + 1)) ∧
      lowerStmt (contextOf m b (layout.withLines b)) last.kind q =
        .ok (lastCode', st (k + 1)) := by
  obtain ⟨init', last', heq, hends⟩ := h.plain.cut.exists_concat hseg
  obtain ⟨rfl, hlasts⟩ := List.append_inj' heq rfl
  cases hlasts
  obtain ⟨front, lastCode, q, hinit, hlast, rfl⟩ :=
    lowerPiece_concat_iff.1 (h.stages.run k _ code hseg hcode)
  obtain ⟨front', lastCode', q', hinit', hlast', rfl⟩ :=
    lowerPiece_concat_iff.1 (h.stages'.run k _ code' hseg hcode')
  -- The statements in front of the last one have no targets.
  obtain ⟨rfl, rfl⟩ := (lowers_contextOf (layout.withLines b) hends hinit).unique hinit'
  exact ⟨front.flatten, lastCode, lastCode', q, rfl, rfl, hlast, hlast'⟩

/-- Blocks that do not end with a copy have the same effect with line numbers and without them. -/
theorem alike (h : Pair m b layout segs codes codes' st) (hseg : segs[k]? = some (init ++ [last]))
    (hcode : codes[k]? = some code) (hcode' : codes'[k]? = some code')
    (hnot : ∀ ret j, ¬Redirects b layout last ret j) : Alike code code' ∧
      ((layout.labels.get? ⟨k⟩ = none ↔ (layout.withLines b).labels.get? ⟨k⟩ = none) →
        (code = [] ↔ code' = [])) := by
  obtain ⟨front, lastCode, lastCode', q, rfl, rfl, hlast, hlast'⟩ :=
    h.exists_last hseg hcode hcode'
  have hmem := h.plain.cut.mem_stmts (List.mem_of_getElem? hseg) (s := last) (by simp)
  obtain ⟨_, htwin, halike, hnil⟩ := exists_twin h.plain.cut h.plain.ofBody hmem hnot hlast
  cases htwin.symm.trans hlast'
  refine ⟨((alike_pieceStart.trans alike_pieceStart.symm).append (.refl front)).append halike,
    fun hlabel => ?_⟩
  simp only [List.append_eq_nil_iff, pieceStart_eq_nil_iff, hlabel, hnil]

/-- A block that ends with a copy without line numbers has a jump there with them. -/
theorem copy (h : Pair m b layout segs codes codes' st) (hseg : segs[k]? = some (init ++ [last]))
    (hcode : codes[k]? = some code) (hcode' : codes'[k]? = some code')
    (hr : Redirects b layout last ret j) : ∃ front own, codes[j]? = some own ∧ own ≠ [] ∧
      code = front ++ own ∧ Alike front code' ∧ code' ≠ [] := by
  obtain ⟨front, lastCode, lastCode', q, rfl, rfl, hlast, hlast'⟩ :=
    h.exists_last hseg hcode hcode'
  have hmem := h.plain.cut.mem_stmts (List.mem_of_getElem? hseg) (s := last) (by simp)
  obtain ⟨hj, hreturn⟩ := hr.lone h.plain.cut h.plain.ofBody hmem
  obtain ⟨l, -, hjump⟩ := hr.exists_jump h.plain.cut h.plain.ofBody hmem (m := m) (p := q)
  obtain ⟨rfl, -⟩ := (hjump _ _).1 hlast'
  have hinlined := (hr.lowerStmt_iff h.plain.cut h.plain.ofBody hmem).1 hlast
  -- The return is lowered to the same code in its own block, for its local stays in its place.
  have hown := h.plain.code_eq_of_goto h.stages (List.getElem?_eq_some_iff.1 hseg).1 hreturn
    hinlined hj (hr.exists_label h.plain.cut h.plain.ofBody hmem).1
    (h.unmoved k init last ret j hseg hr)
  obtain ⟨value, i, rfl, -⟩ :=
    endsWith_of_isReturn (P := fun _ => True) hreturn (by simp) hinlined
  refine ⟨_, _, hown, by simp, rfl, ?_, by simp⟩
  -- A jump does nothing to the operand stack, no more than a label.
  have hgoto : Alike [.jump .goto l] [] := .nil_of_idle fun i hi => by
    obtain rfl := List.mem_singleton.1 hi
    exact ⟨rfl, nofun⟩
  have hfront : Alike (pieceStart (contextOf m b layout) false (init ++ [last]) k ++ front)
      (pieceStart (contextOf m b (layout.withLines b)) true (init ++ [last]) k ++ front) :=
    (alike_pieceStart.trans alike_pieceStart.symm).append (.refl front)
  simpa using hfront.append hgoto.symm

/-- The code of a block is that of a piece with a last statement. -/
theorem exists_piece (h : Pair m b layout segs codes codes' st) (hcode : codes[k]? = some code) :
    ∃ (init : List Stmt) (last : Stmt), segs[k]? = some (init ++ [last]) := by
  have hlt := h.plain.length_codes ▸ (List.getElem?_eq_some_iff.1 hcode).1
  obtain ⟨init, last, heq, -⟩ := h.plain.cut.exists_concat (List.getElem?_eq_getElem hlt)
  exact ⟨init, last, by rw [List.getElem?_eq_getElem hlt, heq]⟩

/-- There is code for the same blocks. -/
theorem length_eq (h : Pair m b layout segs codes codes' st) : codes'.length = codes.length := by
  rw [h.plain.length_codes, h.lined.length_codes]

/-- Line numbers add the labels of the blocks that start on known lines. -/
theorem get?_ne_none_iff (h : Pair m b layout segs codes codes' st) :
    (layout.withLines b).labels.get? ⟨k⟩ ≠ none ↔
      layout.labels.get? ⟨k⟩ ≠ none ∨ k < segs.length ∧ hasLine b ⟨k⟩ := by
  rw [Layout.get?_withLines_ne_none_iff h.plain.nodup_order,
    Layout.mem_order_iff h.plain.cut h.plain.ofBody]

/-- The jumps with line numbers are those without them, and those in place of copies. -/
theorem jumps_iff (h : Pair m b layout segs codes codes' st) :
    (outline segs (layout.withLines b)).jumps k j ↔
      (outline segs layout).jumps k j ∨ Copies b layout k j := by
  have hcut := h.plain.cut
  constructor
  · rintro ⟨seg, last, s, rest, hseg, hlast, hj, ht, hlabel⟩
    by_cases hplain : layout.labels.get? ⟨j⟩ = none
    · right
      obtain ⟨-, hline⟩ := (h.get?_ne_none_iff.1 hlabel).resolve_left (not_not.2 hplain)
      have hmem := hcut.mem_stmts (List.mem_of_getElem? hseg) (List.mem_of_getLast? hlast)
      have howner := hcut.owner?_eq hj List.mem_cons_self
      have hneeds := (Layout.get?_labels_eq_none_iff h.plain.nodup_order
        ((Layout.mem_order_iff hcut h.plain.ofBody).2 (List.getElem?_eq_some_iff.1 hj).1)).1 hplain
      -- What else is jumped to has a label.
      obtain ⟨t, hgoto⟩ : ∃ t, last.kind = .goto t := by
        by_contra hgoto
        have := Layout.needsLabel_of_target h.plain.ofBody hmem (not_exists.1 hgoto) ht howner
        rw [hneeds] at this
        cases this
      obtain rfl : s.id = t := by simpa [hgoto, StmtKind.targets] using ht
      obtain ⟨init, rfl⟩ := List.getLast?_eq_some_iff.1 hlast
      exact (copies_iff hcut).2 ⟨init, last, s, hseg, hgoto,
        hcut.mem_stmts (List.mem_of_getElem? hj) List.mem_cons_self, howner, hneeds, hline⟩
    · exact .inl ⟨seg, last, s, rest, hseg, hlast, hj, ht, hplain⟩
  · rintro (⟨seg, last, s, rest, hseg, hlast, hj, ht, hlabel⟩ | hcopy)
    · exact ⟨seg, last, s, rest, hseg, hlast, hj, ht, h.get?_ne_none_iff.2 (.inl hlabel)⟩
    · obtain ⟨init, last, ret, hseg, hr⟩ := (copies_iff hcut).1 hcopy
      have hmem := hcut.mem_stmts (List.mem_of_getElem? hseg) (s := last) (by simp)
      obtain ⟨hj, -⟩ := hr.lone hcut h.plain.ofBody hmem
      obtain ⟨-, l, hl⟩ := hr.exists_label hcut h.plain.ofBody hmem
      exact ⟨_, last, ret, [], hseg, by simp, hj, by simp [hr.kind, StmtKind.targets], by simp [hl]⟩

/-- Control does not go on behind a copy. -/
theorem ends (h : Pair m b layout segs codes codes' st) (hcopy : Copies b layout k j) :
    ¬(outline segs layout).falls k ∧ ∀ i, ¬(outline segs layout).jumps k i := by
  have hcut := h.plain.cut
  obtain ⟨init, last, ret, hseg, hr⟩ := (copies_iff hcut).1 hcopy
  have hmem := hcut.mem_stmts (List.mem_of_getElem? hseg) (s := last) (by simp)
  refine ⟨fun hfalls => ?_, fun i hjump => ?_⟩
  · -- A copy stands for a goto, which does not fall through.
    have := hfalls _ last hseg (by simp)
    rw [hr.kind] at this
    cases this
  · -- Without line numbers the target of the goto has no label to jump to.
    obtain ⟨seg, last', s, rest, hseg', hlast', hi, ht, hlabel⟩ := hjump
    cases hseg.symm.trans hseg'
    obtain rfl : last = last' := by simpa using hlast'
    have hid : s.id = ret.id := by simpa [hr.kind, StmtKind.targets] using ht
    obtain rfl := hcut.stmt_inj (hcut.mem_stmts (List.mem_of_getElem? hi) List.mem_cons_self) hr.mem
      hid
    cases (hcut.owner?_eq hi List.mem_cons_self).symm.trans hr.owner
    exact hlabel (hr.exists_label hcut h.plain.ofBody hmem).1

/-- Control does not go on behind what is copied. -/
theorem stops (h : Pair m b layout segs codes codes' st) (hcopy : Copies b layout k j) :
    ¬(outline segs layout).falls j ∧ ∀ i, ¬(outline segs (layout.withLines b)).jumps j i := by
  have hcut := h.plain.cut
  obtain ⟨init, last, ret, hseg, hr⟩ := (copies_iff hcut).1 hcopy
  have hmem := hcut.mem_stmts (List.mem_of_getElem? hseg) (s := last) (by simp)
  obtain ⟨hj, hreturn⟩ := hr.lone hcut h.plain.ofBody hmem
  -- What is copied is a return, which neither falls through nor has targets.
  obtain ⟨hfall, hnone⟩ := StmtKind.leaves_of_isReturn hreturn
  refine ⟨fun hfalls => ?_, fun i hjump => ?_⟩
  · have := hfalls _ ret hj rfl
    rw [hfall] at this
    cases this
  · obtain ⟨seg, last', s, rest, hj', hlast', -, ht, -⟩ := hjump
    cases hj.symm.trans hj'
    obtain rfl : ret = last' := by simpa using hlast'
    rw [hnone] at ht
    cases ht

variable {guards guards' : List Guard} {argSlots : Nat}

end Pair

end BytecodeLowering.Lowering
