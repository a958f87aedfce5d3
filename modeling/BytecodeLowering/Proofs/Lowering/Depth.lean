import BytecodeLowering.Proofs.Lowering.Balance
import BytecodeLowering.Proofs.Lowering.Failure
import BytecodeLowering.Proofs.Lowering.Method
import BytecodeLowering.Proofs.Lowering.Partition
import Mathlib

/-!
# Stack depth of lowered methods

The code of a method whose operands have the widths that are asked for can run: every block is
entered with an empty operand stack, or with the exception on it if it is a handler.

* `pieceDepth`, `labelDepth`: the depths in front of the code of the blocks and at their labels.
* `Emission.exists_sound`: all code of a method has these depths.
* `codeFree_lowerMethod`: so the check of the code does not find any that cannot run.
-/

namespace BytecodeLowering.Lowering

open Ir Machine

/-- The depth of the operand stack in front of some statements. -/
def depthBefore : List Stmt → Nat
  | [] => 0
  | s :: _ => entryDepth s.kind

/-- The depth of the operand stack in front of a piece. -/
def pieceDepth (segs : List (List Stmt)) (k : Nat) : Nat :=
  (segs[k]?.map depthBefore).getD 0

/-- The depth of the operand stack at the label of a block. -/
def labelDepth (layout : Layout) (segs : List (List Stmt)) (l : Label) : Option Nat :=
  layout.labelled[l.id]?.map fun x => pieceDepth segs x.val

variable {m : Method} {b : Body} {lines : Bool} {layout : Layout} {segs : List (List Stmt)}
  {codes : List (List Insn)} {p p' q q' : Progress} {code : List Insn} {j k : Nat}
  {seg : List Stmt}

section Entries

/-- A statement that takes an exception heads its piece, which control comes to in no other way. -/
theorem eq_cons_of_isCatch (hcut : Cut b segs) (hcatches : b.Catches) (hseg : segs[k]? = some seg)
    {s : Stmt} (hs : s ∈ seg) (hcatch : s.kind.isCatch) :
    (∃ rest, seg = s :: rest) ∧ k ≠ 0 ∧ ∀ block ∈ b.flow.blocks, ⟨k⟩ ∉ block.successors := by
  have hmem := hcut.mem_stmts (List.mem_of_getElem? hseg) hs
  obtain ⟨j, block, hblock, hhead, hne, hno⟩ := hcatches.only s hmem hcatch
  obtain ⟨seg', hseg'⟩ := hcut.exists_seg hblock
  rw [Block.head?, hcut.stmts_eq hblock hseg', List.head?_map] at hhead
  obtain ⟨s', hs', hid⟩ := Option.map_eq_some_iff.1 hhead
  obtain ⟨rest, rfl⟩ : ∃ rest, seg' = s' :: rest := by
    cases seg' with
    | nil => cases hs'
    | cons x rest =>
      cases hs'
      exact ⟨rest, rfl⟩
  -- The statement that heads the block is this one.
  obtain rfl : s' = s :=
    hcut.stmt_inj (hcut.mem_stmts (List.mem_of_getElem? hseg') List.mem_cons_self) hmem hid
  obtain rfl : j = k := hcut.seg_inj hseg hseg' hs List.mem_cons_self
  obtain rfl := Option.some.inj (hseg.symm.trans hseg')
  exact ⟨⟨rest, rfl⟩, hne, hno⟩

/-- A piece whose first statement takes no exception is entered with an empty stack. -/
theorem pieceDepth_eq_zero (h : ∀ s rest, segs[k]? = some (s :: rest) → s.kind.isCatch = false) :
    pieceDepth segs k = 0 := by
  unfold pieceDepth
  match hseg : segs[k]? with
  | none => rfl
  | some [] => rfl
  | some (s :: rest) => simp [depthBefore, entryDepth, h s rest hseg]

/-- A successor is entered with an empty stack. -/
theorem pieceDepth_of_successor (hcut : Cut b segs) (hcatches : b.Catches) {block : Block}
    (hblock : block ∈ b.flow.blocks) (hj : ⟨j⟩ ∈ block.successors) : pieceDepth segs j = 0 := by
  refine pieceDepth_eq_zero fun s rest hseg => ?_
  by_contra hcatch
  obtain ⟨-, -, hno⟩ :=
    eq_cons_of_isCatch hcut hcatches hseg List.mem_cons_self (by simpa using hcatch)
  exact hno block hblock hj

/-- The first piece is entered with an empty stack. -/
theorem pieceDepth_zero (hcut : Cut b segs) (hcatches : b.Catches) : pieceDepth segs 0 = 0 := by
  refine pieceDepth_eq_zero fun s rest hseg => ?_
  by_contra hcatch
  obtain ⟨-, hne, -⟩ :=
    eq_cons_of_isCatch hcut hcatches hseg List.mem_cons_self (by simpa using hcatch)
  exact hne rfl

/-- Only the first statement of a piece takes an exception. -/
theorem isCatch_of_mem_tail (hcut : Cut b segs) (hcatches : b.Catches)
    (hseg : segs[k]? = some seg) {s : Stmt} (hs : s ∈ seg.tail) : s.kind.isCatch = false := by
  by_contra hcatch
  obtain ⟨⟨rest, rfl⟩, -, -⟩ := eq_cons_of_isCatch hcut hcatches hseg (List.mem_of_mem_tail hs)
    (by simpa using hcatch)
  have hnodup : segs.flatten.Nodup := hcut.flatten.symm ▸ hcut.nodup.of_map
  have := (List.nodup_flatten.1 hnodup).1 _ (List.mem_of_getElem? hseg)
  exact (List.nodup_cons.1 this).1 hs

end Entries

section Labels

/-- The depth at the label of a block is that in front of its code. -/
theorem labelDepth_of_get? (hnodup : layout.order.Nodup) {l : Label}
    (hl : layout.labels.get? ⟨j⟩ = some l) :
    labelDepth layout segs l = some (pieceDepth segs j) := by
  rw [labelDepth, (Layout.get?_labels_eq_some_iff hnodup).1 hl]
  rfl

/-- A label that is entered is that of a block. -/
theorem exists_get?_of_labelDepth (hnodup : layout.order.Nodup) {l : Label}
    (hl : labelDepth layout segs l ≠ none) : ∃ j, layout.labels.get? ⟨j⟩ = some l := by
  obtain ⟨d, hd⟩ := Option.ne_none_iff_exists'.1 hl
  obtain ⟨x, hx, -⟩ := Option.map_eq_some_iff.1 hd
  exact ⟨x.val, (Layout.get?_labels_eq_some_iff hnodup).2 hx⟩

/-- The label behind all blocks is not entered. -/
theorem labelDepth_stop (hnodup : layout.order.Nodup) {l : Label}
    (hl : layout.labels.stop = some l) : labelDepth layout segs l = none := by
  by_contra hne
  obtain ⟨j, hj⟩ := exists_get?_of_labelDepth hnodup hne
  exact Layout.get?_labels_ne_stop hnodup hj hl

end Labels

section Pieces

variable {c : MethodContext}

/-- The code of statements leaves the stack empty behind the exception that the first one may
take. -/
theorem balanced_of_lowers (hbody : c.body.Fits c.method) (hm : c.method.isConstructor = false)
    {stmts : List Stmt} {stmtCodes : List (List Insn)} (hp : Ready q)
    (hmem : ∀ s ∈ stmts, s ∈ c.body.stmts) (htail : ∀ s ∈ stmts.tail, s.kind.isCatch = false)
    (h : Lowers (fun s : Stmt => lowerStmt c s.kind) q stmts stmtCodes q') :
    Balanced (depthBefore stmts) 0 stmtCodes.flatten q' := by
  induction h with
  | nil => exact .nil hp
  | @cons _ _ _ s stmts _ _ hs _ ih =>
    have hmems : s ∈ c.body.stmts := hmem s List.mem_cons_self
    have hhere := balanced_of_lowerStmt (fun _ _ => hbody) (fun _ _ => by simp [hm]) hp
      (hbody.stmts s hmems) (hbody.locals s hmems) hs
    have hrest := ih hhere.ready (fun s' hs' => hmem s' (List.mem_cons_of_mem _ hs'))
      (fun s' hs' => htail s' (List.mem_of_mem_tail hs'))
    -- Only the first statement finds an exception on the stack.
    have hzero : depthBefore stmts = 0 := by
      cases stmts with
      | nil => rfl
      | cons s' rest => simp [depthBefore, entryDepth, htail s' List.mem_cons_self]
    rw [hzero] at hrest
    exact hhere.append hrest

/-- The locals are ready at the start of a method. -/
theorem ready_of_ofMethod {slots : Slots} (h : Slots.ofMethod m b = .ok slots) :
    Ready ⟨slots, []⟩ := by
  obtain ⟨⟨params, behind⟩, -, h⟩ := bind_eq_ok_iff.1 h
  refine ⟨rfl, ?_⟩
  -- What is passed to a method is in slots, and nothing else has a place yet.
  refine foldlM_induct (P := fun s => ∀ l, s.binding? l ≠ some .stack) h ?_ ?_
  · simp [Slots.binding?]
  · intro x _ s s' hs hseed
    rcases Slots.seed_ok hseed with rfl | ⟨_, _, n, -, -, -, hbind⟩
    · exact hs
    · intro l hl
      refine Slots.forall_of_bind (P := fun _ x => x ≠ .stack) hbind ?_ ?_ l _ hl rfl
      · intro hstack
        cases hstack
      · rintro l' _ hl' rfl
        exact hs l' hl'

end Pieces

namespace Emission

/-- How control leaves the code of the statements of a piece: it goes on behind all of it, or an
instruction at its end goes where the last statement goes. -/
theorem exits (he : Emission m b lines layout segs codes p p') (hseg : segs[k]? = some seg)
    {stmtCodes : List (List Insn)}
    (h : Lowers (fun s : Stmt => lowerStmt ⟨m, b, layout, layout.labels⟩ s.kind) q seg
      stmtCodes q') :
    ∃ last, seg.getLast? = some last ∧
      (last.kind.fallsThrough ∧ (∀ i ∈ stmtCodes.flatten, i.isPlain) ∨
        ∃ front i, stmtCodes.flatten = front ++ [i] ∧ (∀ x ∈ front, x.isPlain) ∧
          i.bound? = none ∧ i.endsFlow = !last.kind.fallsThrough ∧
          ∀ l ∈ i.targets, ∃ t ∈ last.kind.targets,
            targetLabel ⟨m, b, layout, layout.labels⟩ t = .ok l) := by
  obtain ⟨stmts, last, initCodes, lastCode, r, rfl, rfl, -, hfront, hrun⟩ := he.exists_last hseg h
  have hlast : (stmts ++ [last]).getLast? = some last := by simp
  have hsplit : (initCodes ++ [lastCode]).flatten = initCodes.flatten ++ lastCode := by simp
  refine ⟨last, hlast, ?_⟩
  have hplain : ∀ {init : List Insn}, (∀ x ∈ init, x.isPlain) →
      ∀ x ∈ initCodes.flatten ++ init, x.isPlain :=
    fun hinit => List.forall_mem_append.2 ⟨hfront.plain, hinit⟩
  cases hends : last.kind.endsBlock with
  | false =>
    -- All of the code is straight.
    have hcode := straight_of_lowerStmt (P := fun _ => True) hends (by simp) (by simp) hrun
    exact .inl ⟨(StmtKind.straight_of_not_endsBlock hends).1, hsplit ▸ hplain hcode.plain⟩
  | true =>
    obtain ⟨init, i, rfl, hinit, hexit, hflow, htargets⟩ := exists_exit_of_lowerStmt
      (P := fun _ => True) hends (by simp) (by simp)
      (he.switch_length hseg (List.mem_of_getLast? hlast)) hrun
    exact .inr ⟨initCodes.flatten ++ init, i, by rw [hsplit, List.append_assoc],
      hplain hinit.plain, Insn.bound?_of_isExit hexit, hflow, fun l hl => (htargets l).1 hl⟩

variable {rest : List Insn} {ds : List (Option Nat)}

/-- The code of the statements of a piece leaves the stack empty. -/
theorem balanced_of_lowerPiece (he : Emission m b lines layout segs codes p p')
    (hfits : b.Fits m) (hm : m.isConstructor = false) (hcatches : b.Catches)
    (hseg : segs[k]? = some seg) (hq : Ready q)
    (hrun : lowerPiece ⟨m, b, layout, layout.labels⟩ lines (seg, k) q = .ok (code, q')) :
    ∃ stmtCodes, Lowers (fun s : Stmt => lowerStmt ⟨m, b, layout, layout.labels⟩ s.kind) q seg
        stmtCodes q' ∧
      pieceStart ⟨m, b, layout, layout.labels⟩ lines seg k ++ stmtCodes.flatten = code ∧
      Balanced (pieceDepth segs k) 0 stmtCodes.flatten q' := by
  obtain ⟨stmtCodes, hcodes, hcode⟩ := lowerPiece_run_iff.1 hrun
  refine ⟨stmtCodes, hcodes, hcode, ?_⟩
  rw [pieceDepth, hseg]
  exact balanced_of_lowers (c := ⟨m, b, layout, layout.labels⟩) hfits hm hq
    (fun s hs => he.cut.mem_stmts (List.mem_of_getElem? hseg) hs)
    (fun s hs => isCatch_of_mem_tail he.cut hcatches hseg hs) hcodes

/-- The last statement of a piece only goes to pieces that are entered with an empty stack. -/
theorem labelDepth_of_target (he : Emission m b lines layout segs codes p p')
    (hcatches : b.Catches) (hseg : segs[k]? = some seg) {last : Stmt}
    (hlast : seg.getLast? = some last) {t : StmtId} (ht : t ∈ last.kind.targets) {l : Label}
    (hl : targetLabel ⟨m, b, layout, layout.labels⟩ t = .ok l) :
    labelDepth layout segs l = some 0 := by
  obtain ⟨x, hx, hget⟩ := targetLabel_eq_ok_iff.1 hl
  have hmem := he.cut.mem_stmts (List.mem_of_getElem? hseg) (List.mem_of_getLast? hlast)
  obtain ⟨j, s, rest, howner, hj, rfl⟩ := he.cut.owner?_target hmem ht
  obtain rfl := Option.some.inj (hx.symm.trans howner)
  obtain ⟨block, hblock⟩ := he.cut.exists_block hseg
  have hsucc :=
    (he.cut.successors k block seg last hblock hseg hlast j).2 (.inr ⟨s, rest, hj, ht⟩)
  rw [labelDepth_of_get? he.nodup_order hget,
    pieceDepth_of_successor he.cut hcatches (List.mem_of_getElem? hblock) hsucc]

/-- The code of the statements of a piece has sound depths in front of code that is entered with an
empty stack if control goes on. -/
theorem sound_stmts (he : Emission m b lines layout segs codes p p') (hcatches : b.Catches)
    (hseg : segs[k]? = some seg) {last : Stmt} (hlast : seg.getLast? = some last)
    {stmtCodes : List (List Insn)}
    (hcodes : Lowers (fun s : Stmt => lowerStmt ⟨m, b, layout, layout.labels⟩ s.kind) q seg
      stmtCodes q') {d : Nat} (hafter : depthAfter d stmtCodes.flatten = some 0)
    (h : Sound (labelDepth layout segs) (if last.kind.fallsThrough then some 0 else none)
      rest ds) :
    ∃ ds, Sound (labelDepth layout segs) (some d) (stmtCodes.flatten ++ rest) ds := by
  obtain ⟨last', hlast', hexits⟩ := he.exits hseg hcodes
  obtain rfl := Option.some.inj (hlast'.symm.trans hlast)
  rcases hexits with ⟨hfall, hplain⟩ | ⟨front, i, hsplit, hfront, hbound, hflow, htargets⟩
  · rw [if_pos hfall] at h
    exact h.append_plain hplain hafter
  · -- The instruction at the end takes what is left on the stack, wherever it goes.
    rw [hsplit, depthAfter_append, Option.bind_eq_some_iff] at hafter
    obtain ⟨d', hd, hi⟩ := hafter
    have hjump : Sound (labelDepth layout segs) (some d') (i :: rest) (some d' :: ds) := by
      refine Sound.cons_jump hbound hi (fun l hl => ?_) ?_
      · obtain ⟨t, ht, hl⟩ := htargets l hl
        exact he.labelDepth_of_target hcatches hseg hlast ht hl
      · rw [hflow]
        cases hfall : last'.kind.fallsThrough <;> simpa [hfall] using h
    rw [hsplit, List.append_assoc]
    exact hjump.append_plain hfront hd

/-- The start of a piece does not change the depth. -/
theorem sound_pieceStart (he : Emission m b lines layout segs codes p p')
    (h : Sound (labelDepth layout segs) (some (pieceDepth segs k)) rest ds) :
    ∃ ds, Sound (labelDepth layout segs) (some (pieceDepth segs k))
      (pieceStart ⟨m, b, layout, layout.labels⟩ lines seg k ++ rest) ds := by
  unfold pieceStart
  split
  · exact ⟨ds, h⟩
  · rename_i l hl
    have hlabel : labelDepth layout segs l = some (pieceDepth segs k) :=
      labelDepth_of_get? he.nodup_order hl
    split
    · cases seg.head?.bind Stmt.line with
      | none => exact ⟨_, h.cons_label hlabel⟩
      | some n => exact ⟨_, h.cons_lineNumber.cons_label hlabel⟩
    · exact ⟨_, h.cons_label hlabel⟩

/-- The code of a piece has sound depths in front of code that is entered with an empty stack if
control goes on. -/
theorem sound_piece (he : Emission m b lines layout segs codes p p') (hfits : b.Fits m)
    (hm : m.isConstructor = false) (hcatches : b.Catches) (hseg : segs[k]? = some seg)
    {last : Stmt} (hlast : seg.getLast? = some last) (hq : Ready q)
    (hrun : lowerPiece ⟨m, b, layout, layout.labels⟩ lines (seg, k) q = .ok (code, q'))
    (h : Sound (labelDepth layout segs) (if last.kind.fallsThrough then some 0 else none)
      rest ds) :
    ∃ ds, Sound (labelDepth layout segs) (some (pieceDepth segs k)) (code ++ rest) ds := by
  obtain ⟨stmtCodes, hcodes, rfl, hbalanced⟩ :=
    he.balanced_of_lowerPiece hfits hm hcatches hseg hq hrun
  have hafter : depthAfter (pieceDepth segs k) stmtCodes.flatten = some 0 := by
    simpa using hbalanced.turns 0
  obtain ⟨ds', hstmts⟩ := he.sound_stmts hcatches hseg hlast hcodes hafter h
  rw [List.append_assoc]
  exact he.sound_pieceStart hstmts

/-- Control goes on behind a piece into one that is entered with an empty stack. -/
theorem pieceDepth_next (he : Emission m b lines layout segs codes p p') (hcatches : b.Catches)
    (hseg : segs[k]? = some seg) {last : Stmt} (hlast : seg.getLast? = some last)
    (hfall : last.kind.fallsThrough) (hlt : k + 1 < segs.length) : pieceDepth segs (k + 1) = 0 := by
  obtain ⟨block, hblock⟩ := he.cut.exists_block hseg
  exact pieceDepth_of_successor he.cut hcatches (List.mem_of_getElem? hblock)
    ((he.cut.successors k block seg last hblock hseg hlast (k + 1)).2 (.inl ⟨hfall, rfl, hlt⟩))

/-- The last statement of the last piece is the last one of the body. -/
theorem getLast?_stmts (he : Emission m b lines layout segs codes p p')
    (hseg : segs[k]? = some seg) (hk : k + 1 = segs.length) :
    b.stmts.getLast? = seg.getLast? := by
  have hlast : segs.getLast? = some seg := by
    rw [List.getLast?_eq_getElem?, ← hk, Nat.add_sub_cancel, hseg]
  obtain ⟨init, rfl⟩ := List.getLast?_eq_some_iff.1 hlast
  have hne : seg ≠ [] := fun hnil => he.cut.nil_notMem (hnil ▸ List.mem_of_getElem? hseg)
  rw [← he.cut.flatten, List.flatten_append, List.flatten_singleton,
    List.getLast?_append_of_ne_nil _ hne]

/-- The locals are ready in front of every piece. -/
theorem ready_of_run (he : Emission m b lines layout segs codes p p') (hfits : b.Fits m)
    (hm : m.isConstructor = false) (hcatches : b.Catches) {st : Nat → Progress}
    (hst : ∀ k seg code, segs[k]? = some seg → codes[k]? = some code →
      lowerPiece ⟨m, b, layout, layout.labels⟩ lines (seg, k) (st k) = .ok (code, st (k + 1)))
    (hp : Ready (st 0)) (hk : k ≤ segs.length) : Ready (st k) := by
  induction k with
  | zero => exact hp
  | succ k ih =>
    have hlt : k < codes.length := he.length_codes ▸ hk
    obtain ⟨_, -, -, hbalanced⟩ := he.balanced_of_lowerPiece hfits hm hcatches
      (List.getElem?_eq_getElem hk) (ih (Nat.le_of_succ_le hk))
      (hst k _ _ (List.getElem?_eq_getElem hk) (List.getElem?_eq_getElem hlt))
    exact hbalanced.ready

/-- What stands behind all blocks is not reached. -/
theorem sound_stop (he : Emission m b lines layout segs codes p p') :
    ∃ ds, Sound (labelDepth layout segs) none (layout.labels.stop.map Insn.label).toList ds := by
  cases hstop : layout.labels.stop with
  | none => exact ⟨[], .nil⟩
  | some l =>
    refine ⟨_, .dead ?_ .nil⟩
    rintro _ ⟨⟩
    exact labelDepth_stop he.nodup_order hstop

/-- The code from any piece on has sound depths. -/
theorem exists_sound (he : Emission m b lines layout segs codes p p') (hfits : b.Fits m)
    (hm : m.isConstructor = false) (hcatches : b.Catches)
    (hlast : ∀ s, b.stmts.getLast? = some s → s.kind.fallsThrough = false) (hp : Ready p)
    (hk : k ≤ segs.length) :
    ∃ ds, Sound (labelDepth layout segs)
      (if k < segs.length then some (pieceDepth segs k) else none)
      ((codes.drop k).flatten ++ (layout.labels.stop.map Insn.label).toList) ds := by
  obtain ⟨st, hst, -, hrun⟩ := he.run.exists_states
  have hpieces : ∀ k seg code, segs[k]? = some seg → codes[k]? = some code →
      lowerPiece ⟨m, b, layout, layout.labels⟩ lines (seg, k) (st k) = .ok (code, st (k + 1)) :=
    fun k seg code hseg hcode => hrun k (seg, k) code (by simp [hseg]) hcode
  -- The pieces are put in front of what stands behind them, the last one first.
  induction hn : segs.length - k generalizing k with
  | zero =>
    have heq : k = segs.length := by omega
    rw [if_neg (by omega), List.drop_of_length_le (by rw [he.length_codes, heq])]
    exact he.sound_stop
  | succ n ih =>
    have hlt : k < segs.length := by omega
    have hcodelt : k < codes.length := he.length_codes ▸ hlt
    obtain ⟨ds, hrest⟩ := ih (k := k + 1) hlt (by omega)
    have hseg : segs[k]? = some segs[k] := List.getElem?_eq_getElem hlt
    have hne : segs[k] ≠ [] := fun hnil => he.cut.nil_notMem (hnil ▸ List.getElem_mem hlt)
    have hend : segs[k].getLast? = some (segs[k].getLast hne) := List.getLast?_eq_some_getLast hne
    have hready : Ready (st k) := he.ready_of_run hfits hm hcatches hpieces (hst ▸ hp) hk
    rw [if_pos hlt, List.drop_eq_getElem_cons hcodelt, List.flatten_cons, List.append_assoc]
    refine he.sound_piece hfits hm hcatches hseg hend hready
      (hpieces k _ _ hseg (List.getElem?_eq_getElem hcodelt)) (?_ : Sound _ _ _ ds)
    cases hfall : (segs[k].getLast hne).kind.fallsThrough with
    | true =>
      -- The last statement of the body does not go on behind it.
      have hnext : k + 1 < segs.length := by
        by_contra hge
        have hsame := he.getLast?_stmts hseg (by omega)
        rw [hlast _ (hsame.trans hend)] at hfall
        cases hfall
      rw [if_pos hnext, he.pieceDepth_next hcatches hseg hend hfall hnext] at hrest
      simpa using hrest
    | false =>
      rw [if_neg (by simp)]
      split at hrest
      · exact .enter hrest
      · exact hrest

/-- What stands behind all blocks. -/
theorem mem_stop_iff {i : Insn} : i ∈ (layout.labels.stop.map Insn.label).toList ↔
    ∃ l, layout.labels.stop = some l ∧ i = .label l := by
  cases layout.labels.stop <;> simp

/-- The label of a block is bound. -/
theorem place?_ne_none (he : Emission m b lines layout segs codes p p') {x : BlockId} {l : Label}
    (hl : layout.labels.get? x = some l) (behind : List Insn) :
    place? (codes.flatten ++ behind) l ≠ none := by
  obtain ⟨_, -, hplace⟩ := he.place?_label (k := x.val) hl behind
  simp [hplace]

/-- The instructions of a lowered method: labels, lines, and the code of statements. -/
theorem insn_cases (he : Emission m b lines layout segs codes p p') {i : Insn}
    (hi : i ∈ codes.flatten ++ (layout.labels.stop.map Insn.label).toList) :
    (∃ l, i = .label l) ∨ (∃ k n l, i = .lineNumber n l ∧ layout.labels.get? ⟨k⟩ = some l) ∨
      i.isPlain ∨ i.isExit := by
  rcases List.mem_append.1 hi with hi | hi
  · obtain ⟨code, hcode, hi⟩ := List.mem_flatten.1 hi
    obtain ⟨k, hk⟩ := List.getElem?_of_mem hcode
    obtain ⟨seg, stmtCodes, -, rfl, hstmts⟩ := he.exists_stmtCodes hk
    rcases List.mem_append.1 hi with hi | hi
    · obtain ⟨l, hl, rfl | ⟨n, rfl⟩⟩ := exists_label_of_mem_pieceStart hi
      · exact .inl ⟨l, rfl⟩
      · exact .inr (.inl ⟨k, n, l, rfl, hl⟩)
    · exact .inr (.inr (hstmts i hi))
  · obtain ⟨l, -, rfl⟩ := mem_stop_iff.1 hi
    exact .inl ⟨l, rfl⟩

/-- The handler of an exception range is a block that takes the exception. -/
theorem pieceDepth_of_range (he : Emission m b lines layout segs codes p p')
    (hcatches : b.Catches) {r : TrapRange} (hr : r ∈ layout.ranges) :
    pieceDepth segs r.handler.val = 1 := by
  have hparts := Layout.ofBody_eq_ok he.ofBody
  obtain ⟨blocks, -, hblocks, -⟩ := hparts.traps
  -- The range is that of an edge of a block.
  obtain ⟨t, ht, hrange⟩ := exists_left_of_mem (mapM_eq_ok_iff.1 hparts.ranges) hr
  obtain ⟨⟨block, e⟩, hedge, htrap⟩ :=
    exists_left_of_mem (Layout.forall₂_traps he.cut.partitioned he.ofBody hblocks) ht
  obtain ⟨hblock, -, he'⟩ := mem_protections_iff.1 hedge
  have hperm := Layout.perm_of_mapM_getBlock he.cut.partitioned he.ofBody hblocks
  obtain ⟨handler, hhandler, hid, -⟩ := Flow.exists_of_owner? htrap.handler
  obtain ⟨j, hj⟩ := List.getElem?_of_mem hhandler
  obtain ⟨seg, hseg⟩ := he.cut.exists_seg hj
  -- The handler takes the exception with its first statement, which is that of its piece.
  obtain ⟨s, hs, hcatch⟩ := hcatches.handler block (hperm.mem_iff.1 hblock) e he' handler
    (by rw [← hid, he.cut.id_eq hj, he.cut.block?_eq hj])
  rw [Block.head?, he.cut.stmts_eq hj hseg, List.head?_map] at hs
  obtain ⟨s', rest, rfl⟩ : ∃ s' rest, seg = s' :: rest := by
    cases seg with
    | nil => cases hs
    | cons s' rest => exact ⟨s', rest, rfl⟩
  have hmem := he.cut.mem_stmts (List.mem_of_getElem? hseg) (s := s') List.mem_cons_self
  obtain rfl : s' = s := Option.some.inj ((he.cut.stmt?_eq hmem).symm.trans hs)
  have hrange' := rangeFor_of_rangeOf he.nodup_order htrap hrange
  rw [hrange'.handler, ← hid, he.cut.id_eq hj]
  simp [pieceDepth, hseg, depthBefore, entryDepth, hcatch]

/-- The labels of the exception table are bound. -/
theorem place?_guard_ne_none (he : Emission m b lines layout segs codes p p') {guards : List Guard}
    (hguards : layout.guards = .ok guards) {g : Guard} (hg : g ∈ guards) {l : Label}
    (hl : l ∈ g.labels) :
    place? (codes.flatten ++ (layout.labels.stop.map Insn.label).toList) l ≠ none := by
  obtain ⟨r, -, h⟩ := exists_left_of_mem (mapM_eq_ok_iff.1 hguards) hg
  obtain ⟨hstart, hstop, hhandler, -⟩ := guardOf_eq_ok_iff.1 h
  simp only [Guard.labels, List.mem_cons, List.not_mem_nil, or_false] at hl
  rcases hl with rfl | rfl | rfl
  · exact he.place?_ne_none hstart _
  · rcases boundary_eq_ok_iff.1 hstop with ⟨_, -, hget⟩ | ⟨-, hend⟩
    · exact he.place?_ne_none hget _
    · simp [he.laidOut.place?_stop hend]
  · exact he.place?_ne_none hhandler _

/-- The handlers of the exception table are entered with the exception. -/
theorem labelDepth_handler (he : Emission m b lines layout segs codes p p') (hcatches : b.Catches)
    {guards : List Guard} (hguards : layout.guards = .ok guards) {g : Guard} (hg : g ∈ guards) :
    labelDepth layout segs g.handler = some 1 := by
  obtain ⟨r, hr, h⟩ := exists_left_of_mem (mapM_eq_ok_iff.1 hguards) hg
  rw [labelDepth_of_get? (j := r.handler.val) he.nodup_order (guardOf_eq_ok_iff.1 h).2.2.1,
    he.pieceDepth_of_range hcatches hr]

/-- The check of the code finds nothing but faults on its paths. -/
theorem fault_of_maxSizes (he : Emission m b lines layout segs codes p p') {guards : List Guard}
    (hguards : layout.guards = .ok guards) {argSlots : Nat} {e : CodeError}
    (h : maxSizes (codes.flatten ++ (layout.labels.stop.map Insn.label).toList) guards argSlots =
      .error e) :
    Fault (codes.flatten ++ (layout.labels.stop.map Insn.label).toList) guards e := by
  -- The other reasons not to measure code, one after the other.
  rcases maxSizes_eq_error h with ⟨l, hl, -⟩ | ⟨op, slot, hi, hwidth, -⟩ |
    ⟨g, hg, l, hl, hplace, -⟩ | ⟨n, l, hi, hplace, -⟩ | hfault
  · rw [firstRepeat?_eq_none_iff.2 he.laidOut.nodup_bound?] at hl
    cases hl
  · rcases he.insn_cases hi with ⟨_, ⟨⟩⟩ | ⟨_, _, _, ⟨⟩, -⟩ | hplain | hexit
    · simp [Insn.isPlain, hwidth] at hplain
    · cases hexit
  · exact absurd hplace (he.place?_guard_ne_none hguards hg hl)
  · rcases he.insn_cases hi with ⟨_, ⟨⟩⟩ | ⟨_, _, _, ⟨⟩, hget⟩ | hplain | hexit
    · exact absurd hplace (he.place?_ne_none hget _)
    · cases hplain
    · cases hexit
  · exact hfault

/-- The depth in front of the first instruction is zero. -/
theorem first_depth (he : Emission m b lines layout segs codes p p') (hcatches : b.Catches)
    {ds : List (Option Nat)}
    (h : Sound (labelDepth layout segs)
      (if 0 < segs.length then some (pieceDepth segs 0) else none)
      (codes.flatten ++ (layout.labels.stop.map Insn.label).toList) ds)
    (hne : codes.flatten ++ (layout.labels.stop.map Insn.label).toList ≠ []) :
    ds[0]? = some (some 0) := by
  by_cases hlt : 0 < segs.length
  · rw [if_pos hlt, pieceDepth_zero he.cut hcatches] at h
    rw [← List.head?_eq_getElem?, h.head?_eq]
  · -- Without pieces there is no exception range that could ask for a label behind them.
    have hsegs : segs = [] := List.eq_nil_of_length_eq_zero (by omega)
    have hcodes : codes = [] := List.eq_nil_of_length_eq_zero (by rw [he.length_codes, hsegs]; rfl)
    refine absurd ?_ hne
    rw [hcodes, List.flatten_nil, List.nil_append]
    cases hstop : layout.labels.stop with
    | none => rfl
    | some l =>
      have hneeds : layout.needsEndLabel := by
        by_contra hnot
        simp [Layout.labels, hnot] at hstop
      obtain ⟨r, hr, -⟩ := List.any_eq_true.1 hneeds
      have hone := he.pieceDepth_of_range hcatches hr
      simp [pieceDepth, hsegs] at hone

/-- The check of the code finds nothing. -/
theorem maxSizes_ne_error (he : Emission m b lines layout segs codes p p') (hfits : b.Fits m)
    (hm : m.isConstructor = false) (hcatches : b.Catches)
    (hlast : ∀ s, b.stmts.getLast? = some s → s.kind.fallsThrough = false) (hp : Ready p)
    {guards : List Guard} (hguards : layout.guards = .ok guards) (argSlots : Nat)
    (e : CodeError) :
    maxSizes (codes.flatten ++ (layout.labels.stop.map Insn.label).toList) guards argSlots ≠
      .error e := by
  intro h
  obtain ⟨ds, hsound⟩ := he.exists_sound hfits hm hcatches hlast hp (Nat.zero_le _)
  rw [List.drop_zero] at hsound
  refine hsound.no_fault (fun hne => he.first_depth hcatches hsound hne)
    (fun g hg => he.labelDepth_handler hcatches hguards hg) (fun l hl => ?_) e
    (he.fault_of_maxSizes hguards h)
  obtain ⟨j, hj⟩ := exists_get?_of_labelDepth he.nodup_order hl
  exact he.place?_ne_none hj _

end Emission

/-- A method never fails for code that cannot run, if the operands of its statements have the widths
that are asked for, its locals have slots of their own, exceptions are taken where handlers start
and nowhere else, and its last statement does not go on behind the body. -/
theorem codeFree_lowerMethod {locals : List Local} {stmts : List Stmt} {traps : List Trap}
    (hb : Body.ofStmts locals stmts traps = .ok b) (hbody : m.body = some b)
    (hm : m.isConstructor = false) (hfits : b.Fits m) (hcatches : b.Catches)
    (hlast : ∀ s, b.stmts.getLast? = some s → s.kind.fallsThrough = false) (owner : ClassName)
    (options : Options) (argSlots : Nat) : CodeFree (lowerMethod owner m options argSlots) := by
  rw [lowerMethod, hbody]
  refine CodeFree.within _ _ (.bind_of_ok (codeFree_ofBody _ _) fun layout hlayout => ?_)
  refine .bind_of_ok (codeFree_guards layout) fun guards hguards => ?_
  refine .bind_of_ok (codeFree_lowerBlocks _ _ _) ?_
  rintro ⟨codes, slots⟩ hcodes
  have hcut := Cut.ofStmts hb
  obtain ⟨start, pending, hstart, hrun⟩ := lowerBlocks_eq_ok hcut hlayout hcodes
  have he : Emission m b options.lineNumbers layout (Flow.pieces stmts traps) codes ⟨start, []⟩
    ⟨slots, pending⟩ := ⟨hcut, hlayout, hrun⟩
  refine .bind_of_ok (fun e h => ?_) fun sizes _ => .ok _
  -- The check of the code is left, and that has sound depths.
  obtain ⟨ce, hce, -⟩ := mapError_eq_error_iff.1 h
  exact absurd hce (he.maxSizes_ne_error hfits hm hcatches hlast (ready_of_ofMethod hstart) hguards
    argSlots ce)

section Parse

/-- The text that `parse` is given. -/
def parseText : Local := ⟨"text", .object .string, .ordinary⟩

/-- The number that `parse` finds. -/
def parseNumber : Local := ⟨"number", .prim .long, .ordinary⟩

/-- The exception that `parse` catches. -/
def parseFailure : Local := ⟨"failure", .object ⟨"java.lang.Throwable"⟩, .ordinary⟩

/-- The statements of `parse`. -/
def parseStmts : List Stmt :=
  [⟨⟨0⟩, none, .identity parseText (.parameter 0 (.object .string))⟩,
    ⟨⟨1⟩, none, .assign (.var parseNumber) (.invoke (.static
      ⟨⟨"java.lang.Long"⟩, "parseLong", [.object .string], .prim .long⟩ [.var parseText]))⟩,
    ⟨⟨2⟩, none, .return (.var parseNumber)⟩,
    ⟨⟨3⟩, none, .identity parseFailure .caughtException⟩,
    ⟨⟨4⟩, none, .return (.const (.long 0))⟩]

/-- The body of `parse`. -/
def parseBody : Body where
  locals := [parseText, parseNumber, parseFailure]
  stmts := parseStmts
  flow := ⟨[⟨⟨0⟩, [⟨0⟩, ⟨1⟩, ⟨2⟩], [], [⟨⟨"java.lang.Throwable"⟩, ⟨1⟩⟩]⟩,
    ⟨⟨1⟩, [⟨3⟩, ⟨4⟩], [], []⟩]⟩

/-- A method that reads a number, and returns zero if there is none. -/
def parse : Method :=
  ⟨"parse", [.static], [.object .string], .prim .long, [], some parseBody, none⟩

/-- The statements of `parse` fit. -/
theorem fits_parse : parseBody.Fits parse := by
  -- The call passes the text, and has a result of two words.
  have hcall : Invocation.Fits (.static
      ⟨⟨"java.lang.Long"⟩, "parseLong", [.object .string], .prim .long⟩ [.var parseText]) :=
    ⟨rfl, nofun, by simp [Invocation.method, Ty.Nameable, ClassName.string],
      fun _ => trivial⟩
  have hstored : ∀ l ∈ parseBody.locals, l.Stored := by
    intro l hl
    simp only [parseBody, List.mem_cons, List.not_mem_nil, or_false] at hl
    rcases hl with rfl | rfl | rfl <;> exact ⟨nofun, nofun, nofun⟩
  have hmentions : ∀ s ∈ parseBody.stmts, ∀ l ∈ s.kind.uses ++ s.kind.def?.toList,
      l ∈ parseBody.locals := by decide
  refine ⟨fun s hs => ?_, fun s hs l hl => hstored l (hmentions s hs l ?_)⟩
  · simp only [parseBody, parseStmts, List.mem_cons, List.not_mem_nil, or_false] at hs
    rcases hs with rfl | rfl | rfl | rfl | rfl
    · rintro _ ⟨⟩
      rfl
    · exact ⟨trivial, hcall, rfl⟩
    all_goals rfl
  · rw [List.mem_append, Option.mem_toList]
    exact hl

/-- The only handler of `parse` takes the exception. -/
theorem catches_parse : parseBody.Catches := by
  refine ⟨fun block hblock e he h hh => ?_, fun s hs hcatch => ?_⟩
  · simp only [parseBody, List.mem_cons, List.not_mem_nil, or_false] at hblock
    rcases hblock with rfl | rfl
    · obtain rfl := List.mem_singleton.1 he
      cases hh
      exact ⟨_, rfl, rfl⟩
    · cases he
  · simp only [parseBody, parseStmts, List.mem_cons, List.not_mem_nil, or_false] at hs
    rcases hs with rfl | rfl | rfl | rfl | rfl
    case inr.inr.inr.inl => exact ⟨1, _, rfl, rfl, by decide, by decide⟩
    all_goals cases hcatch

/-- `codeFree_lowerMethod` at a method with a call and a handler. -/
theorem codeFree_parse :
    Body.ofStmts [parseText, parseNumber, parseFailure] parseStmts
        [⟨⟨"java.lang.Throwable"⟩, ⟨0⟩, ⟨3⟩, ⟨3⟩⟩] = .ok parseBody ∧
      parseBody.Fits parse ∧ parseBody.Catches ∧ CodeFree (lowerMethod ⟨"A"⟩ parse {} 1) := by
  have hb : Body.ofStmts [parseText, parseNumber, parseFailure] parseStmts
      [⟨⟨"java.lang.Throwable"⟩, ⟨0⟩, ⟨3⟩, ⟨3⟩⟩] = .ok parseBody := by cbv
  refine ⟨hb, fits_parse, catches_parse, ?_⟩
  exact codeFree_lowerMethod hb rfl rfl fits_parse catches_parse
    (by rintro _ ⟨⟩; rfl) ⟨"A"⟩ {} 1

end Parse

end BytecodeLowering.Lowering
