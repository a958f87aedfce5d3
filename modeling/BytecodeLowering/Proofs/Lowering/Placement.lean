import BytecodeLowering.Proofs.Lowering.Control
import BytecodeLowering.Proofs.Lowering.Layout

/-!
# Places of labels

The code of a method is that of its blocks, one after the other, whatever graph the blocks come
from, and the label of a block is bound where the code of the block starts.

* `exists_lowers_of_lowerStmts`, `exists_of_mem_lowerStmts`, `exists_of_lowerBlock`: the code of a
  block is that of its statements behind its label.
* `GoesOn`, `goesOn_of_blockEnd`: what stands behind them.
* `Heads`, `heads_of_lowerBlock`: it binds the label of the block with its first instruction, and no
  other label.
* `startOf`: where the code of a block starts.
* `LaidOut.place?_label`, `LaidOut.place?_stop`: the label of a block is bound there, and that of
  the end behind all blocks.
* `LaidOut.filterMap_bound?`, `LaidOut.nodup_bound?`: no other labels are bound, and none twice.
* `lowerMethod_eq_ok`, `laidOut_of_lowerBlocks`: what a lowered method is made of.
-/

namespace BytecodeLowering.Lowering

open Ir Machine

variable {c : MethodContext} {p p' : Progress} {code : List Insn} {title : String} {lines : Bool}

/-- The code of a statement is straight up to an instruction that control may leave it by, and
lowering it touches the locals of the statement, or of the return that stands in its place. -/
theorem isPlain_or_isExit_of_lowerStmt {P : Local → Prop} {k : StmtKind} (huses : ∀ l ∈ k.uses, P l)
    (hdef : ∀ l, k.def? = some l → P l)
    (hreturn : ∀ t s, k = .goto t → c.body.stmt? t = some s → ∀ l ∈ s.kind.uses, P l)
    (hlength : ∀ key values targets default, k = .switch key values targets default →
      values.length = targets.length)
    (h : lowerStmt c k p = .ok (code, p')) :
    (∀ i ∈ code, i.isPlain ∨ i.isExit) ∧ Slots.Touches P p.slots p'.slots := by
  have hends : ∀ {k : StmtKind}, EndsWith P c k p code p' →
      (∀ i ∈ code, i.isPlain ∨ i.isExit) ∧ Slots.Touches P p.slots p'.slots := by
    rintro k ⟨front, last, rfl, hfront, hlast⟩
    refine ⟨fun i hi => ?_, hfront.touches⟩
    rcases List.mem_append.1 hi with hi | hi
    · exact .inl (hfront.plain i hi)
    · exact .inr (List.mem_singleton.1 hi ▸ hlast.isExit)
  cases hk : k.endsBlock with
  | false =>
    have hcode := straight_of_lowerStmt hk huses hdef h
    exact ⟨fun i hi => .inl (hcode.plain i hi), hcode.touches⟩
  | true =>
    -- A goto may have the code of a return in its place, which names the locals of the return.
    rcases ends_of_lowerStmt hk huses hlength h with
      h | ⟨t, x, s, hgoto, -, -, hs, hisReturn, h⟩
    · exact hends h
    · exact hends (endsWith_of_isReturn hisReturn (hreturn t s hgoto hs) h)

/-- The code of statements is that of each of them, one after the other, whichever statements of the
body the numbers stand for. -/
theorem exists_lowers_of_lowerStmts {ids : List StmtId}
    (h : lowerStmts c title ids p = .ok (code, p')) :
    ∃ stmts codes, List.Forall₂ (fun id s => c.body.stmt? id = some s) ids stmts ∧
      Lowers (fun s : Stmt => lowerStmt c s.kind) p stmts codes p' ∧ codes.flatten = code := by
  obtain ⟨codes, q, hrun, hcode⟩ := bind_run_iff.1 h
  obtain ⟨rfl, rfl⟩ := pure_run_iff.1 hcode
  suffices hstmts : ∃ stmts, List.Forall₂ (fun id s => c.body.stmt? id = some s) ids stmts ∧
      Lowers (fun s : Stmt => lowerStmt c s.kind) p stmts codes q by
    obtain ⟨stmts, hfound, hlowers⟩ := hstmts
    exact ⟨stmts, codes, hfound, hlowers, rfl⟩
  have hcodes := mapM_run_iff.1 hrun
  clear h hrun hcode
  -- The induction goes through the numbers; each of them stands for some statement, or fails.
  induction hcodes with
  | nil => exact ⟨[], .nil, .nil⟩
  | @cons _ _ _ id _ _ _ hrun _ ih =>
    obtain ⟨stmts, hfound, hlowers⟩ := ih
    cases hs : c.body.stmt? id with
    | none =>
      simp only [hs] at hrun
      cases (lift_run_iff.1 hrun).1
    | some s =>
      simp only [hs] at hrun
      exact ⟨s :: stmts, .cons hs hfound, .cons (inStmt_run_iff.1 hrun) hlowers⟩

/-- The code of a block is its label, its statements, and the jump behind them. -/
theorem exists_of_lowerBlock {id : BlockId} (h : lowerBlock c title lines id p = .ok (code, p')) :
    ∃ block stmts last, c.body.flow.block? id = some block ∧
      lowerStmts c title block.stmts p = .ok (stmts, p') ∧ blockEnd c block id = .ok last ∧
      blockStart c lines block id ++ stmts ++ last = code := by
  unfold lowerBlock at h
  cases hblock : c.body.flow.block? id with
  | none =>
    simp only [hblock] at h
    cases (lift_run_iff.1 h).1
  | some block =>
    simp only [hblock] at h
    obtain ⟨stmts, q, hstmts, h⟩ := bind_run_iff.1 h
    obtain ⟨last, q', hlift, h⟩ := bind_run_iff.1 h
    obtain ⟨hlast, rfl⟩ := lift_run_iff.1 hlift
    obtain ⟨rfl, rfl⟩ := pure_run_iff.1 h
    exact ⟨block, stmts, last, rfl, hstmts, hlast, rfl⟩

/-- In front of a block stand its label, if it has one, and a line number at most. -/
theorem blockStart_cases (c : MethodContext) (lines : Bool) (block : Block) (id : BlockId) :
    match c.labels.get? id with
    | some l => ∃ rest, blockStart c lines block id = .label l :: rest ∧
        ∀ i ∈ rest, ∃ n, i = .lineNumber n l
    | none => blockStart c lines block id = [] := by
  unfold blockStart
  cases c.labels.get? id with
  | none => rfl
  | some l =>
    refine ⟨_, rfl, fun i hi => ?_⟩
    split at hi
    · obtain ⟨n, -, rfl⟩ := Option.map_eq_some_iff.1 (Option.mem_toList.1 hi)
      exact ⟨n, rfl⟩
    · cases hi

theorem isMark_of_blockStart {block : Block} {id : BlockId} :
    ∀ i ∈ blockStart c lines block id, i.isMark := by
  have hstart := blockStart_cases c lines block id
  intro i hi
  cases hl : c.labels.get? id with
  | none =>
    simp only [hl] at hstart
    rw [hstart] at hi
    cases hi
  | some l =>
    simp only [hl] at hstart
    obtain ⟨rest, heq, hrest⟩ := hstart
    rw [heq] at hi
    rcases List.mem_cons.1 hi with rfl | hi
    · rfl
    · obtain ⟨n, rfl⟩ := hrest i hi
      rfl

/-- What stands behind the statements of a block: a jump to the block that control goes on to behind
the last one of them, unless there is none or it comes next. -/
inductive GoesOn (c : MethodContext) (block : Block) (id : BlockId) : List Insn → Prop
  /-- Control goes on to no other block than the next one. -/
  | past : (∀ next, block.tail?.bind c.layout.continuation? = some next →
      c.layout.next? id = some next) → GoesOn c block id []
  /-- Control goes on to another block, which has a label. -/
  | jump {next : BlockId} {l : Label} : block.tail?.bind c.layout.continuation? = some next →
      c.layout.next? id ≠ some next → c.labels.get? next = some l →
      GoesOn c block id [.jump .goto l]

/-- Behind a block stands what control goes on with. -/
theorem goesOn_of_blockEnd {block : Block} {id : BlockId} (h : blockEnd c block id = .ok code) :
    GoesOn c block id code := by
  unfold blockEnd at h
  split at h
  · rename_i hnone
    cases h
    exact .past (by simp [hnone])
  · rename_i next hnext
    split at h
    · rename_i heq
      cases h
      exact .past fun x hx => by rw [heq, ← hnext, hx]
    · rename_i hne
      obtain ⟨l, hl, rfl⟩ := map_eq_ok_iff.1 h
      exact .jump hnext hne (get_eq_ok_iff.1 hl)

/-- Behind a block stands a jump to the label of another one at most. -/
theorem blockEnd_cases {block : Block} {id : BlockId} (h : blockEnd c block id = .ok code) :
    code = [] ∨ ∃ next l, c.labels.get? next = some l ∧ code = [.jump .goto l] := by
  cases goesOn_of_blockEnd h with
  | past _ => exact .inl rfl
  | jump _ _ hl => exact .inr ⟨_, _, hl, rfl⟩

/-- Code binds the label of a block, if the block has one, with its first instruction, and no other
label. -/
def Heads (labels : Labels) (x : BlockId) (code : List Insn) : Prop :=
  ∃ rest, (∀ i ∈ rest, i.bound? = none) ∧
    match labels.get? x with
    | some l => code = .label l :: rest
    | none => code = rest

/-- Each instruction of the code of statements is in the code of one statement of the body. -/
theorem exists_of_mem_lowerStmts {ids : List StmtId}
    (h : lowerStmts c title ids p = .ok (code, p')) {i : Insn} (hi : i ∈ code) :
    ∃ s ∈ c.body.stmts, ∃ q code' q', lowerStmt c s.kind q = .ok (code', q') ∧ i ∈ code' := by
  obtain ⟨stmts, codes, hfound, hlowers, rfl⟩ := exists_lowers_of_lowerStmts h
  obtain ⟨code', hmem, hi⟩ := List.mem_flatten.1 hi
  obtain ⟨s, hs, q, q', hrun⟩ := exists_left_of_mem hlowers.forall₂ hmem
  -- Whichever statement the number stands for, it is one of the body.
  obtain ⟨id, -, hid⟩ := exists_left_of_mem hfound hs
  exact ⟨s, (Body.mem_of_stmt? hid).1, q, code', q', hrun, hi⟩

/-- The code of statements of a body is straight up to instructions that control may leave it by. -/
theorem isPlain_or_isExit_of_lowerStmts (hbody : Layout.ofBody c.body lines = .ok c.layout)
    {ids : List StmtId} (h : lowerStmts c title ids p = .ok (code, p')) :
    ∀ i ∈ code, i.isPlain ∨ i.isExit := by
  intro i hi
  obtain ⟨s, hs, q, code', q', hrun, hi⟩ := exists_of_mem_lowerStmts h hi
  -- Which locals the code touches does not matter here.
  have hcases := isPlain_or_isExit_of_lowerStmt (P := fun _ => True) (by simp) (by simp) (by simp)
    (fun _ _ _ _ hk => Layout.switch_length hbody hs hk) hrun
  exact hcases.1 i hi

/-- The code of a block binds the label of the block. -/
theorem heads_of_lowerBlock (hbody : Layout.ofBody c.body lines = .ok c.layout) {id : BlockId}
    (h : lowerBlock c title lines id p = .ok (code, p')) : Heads c.labels id code := by
  obtain ⟨block, stmts, last, -, hrun, hlast, rfl⟩ := exists_of_lowerBlock h
  -- Neither the statements nor the jump behind them bind a label.
  have hstmts : ∀ i ∈ stmts, i.bound? = none := by
    intro i hi
    rcases isPlain_or_isExit_of_lowerStmts hbody hrun i hi with hi | hi
    · exact Insn.bound?_of_isPlain hi
    · exact Insn.bound?_of_isExit hi
  have hlast : ∀ i ∈ last, i.bound? = none := by
    rcases blockEnd_cases hlast with rfl | ⟨next, l, -, rfl⟩
    · exact List.forall_mem_nil _
    · exact List.forall_mem_singleton.2 rfl
  have hstart := blockStart_cases c lines block id
  unfold Heads
  cases hl : c.labels.get? id with
  | none =>
    simp only [hl] at hstart
    rw [hstart, List.nil_append]
    exact ⟨_, List.forall_mem_append.2 ⟨hstmts, hlast⟩, rfl⟩
  | some l =>
    simp only [hl] at hstart
    obtain ⟨rest, heq, hrest⟩ := hstart
    refine ⟨rest ++ stmts ++ last, ?_, by simp [heq]⟩
    simp only [List.forall_mem_append]
    refine ⟨⟨fun i hi => ?_, hstmts⟩, hlast⟩
    obtain ⟨n, rfl⟩ := hrest i hi
    rfl

/-- The place where the code of a block starts. -/
def startOf (codes : List (List Insn)) (k : Nat) : Nat :=
  (codes.take k).flatten.length

section StartOf

variable {codes : List (List Insn)} {i j k : Nat}

/-- The code of a block starts where that of the block in front of it ends. -/
theorem startOf_succ (hk : codes[k]? = some code) :
    startOf codes (k + 1) = startOf codes k + code.length := by
  rw [startOf, startOf, List.take_add_one, hk, List.flatten_append, List.length_append]
  simp

theorem startOf_mono (h : i ≤ j) : startOf codes i ≤ startOf codes j := by
  obtain ⟨rest, hrest⟩ : codes.take i <+: codes.take j := List.take_prefix_take_left h
  rw [startOf, startOf, ← hrest, List.flatten_append, List.length_append]
  exact Nat.le_add_right _ _

end StartOf

/-- A label that is bound nowhere in front of a place and by the instruction there is bound
there. -/
theorem place?_append {front rest : List Insn} {l : Label}
    (h : ∀ i ∈ front, i.bound? ≠ some l) :
    place? (front ++ .label l :: rest) l = some front.length := by
  have hnone : front.findIdx? (fun i => i.bound? = some l) = none := by
    rw [List.findIdx?_eq_none_iff]
    exact fun i hi => by simpa using h i hi
  rw [place?, List.findIdx?_append, hnone]
  simp [List.findIdx?_cons, Insn.bound?]

/-- The blocks of a layout have code that binds their labels. -/
structure LaidOut (layout : Layout) (codes : List (List Insn)) : Prop where
  /-- No block is put down twice. -/
  nodup : layout.order.Nodup
  /-- There is code for each block, and it binds the label of the block. -/
  heads : List.Forall₂ (Heads layout.labels) layout.order codes

namespace LaidOut

variable {layout : Layout} {codes : List (List Insn)} {k : Nat} {x : BlockId} {l : Label}

/-- There is code for each block. -/
theorem length_codes (h : LaidOut layout codes) : codes.length = layout.order.length :=
  h.heads.length_eq.symm

/-- The code at the place of a block binds the label of the block. -/
theorem heads_of_getElem? (h : LaidOut layout codes) (hx : layout.order[k]? = some x)
    (hk : codes[k]? = some code) : Heads layout.labels x code := by
  obtain ⟨hlt, rfl⟩ := List.getElem?_eq_some_iff.1 hx
  obtain ⟨hlt', rfl⟩ := List.getElem?_eq_some_iff.1 hk
  exact h.heads.get hlt hlt'

/-- A label that is bound in the code of a block is that of the block. -/
theorem get?_of_bound? (h : LaidOut layout codes) (hx : layout.order[k]? = some x)
    (hk : codes[k]? = some code) {i : Insn} (hi : i ∈ code) (hbound : i.bound? = some l) :
    layout.labels.get? x = some l := by
  obtain ⟨rest, hnone, heq⟩ := h.heads_of_getElem? hx hk
  cases hget : layout.labels.get? x with
  | none =>
    simp only [hget] at heq
    exact absurd (hbound.symm.trans (hnone i (heq ▸ hi))) (Option.some_ne_none l)
  | some l' =>
    simp only [hget] at heq
    rcases List.mem_cons.1 (heq ▸ hi) with rfl | hi
    · exact hbound
    · exact absurd (hbound.symm.trans (hnone i hi)) (Option.some_ne_none l)

/-- The label of a block is bound where the code of the block starts, by the first instruction
there. -/
theorem place?_label (h : LaidOut layout codes) (hx : layout.order[k]? = some x)
    (hl : layout.labels.get? x = some l) (behind : List Insn) :
    ∃ rest, codes[k]? = some (.label l :: rest) ∧
      place? (codes.flatten ++ behind) l = some (startOf codes k) := by
  have hlt : k < codes.length := h.length_codes ▸ (List.getElem?_eq_some_iff.1 hx).1
  obtain ⟨rest, -, hrest⟩ := h.heads_of_getElem? hx (List.getElem?_eq_getElem hlt)
  simp only [hl] at hrest
  refine ⟨rest, by rw [List.getElem?_eq_getElem hlt, hrest], ?_⟩
  have hsplit : codes.flatten ++ behind =
      (codes.take k).flatten ++ .label l :: (rest ++ (codes.drop (k + 1)).flatten ++ behind) := by
    conv_lhs => rw [← List.take_append_drop k codes, List.drop_eq_getElem_cons hlt, hrest]
    simp
  rw [hsplit, place?_append, startOf]
  -- No block in front of this one has its label.
  intro i hi hbound
  obtain ⟨code, hcode, hi⟩ := List.mem_flatten.1 hi
  obtain ⟨n, hn, rfl⟩ := List.mem_take_iff_getElem.1 hcode
  have hnlt : n < codes.length := by omega
  have hnlt' : n < layout.order.length := h.length_codes ▸ hnlt
  have hnx : layout.order[n]? = some layout.order[n] := List.getElem?_eq_getElem hnlt'
  have hget := h.get?_of_bound? hnx (List.getElem?_eq_getElem hnlt) hi hbound
  rw [Layout.get?_labels_inj h.nodup hget hl, ← hx] at hnx
  have heq := (List.getElem?_inj hnlt' h.nodup).1 hnx
  omega

/-- The label of the end of the method is bound behind the blocks. -/
theorem place?_stop (h : LaidOut layout codes) (hl : layout.labels.stop = some l) :
    place? (codes.flatten ++ (layout.labels.stop.map Insn.label).toList) l =
      some codes.flatten.length := by
  rw [hl]
  refine place?_append fun i hi hbound => ?_
  -- No block has the label of the end.
  obtain ⟨code, hcode, hi⟩ := List.mem_flatten.1 hi
  obtain ⟨k, hk⟩ := List.getElem?_of_mem hcode
  have hlt : k < layout.order.length := h.length_codes ▸ (List.getElem?_eq_some_iff.1 hk).1
  exact Layout.get?_labels_ne_stop h.nodup
    (h.get?_of_bound? (List.getElem?_eq_getElem hlt) hk hi hbound) hl

/-- The labels of the blocks are bound in their order, and the one for the end behind them. -/
theorem filterMap_bound? (h : LaidOut layout codes) :
    (codes.flatten ++ (layout.labels.stop.map Insn.label).toList).filterMap Insn.bound? =
      layout.labels.all := by
  have hcodes : codes.map (List.filterMap Insn.bound?) =
      layout.order.map fun x => (layout.labels.get? x).toList := by
    refine (List.forall₂_eq_eq_eq ▸ ?_ : _ = _).symm
    refine List.forall₂_map_left_iff.2 (List.forall₂_map_right_iff.2 (h.heads.imp ?_))
    rintro x code ⟨rest, hrest, heq⟩
    have hnone : rest.filterMap Insn.bound? = [] := List.filterMap_eq_nil_iff.2 hrest
    cases hget : layout.labels.get? x with
    | none => simp only [hget] at heq; rw [heq, hnone]; rfl
    | some l => simp only [hget] at heq; rw [heq, List.filterMap_cons]; simp [Insn.bound?, hnone]
  have hstop : (layout.labels.stop.map Insn.label).toList.filterMap Insn.bound? =
      layout.labels.stop.toList := by
    cases layout.labels.stop <;> rfl
  rw [List.filterMap_append, List.filterMap_flatten, hcodes, hstop, ← List.flatMap_def,
    ← List.filterMap_eq_flatMap_toList, Layout.filterMap_get? h.nodup, Labels.all]

/-- No label is bound twice. -/
theorem nodup_bound? (h : LaidOut layout codes) :
    ((codes.flatten ++ (layout.labels.stop.map Insn.label).toList).filterMap
      Insn.bound?).Nodup := by
  rw [h.filterMap_bound?]
  exact Layout.nodup_all

end LaidOut

variable {m : Method} {b : Body} {layout : Layout}

/-- The code of the blocks binds their labels. -/
theorem laidOut_of_lowerBlocks (hlayout : Layout.ofBody b lines = .ok layout)
    {codes : List (List Insn)} {slots : Slots}
    (h : lowerBlocks ⟨m, b, layout, layout.labels⟩ title lines = .ok (codes, slots)) :
    LaidOut layout codes := by
  obtain ⟨start, -, h⟩ := bind_eq_ok_iff.1 h
  obtain ⟨⟨codes', q⟩, hcodes, h⟩ := bind_eq_ok_iff.1 h
  cases h
  refine ⟨Layout.nodup_order hlayout, (mapM_run_iff.1 hcodes).forall₂.imp ?_⟩
  rintro x code ⟨q, q', hrun⟩
  exact heads_of_lowerBlock (c := ⟨m, b, layout, layout.labels⟩) hlayout hrun

/-- What a lowered method is made of. -/
theorem lowerMethod_eq_ok {owner : ClassName} {options : Options} {argSlots : Nat}
    {r : LoweredMethod} (hm : m.body = some b) (h : lowerMethod owner m options argSlots = .ok r) :
    ∃ layout codes, Layout.ofBody b options.lineNumbers = .ok layout ∧
      layout.guards = .ok r.code.guards ∧
      lowerBlocks ⟨m, b, layout, layout.labels⟩ (methodTitle owner m) options.lineNumbers =
        .ok (codes, r.slots) ∧
      r.code.insns = codes.flatten ++ (layout.labels.stop.map Insn.label).toList ∧
      maxSizes r.code.insns r.code.guards argSlots = .ok r.code.sizes := by
  rw [lowerMethod, mapError_eq_ok_iff, hm] at h
  obtain ⟨layout, hlayout, h⟩ := bind_eq_ok_iff.1 h
  obtain ⟨guards, hguards, h⟩ := bind_eq_ok_iff.1 h
  obtain ⟨⟨codes, slots⟩, hcodes, h⟩ := bind_eq_ok_iff.1 h
  obtain ⟨sizes, hsizes, h⟩ := bind_eq_ok_iff.1 h
  cases h
  exact ⟨layout, codes, hlayout, hguards, hcodes, rfl, mapError_eq_ok_iff.1 hsizes⟩

end BytecodeLowering.Lowering
