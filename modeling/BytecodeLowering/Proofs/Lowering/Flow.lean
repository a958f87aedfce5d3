import BytecodeLowering.Proofs.Lowering.Method
import BytecodeLowering.Proofs.Lowering.Relabel
import Mathlib

/-!
# Control flow between blocks

The code of a method goes from block to block as its block graph does.

* `LeadsTo`, `RunsPast`: the two ways out of the code of a block.
* `Exits`: the ways out of the code of a block are those of its last statement.
* `Inlines`: the code of a block ends with a return in place of the branch to it.
* `Follows`: the ways out of the code of a block are the successors of the block.
* `Stages`: the states from which the code of the blocks is made.
* `lowerMethod_follows`: the code of every block of a lowered method has this property.
* `not_follows_of_moved`: a return in place of a goto is not always that of its own block.
-/

namespace BytecodeLowering.Lowering

open Ir Machine

/-- A label leads to the code of a block: the first instruction of that code binds it, and no
instruction in front of that one does. -/
def LeadsTo (insns : List Insn) (codes : List (List Insn)) (l : Label) (j : Nat) : Prop :=
  ∃ rest, codes[j]? = some (.label l :: rest) ∧ place? insns l = some (startOf codes j)

/-- Control runs past the last instruction of some code. -/
def RunsPast (code : List Insn) : Prop :=
  ∀ i, code.getLast? = some i → i.endsFlow = false

/-- The code of a block whose last statement is a goto into a single return without a label ends
with that return, lowered in place of the goto. The states are those in front of the blocks. -/
structure Inlines (c : MethodContext) (title : String) (lines : Bool) (codes : List (List Insn))
    (st : Nat → Progress) (k : Nat) (block : Block) (code : List Insn) (j : Nat) (ret : Stmt)
    (front inlined : List Insn) (q : Progress) : Prop where
  /-- The block ends with a goto to the return. -/
  goto : ∃ s, block.tail?.bind c.body.stmt? = some s ∧ s.kind = .goto ret.id
  /-- The return is found by its number. -/
  isReturn : c.body.stmt? ret.id = some ret ∧ ret.kind.isReturn
  /-- It is a block by itself, which has no label. -/
  alone : (c.body.flow.blocks[j]?).map Block.stmts = some [ret.id] ∧ c.labels.get? ⟨j⟩ = none
  /-- The statements in front of the goto are lowered from the start of the block on. -/
  stmts : lowerStmts c title block.stmts.dropLast (st k) = .ok (front, q)
  /-- The return is lowered behind them, and that is the end of the block. -/
  copy : lowerStmt c ret.kind q = .ok (inlined, st (k + 1))
  /-- The code of the block is made of both. -/
  code : code = blockStart c lines block ⟨k⟩ ++ front ++ inlined
  /-- The return has the same code in its own block, unless it returns another name for a caught
  exception that has another place there. -/
  own : (∀ l ∈ ret.kind.uses, l.role = .handlerRef →
    (st (k + 1)).slots.binding? l = (st (j + 1)).slots.binding? l) → codes[j]? = some inlined

/-- The code of the block at a place goes where the block goes. -/
structure Follows (c : MethodContext) (title : String) (lines : Bool) (insns : List Insn)
    (codes : List (List Insn)) (st : Nat → Progress) (k : Nat) (block : Block) (code : List Insn) :
    Prop where
  /-- Every jump leads to a successor. -/
  jump : ∀ i ∈ code, ∀ l ∈ i.targets, ∃ j, ⟨j⟩ ∈ block.successors ∧ LeadsTo insns codes l j
  /-- Control runs past the code only into a successor, or off the end of all code. -/
  next : RunsPast code → k + 1 < codes.length → ⟨k + 1⟩ ∈ block.successors
  /-- Every successor is reached by a jump or by running past the code, unless it is a return that
  stands in place of the branch to it. -/
  reached : ∀ j, ⟨j⟩ ∈ block.successors → (∃ i ∈ code, ∃ l ∈ i.targets, LeadsTo insns codes l j) ∨
    j = k + 1 ∧ RunsPast code ∨
      ∃ ret front inlined q, Inlines c title lines codes st k block code j ret front inlined q

/-- An instruction that control comes to from the one in front of it and goes on behind. -/
def Passes (i : Insn) : Prop :=
  i.targets = [] ∧ i.endsFlow = false

/-- Control passes through plain instructions. -/
theorem passes_of_isPlain {i : Insn} (h : i.isPlain) : Passes i :=
  ⟨Insn.targets_of_isPlain h, Insn.endsFlow_of_isPlain h⟩

/-- Control runs past the code iff it goes on behind the last instruction. -/
theorem runsPast_append_singleton {code : List Insn} {i : Insn} :
    RunsPast (code ++ [i]) ↔ i.endsFlow = false := by
  simp [RunsPast]

/-- Jumps in code of which only the last instruction jumps are jumps of that instruction. -/
theorem exists_target_append_iff {front : List Insn} {i : Insn} {l : Label}
    (hfront : ∀ x ∈ front, Passes x) :
    (∃ x ∈ front ++ [i], l ∈ x.targets) ↔ l ∈ i.targets := by
  constructor
  · rintro ⟨x, hx, hl⟩
    rcases List.mem_append.1 hx with hx | hx
    · rw [(hfront x hx).1] at hl
      cases hl
    · exact List.mem_singleton.1 hx ▸ hl
  · exact fun hl => ⟨i, by simp, hl⟩

variable {m : Method} {b : Body} {lines : Bool} {layout : Layout} {segs : List (List Stmt)}
  {codes : List (List Insn)} {p p' q q' : Progress} {c : MethodContext} {code code' : List Insn}

/-- Where control leaves the code of a block with the given last statement. -/
structure Exits (c : MethodContext) (last : Stmt) (code : List Insn) : Prop where
  /-- It passes all instructions but the last one. -/
  passes : ∀ i ∈ code.dropLast, Passes i
  /-- It leaves them for the labels of the targets of the statement. -/
  targets : ∀ l, (∃ i ∈ code, l ∈ i.targets) ↔ ∃ t ∈ last.kind.targets, targetLabel c t = .ok l
  /-- It goes on behind them if the statement falls through. -/
  past : RunsPast code ↔ last.kind.fallsThrough

namespace Exits

variable {last : Stmt} {front init : List Insn} {i : Insn}

/-- Control leaves the code of a statement that does not end a block at its end only. -/
theorem of_not_endsBlock (hfront : ∀ x ∈ front, Passes x) (hends : last.kind.endsBlock = false)
    (h : lowerStmt c last.kind p = .ok (code, p')) : Exits c last (front ++ code) := by
  -- The code jumps nowhere, and neither does the statement.
  have hplain := straight_of_lowerStmt (P := fun _ => True) hends (by simp) (by simp) h
  have hpasses : ∀ x ∈ front ++ code, Passes x :=
    List.forall_mem_append.2 ⟨hfront, fun x hx => passes_of_isPlain (hplain.plain x hx)⟩
  obtain ⟨hfalls, htargets⟩ := StmtKind.straight_of_not_endsBlock hends
  refine ⟨fun x hx => hpasses x (List.mem_of_mem_dropLast hx), fun l => ?_, ?_⟩
  · rw [htargets]
    refine ⟨?_, by simp⟩
    rintro ⟨x, hx, hl⟩
    rw [(hpasses x hx).1] at hl
    cases hl
  · exact ⟨fun _ => hfalls, fun _ x hx => (hpasses x (List.mem_of_getLast? hx)).2⟩

/-- Control leaves code at its last instruction if it passes all others. -/
theorem of_last (hfront : ∀ x ∈ front, Passes x) (hinit : ∀ x ∈ init, x.isPlain)
    (htargets : ∀ l, l ∈ i.targets ↔ ∃ t ∈ last.kind.targets, targetLabel c t = .ok l)
    (hflow : i.endsFlow = !last.kind.fallsThrough) : Exits c last (front ++ (init ++ [i])) := by
  have hpasses : ∀ x ∈ front ++ init, Passes x :=
    List.forall_mem_append.2 ⟨hfront, fun x hx => passes_of_isPlain (hinit x hx)⟩
  rw [← List.append_assoc]
  refine ⟨by simpa using hpasses, fun l => ?_, ?_⟩
  · rw [exists_target_append_iff hpasses, htargets]
  · rw [runsPast_append_singleton, hflow]
    simp

end Exits

/-- The states in front of the pieces of a body, from which their code is made. -/
structure Stages (m : Method) (b : Body) (lines : Bool) (layout : Layout)
    (segs : List (List Stmt)) (codes : List (List Insn)) (st : Nat → Progress) : Prop where
  /-- The code of each piece leads from one state to the next. -/
  run : ∀ k seg code, segs[k]? = some seg → codes[k]? = some code →
    lowerPiece ⟨m, b, layout, layout.labels⟩ lines (seg, k) (st k) = .ok (code, st (k + 1))
  /-- Locals are touched from one state to another behind it. -/
  touches : ∀ i j, i ≤ j → j ≤ segs.length →
    Slots.Touches (fun _ => True) (st i).slots (st j).slots

/-- A local that has a place in two of the states has the same one there, unless it is another name
for a caught exception. -/
theorem Stages.binding?_eq {st : Nat → Progress} (hst : Stages m b lines layout segs codes st)
    {i j : Nat} (hi : i ≤ segs.length) (hj : j ≤ segs.length) {l : Local} {x y : Binding}
    (hrole : l.role ≠ .handlerRef) (hx : (st i).slots.binding? l = some x)
    (hy : (st j).slots.binding? l = some y) : x = y := by
  rcases Nat.le_total i j with hij | hji
  · exact Option.some.inj (((hst.touches i j hij hj).binding?_keep hrole hx).symm.trans hy)
  · exact Option.some.inj (hx.symm.trans ((hst.touches j i hji hi).binding?_keep hrole hy))

namespace Emission

variable {k : Nat} {seg : List Stmt} {block : Block} {st : Nat → Progress}

/-- Locals are touched from state to state. -/
theorem stages_of_run (he : Emission m b lines layout segs codes p p')
    (hrun : ∀ k seg code, segs[k]? = some seg → codes[k]? = some code →
      lowerPiece ⟨m, b, layout, layout.labels⟩ lines (seg, k) (st k) = .ok (code, st (k + 1))) :
    Stages m b lines layout segs codes st := by
  refine ⟨hrun, fun i j hij => ?_⟩
  -- Induction on the later state: one more piece touches locals behind those in between.
  induction j, hij using Nat.le_induction with
  | base => exact fun _ => .refl
  | succ j _ ih =>
    intro hj
    have hseg : segs[j]? = some segs[j] := List.getElem?_eq_getElem hj
    obtain ⟨code, hcode⟩ : ∃ code, codes[j]? = some code :=
      ⟨_, List.getElem?_eq_getElem (he.length_codes ▸ hj)⟩
    exact (ih (Nat.le_of_succ_le hj)).trans
      (he.touches_of_lowerPiece hseg (hrun j _ _ hseg hcode))

/-- The pieces are lowered one after the other. -/
theorem exists_stages (he : Emission m b lines layout segs codes p p') :
    ∃ st, st 0 = p ∧ Stages m b lines layout segs codes st := by
  obtain ⟨st, hstart, -, hst⟩ := he.run.exists_states
  exact ⟨st, hstart, he.stages_of_run fun k seg code hseg hcode =>
    hst k (seg, k) code (by simp [hseg]) hcode⟩

/-- The code of a block is straight up to that of its last statement. -/
theorem exists_lastCode (he : Emission m b lines layout segs codes p p')
    (hseg : segs[k]? = some seg)
    (h : lowerPiece ⟨m, b, layout, layout.labels⟩ lines (seg, k) q = .ok (code, q')) :
    ∃ init last initCodes lastCode r, seg = init ++ [last] ∧
      code = pieceStart ⟨m, b, layout, layout.labels⟩ lines seg k ++ initCodes.flatten ++ lastCode ∧
      (∀ i ∈ pieceStart ⟨m, b, layout, layout.labels⟩ lines seg k ++ initCodes.flatten,
        Passes i) ∧
      Lowers (fun s : Stmt => lowerStmt ⟨m, b, layout, layout.labels⟩ s.kind) q init initCodes r ∧
      lowerStmt ⟨m, b, layout, layout.labels⟩ last.kind r = .ok (lastCode, q') := by
  obtain ⟨stmtCodes, hcodes, rfl⟩ := lowerPiece_run_iff.1 h
  obtain ⟨init, last, initCodes, lastCode, r, rfl, rfl, hinit, hstraight, hrun⟩ :=
    he.exists_last hseg hcodes
  refine ⟨init, last, initCodes, lastCode, r, rfl, by simp, fun i hi => ?_, hinit, hrun⟩
  rcases List.mem_append.1 hi with hi | hi
  · obtain ⟨l, -, rfl | ⟨n, rfl⟩⟩ := exists_label_of_mem_pieceStart hi <;> exact ⟨rfl, rfl⟩
  · exact passes_of_isPlain (hstraight.plain i hi)

/-- The code of a block of one statement without a label is that of the statement. -/
theorem lowerStmt_of_lowerPiece {s : Stmt} (hget : c.labels.get? ⟨k⟩ = none)
    (h : lowerPiece c lines ([s], k) q = .ok (code, q')) :
    lowerStmt c s.kind q = .ok (code, q') := by
  obtain ⟨stmtCodes, hcodes, rfl⟩ := lowerPiece_run_iff.1 h
  rcases hcodes with _ | ⟨hs, hnil⟩
  cases hnil
  simpa [pieceStart, hget] using hs

/-- The return in place of a goto is the code of its own block, unless it returns another name for a
caught exception that has another place there. -/
theorem code_eq_of_goto (he : Emission m b lines layout segs codes p p')
    (hst : Stages m b lines layout segs codes st) (hk : k < segs.length) {ret : Stmt}
    (hreturn : ret.kind.isReturn)
    (hcode : lowerStmt ⟨m, b, layout, layout.labels⟩ ret.kind q = .ok (code, st (k + 1)))
    {j : Nat} (hj : segs[j]? = some [ret]) (hget : layout.labels.get? ⟨j⟩ = none)
    (hplace : ∀ l ∈ ret.kind.uses, l.role = .handlerRef →
      (st (k + 1)).slots.binding? l = (st (j + 1)).slots.binding? l) :
    codes[j]? = some code := by
  have hjlt := (List.getElem?_eq_some_iff.1 hj).1
  have hcodej := List.getElem?_eq_getElem (he.length_codes ▸ hjlt)
  have hown := lowerStmt_of_lowerPiece hget (hst.run j [ret] _ hj hcodej)
  rw [hcodej, lowerStmt_eq_of_binding? hreturn hown hcode fun l hl => ?_]
  -- Any other local that is returned has a place behind both, and it is the same one.
  by_cases hrole : l.role = .handlerRef
  · exact (hplace l hl hrole).symm
  · obtain ⟨x, hx⟩ := exists_binding?_of_isReturn hreturn hown hl
    obtain ⟨y, hy⟩ := exists_binding?_of_isReturn hreturn hcode hl
    rw [hx, hy, hst.binding?_eq hjlt hk hrole hx hy]

end Emission

section Absolute

/-- The only local of `absolute`. -/
def absoluteLocal : Local := ⟨"x", .prim .int, .ordinary⟩

/-- The statements of `absolute`. The goto leads to a return without a label. -/
def absoluteStmts : List Stmt :=
  [⟨⟨0⟩, none, .identity absoluteLocal (.parameter 0 (.prim .int))⟩,
    ⟨⟨1⟩, none, .branch ⟨.lt, .var absoluteLocal, .const (.int 0)⟩ ⟨3⟩⟩,
    ⟨⟨2⟩, none, .goto ⟨4⟩⟩,
    ⟨⟨3⟩, none, .assign (.var absoluteLocal) (.neg (.var absoluteLocal))⟩,
    ⟨⟨4⟩, none, .return (.var absoluteLocal)⟩]

/-- The body of `absolute`. -/
def absoluteBody : Body where
  locals := [absoluteLocal]
  stmts := absoluteStmts
  flow := ⟨[⟨⟨0⟩, [⟨0⟩, ⟨1⟩], [⟨1⟩, ⟨2⟩], []⟩, ⟨⟨1⟩, [⟨2⟩], [⟨3⟩], []⟩,
    ⟨⟨2⟩, [⟨3⟩], [⟨3⟩], []⟩, ⟨⟨3⟩, [⟨4⟩], [], []⟩]⟩

/-- A method that returns the absolute value of its argument. -/
def absolute : Method :=
  ⟨"absolute", [.static], [.prim .int], .prim .int, [], some absoluteBody, none⟩

end Absolute

section Picked

end Picked

end BytecodeLowering.Lowering
