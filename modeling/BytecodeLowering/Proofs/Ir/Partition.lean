import BytecodeLowering.Ir.Body
import BytecodeLowering.Proofs.Repeat

/-!
# Bodies whose blocks share out the statements

What the lookups of a block graph find if the graph is a partition of the statements, whatever
order it lists them in.

* `Body.Partitioned`: no number is used twice, and no statement is listed twice.
* `Body.Partitioned.block?_eq`, `owner?_eq`, `stmt?_eq`: the lookups find the one block with a
  number, the one block that lists a statement, and the one statement with a number.
-/

namespace BytecodeLowering.Ir

/-- The blocks of a body share out its statements: each number is that of one statement or block,
and each statement is listed once. -/
structure Body.Partitioned (b : Body) : Prop where
  /-- The statements have numbers of their own. -/
  stmts : (b.stmts.map Stmt.id).Nodup
  /-- The blocks have numbers of their own. -/
  ids : (b.flow.blocks.map Block.id).Nodup
  /-- No statement is listed twice, by one block or by two. -/
  once : (b.flow.blocks.map Block.stmts).flatten.Nodup

/-- What is found by a number is a statement of the body with the number. -/
theorem Body.mem_of_stmt? {b : Body} {t : StmtId} {s : Stmt} (h : b.stmt? t = some s) :
    s ∈ b.stmts ∧ s.id = t :=
  ⟨List.mem_of_find?_eq_some h, by simpa using List.find?_some h⟩

/-- The block that owns a statement lists it. -/
theorem Flow.exists_of_owner? {g : Flow} {s : StmtId} {x : BlockId} (h : g.owner? s = some x) :
    ∃ block ∈ g.blocks, block.id = x ∧ s ∈ block.stmts := by
  obtain ⟨block, hblock, rfl⟩ := Option.map_eq_some_iff.1 h
  have hs : s ∈ block.stmts := by simpa using List.find?_some hblock
  exact ⟨block, List.mem_reverse.1 (List.mem_of_find?_eq_some hblock), rfl, hs⟩

namespace Body.Partitioned

variable {b : Body} {block block' : Block} {s s' : Stmt} {id : StmtId}

/-- Statements with one number are the same. -/
theorem stmt_inj (h : b.Partitioned) (hs : s ∈ b.stmts) (hs' : s' ∈ b.stmts)
    (hid : s.id = s'.id) : s = s' :=
  List.inj_on_of_nodup_map h.stmts hs hs' hid

/-- Blocks with one number are the same. -/
theorem block_inj (h : b.Partitioned) (hblock : block ∈ b.flow.blocks)
    (hblock' : block' ∈ b.flow.blocks) (hid : block.id = block'.id) : block = block' :=
  List.inj_on_of_nodup_map h.ids hblock hblock' hid

/-- Blocks that list one statement are the same. -/
theorem eq_of_mem (h : b.Partitioned) (hblock : block ∈ b.flow.blocks)
    (hblock' : block' ∈ b.flow.blocks) (hs : id ∈ block.stmts) (hs' : id ∈ block'.stmts) :
    block = block' := by
  obtain ⟨j, hj⟩ := List.getElem?_of_mem hblock
  obtain ⟨k, hk⟩ := List.getElem?_of_mem hblock'
  obtain rfl : k = j := index_unique h.once (by simp [hj]) (by simp [hk]) hs hs'
  exact Option.some.inj (hj.symm.trans hk)

/-- A search for the number of a block finds it, in whatever order the blocks are looked at. -/
theorem find?_eq (h : b.Partitioned) (hblock : block ∈ b.flow.blocks) {blocks : List Block}
    (hblocks : ∀ x, x ∈ blocks ↔ x ∈ b.flow.blocks) :
    (blocks.find? fun x => x.id = block.id) = some block :=
  find?_eq_some_of_unique ((hblocks _).2 hblock) (by simp) fun _ hx hid =>
    h.block_inj ((hblocks _).1 hx) hblock (by simpa using hid)

/-- The lookup of a block finds it. -/
theorem block?_eq (h : b.Partitioned) (hblock : block ∈ b.flow.blocks) :
    b.flow.block? block.id = some block :=
  h.find?_eq hblock fun _ => Iff.rfl

/-- A statement is owned by the block that lists it. -/
theorem owner?_eq (h : b.Partitioned) (hblock : block ∈ b.flow.blocks) (hs : id ∈ block.stmts) :
    b.flow.owner? id = some block.id := by
  have hfind : (b.flow.blocks.reverse.find? fun x => id ∈ x.stmts) = some block := by
    refine find?_eq_some_of_unique (List.mem_reverse.2 hblock) (by simpa using hs) ?_
    intro x hx hmem
    exact h.eq_of_mem (List.mem_reverse.1 hx) hblock (by simpa using hmem) hs
  rw [Flow.owner?, hfind, Option.map_some]

/-- The lookup of a statement finds it. -/
theorem stmt?_eq (h : b.Partitioned) (hs : s ∈ b.stmts) : b.stmt? s.id = some s :=
  find?_eq_some_of_unique hs (by simp) fun _ hx hid => h.stmt_inj hx hs (by simpa using hid)

end Body.Partitioned

end BytecodeLowering.Ir
