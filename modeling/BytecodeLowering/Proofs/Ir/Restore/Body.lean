import BytecodeLowering.Proofs.Ir.Protection
import BytecodeLowering.Proofs.Ir.Restore.Expr
import Mathlib.Algebra.BigOperators.Group.List.Basic
import Mathlib.Data.List.Perm.Subperm

/-!
# Reading written bodies

The bodies of methods are read back from their written form. It has the block graph in any case, be
it that one was read or that one was made of the statements and the traps.

* `StmtKind.reads_toJson`, `Stmt.reads_toJson`: statements.
* `Block.InRange`: the numbers of a block can be written.
* `Block.reads_toJson`: then it is read back.
* `inRange_of_ofStmts`: so it is for the blocks of statements that were read.
* `Body.reads_toJson`: bodies.
-/

namespace BytecodeLowering.Ir

open Json Decoder Fields

section Statements

/-- The constants of a statement. -/
def StmtKind.constants : StmtKind → List Constant
  | assign lhs rhs => lhs.constants ++ rhs.constants
  | invoke call => call.constants
  | branch cond _ => cond.constants
  | switch key _ _ _ => constantsOf [key]
  | .return op | throw op | enterMonitor op | exitMonitor op => constantsOf [op]
  | identity .. | goto _ | returnVoid | nop | breakpoint => []

/-- The constants of a body. -/
def Body.constants (b : Body) : List Constant :=
  b.stmts.flatMap fun s => s.kind.constants

/-- Of exact values all of whose constants are listed, each is exact. -/
theorem Exact.of_flatMap {α : Type} {xs : List α} {f : α → List Constant} (h : Exact (xs.flatMap f))
    {x : α} (hx : x ∈ xs) : Exact (f x) := fun k hk =>
  h k (List.mem_flatMap.2 ⟨x, hx, hk⟩)

/-- The number of a statement that can be read. -/
theorem StmtId.reads_toJson {s : StmtId} (h : s.val < 2 ^ 32) : reader.Reads s.toJson s :=
  (reads_natOfBits h).map _

theorem StmtId.lt_of_yields {s : StmtId} (h : reader.Yields s) : s.val < 2 ^ 32 := by
  obtain ⟨n, hn, rfl⟩ := h.of_map
  exact hn.of_natOfBits

theorem StmtId.reads_list {ss : List StmtId} (h : ∀ s ∈ ss, s.val < 2 ^ 32) :
    StmtId.reader.list.Reads (.ofList StmtId.toJson ss) ss :=
  Decoder.reads_list fun s hs => StmtId.reads_toJson (h s hs)

/-- A required number of a statement is read back. -/
theorem StmtId.reads_required {name : String} {s : StmtId} {ms : List (String × Json)}
    (h : (required name StmtId.reader).Yields s) (hs : ms.lookup name = some s.toJson) :
    (required name StmtId.reader).Reads ms s :=
  Fields.reads_required hs (StmtId.reads_toJson (StmtId.lt_of_yields h.of_required))

theorem StmtKind.reads_toJson {k : StmtKind} (h : reader.Yields k) (hk : Exact k.constants) :
    reader.Reads k.toJson k := by
  have hoperand {op : Operand} (hop : Operand.reader.Yields op)
      (hexact : Exact (constantsOf [op])) : Operand.reader.Reads op.toJson op :=
    Operand.reads_toJson hop (hexact.of_mem (by simp))
  rcases h.of_choice with ⟨key, hkey⟩ | ⟨key, d, hd, hyields⟩
  · -- The statements without contents are words.
    split at hkey <;> cases hkey
    · exact reads_word rfl
    · exact reads_word rfl
    · exact reads_word rfl
  split at hd <;> cases hd
  · -- Assignments.
    obtain ⟨_, h₁, rhs, hrhs, rfl⟩ := hyields.of_record.of_seq
    obtain ⟨lhs, hlhs, rfl⟩ := h₁.of_map
    obtain ⟨hexact, hexact'⟩ := Exact.of_append hk
    exact reads_choice rfl rfl <| reads_record rfl <|
      ((Fields.reads_required rfl (Place.reads_toJson hlhs.of_required hexact)).map _).seq
        (Fields.reads_required rfl (Expr.reads_toJson hrhs.of_required hexact'))
  · -- Bindings of what the method is entered with.
    obtain ⟨_, h₁, rhs, hrhs, rfl⟩ := hyields.of_record.of_seq
    obtain ⟨l, hl, rfl⟩ := h₁.of_map
    exact reads_choice rfl rfl <| reads_record rfl <|
      ((Fields.reads_required rfl (Local.reads_toJson hl.of_required)).map _).seq
        (Fields.reads_required rfl (Source.reads_toJson hrhs.of_required))
  · -- Calls.
    obtain ⟨call, hcall, rfl⟩ := hyields.of_map
    exact reads_choice rfl rfl ((Invocation.reads_toJson hcall hk).map _)
  · -- Branches and jumps.
    obtain ⟨_, h₁, target, htarget, rfl⟩ := hyields.of_record.of_seq
    obtain ⟨cond, hcond, rfl⟩ := h₁.of_map
    exact reads_choice rfl rfl <| reads_record rfl <|
      ((Fields.reads_required rfl (Condition.reads_toJson hcond.of_required hk)).map _).seq
        (StmtId.reads_required htarget rfl)
  · obtain ⟨target, htarget, rfl⟩ := hyields.of_record.of_map
    exact reads_choice rfl rfl <| reads_record rfl <| (StmtId.reads_required htarget rfl).map _
  · -- Switches.
    obtain ⟨_, h₁, default, hdefault, rfl⟩ := hyields.of_record.of_seq
    obtain ⟨_, h₂, targets, htargets, rfl⟩ := h₁.of_seq
    obtain ⟨_, h₃, values, -, rfl⟩ := h₂.of_seq
    obtain ⟨key, hkey, rfl⟩ := h₃.of_map
    have htargets' : ∀ s ∈ targets, s.val < 2 ^ 32 := fun s hs =>
      StmtId.lt_of_yields (htargets.of_required.of_list s hs)
    exact reads_choice rfl rfl <| reads_record rfl <|
      ((((Fields.reads_required rfl (hoperand hkey.of_required hk)).map _).seq
        (Fields.reads_required rfl (Decoder.reads_list fun v _ => reads_int32 v))).seq
          (Fields.reads_required rfl (StmtId.reads_list htargets'))).seq
            (StmtId.reads_required hdefault rfl)
  · -- Returns, throws, and what enters and exits monitors all have one operand.
    obtain ⟨op, hop, rfl⟩ := hyields.of_map
    exact reads_choice rfl rfl ((hoperand hop hk).map _)
  · obtain ⟨op, hop, rfl⟩ := hyields.of_map
    exact reads_choice rfl rfl ((hoperand hop hk).map _)
  · obtain ⟨op, hop, rfl⟩ := hyields.of_map
    exact reads_choice rfl rfl ((hoperand hop hk).map _)
  · obtain ⟨op, hop, rfl⟩ := hyields.of_map
    exact reads_choice rfl rfl ((hoperand hop hk).map _)

theorem Stmt.reads_toJson {s : Stmt} (h : reader.Yields s) (hs : Exact s.kind.constants) :
    reader.Reads s.toJson s ∧ s.id.val < 2 ^ 32 := by
  obtain ⟨_, h₁, kind, hkind, rfl⟩ := h.of_record.of_seq
  obtain ⟨_, h₂, line, hline, rfl⟩ := h₁.of_seq
  obtain ⟨id, hid, rfl⟩ := h₂.of_map
  have hkind' := StmtKind.reads_toJson hkind.of_required hs
  refine ⟨?_, StmtId.lt_of_yields hid.of_required⟩
  cases line with
  | none =>
    exact reads_record rfl <|
      (((StmtId.reads_required hid rfl).map _).seq (reads_absent rfl)).seq
        (Fields.reads_required rfl hkind')
  | some n =>
    -- A line that is there was read, since it does not stand there by itself.
    have hn : n < 2 ^ 32 := by
      rcases hline.of_defaulted with h | h
      · cases h
      · exact (h.of_optional n rfl).of_natOfBits
    exact reads_record rfl <|
      (((StmtId.reads_required hid rfl).map _).seq
        (reads_defaulted (j := .ofNat n) rfl (reads_some nofun (reads_natOfBits hn)))).seq
          (Fields.reads_required rfl hkind')

end Statements

section Graphs

/-- A block of which all numbers can be written. -/
structure Block.InRange (b : Block) : Prop where
  /-- Its own number. -/
  id : b.id.val < 2 ^ 32
  /-- Those of its statements. -/
  stmts : ∀ s ∈ b.stmts, s.val < 2 ^ 32
  /-- Those of its successors. -/
  successors : ∀ id ∈ b.successors, id.val < 2 ^ 32
  /-- Those of its handlers. -/
  catches : ∀ e ∈ b.catches, e.handler.val < 2 ^ 32

theorem BlockId.reads_toJson {id : BlockId} (h : id.val < 2 ^ 32) : reader.Reads id.toJson id :=
  (reads_natOfBits h).map _

theorem BlockId.lt_of_yields {id : BlockId} (h : reader.Yields id) : id.val < 2 ^ 32 := by
  obtain ⟨n, hn, rfl⟩ := h.of_map
  exact hn.of_natOfBits

theorem CatchEdge.reads_toJson {e : CatchEdge} (h : e.handler.val < 2 ^ 32) :
    reader.Reads e.toJson e :=
  reads_record rfl <| ((Fields.reads_required rfl e.exception.reads_toJson).map _).seq
    (Fields.reads_required rfl (BlockId.reads_toJson h))

/-- A block whose numbers can be written is read back. -/
theorem Block.reads_toJson {b : Block} (h : b.InRange) : reader.Reads b.toJson b :=
  reads_record rfl <|
    ((((Fields.reads_required rfl (BlockId.reads_toJson h.id)).map _).seq
      (Fields.reads_required rfl (StmtId.reads_list h.stmts))).seq
        (reads_defaulted rfl
          (Decoder.reads_list fun id hid => BlockId.reads_toJson (h.successors id hid)))).seq
            (reads_defaulted rfl
              (Decoder.reads_list fun e he => CatchEdge.reads_toJson (h.catches e he)))

/-- The numbers of a block that was read can be written. -/
theorem Block.inRange_of_yields {b : Block} (h : reader.Yields b) : b.InRange := by
  obtain ⟨_, h₁, catches, hcatches, rfl⟩ := h.of_record.of_seq
  obtain ⟨_, h₂, successors, hsuccessors, rfl⟩ := h₁.of_seq
  obtain ⟨_, h₃, stmts, hstmts, rfl⟩ := h₂.of_seq
  obtain ⟨id, hid, rfl⟩ := h₃.of_map
  refine
    { id := BlockId.lt_of_yields hid.of_required
      stmts := fun s hs => StmtId.lt_of_yields (hstmts.of_required.of_list s hs)
      successors := fun id hid => BlockId.lt_of_yields (yields_of_defaulted hsuccessors id hid)
      catches := fun e he => ?_ }
  obtain ⟨_, h₁, handler, hhandler, rfl⟩ := (yields_of_defaulted hcatches e he).of_record.of_seq
  obtain ⟨exception, -, rfl⟩ := h₁.of_map
  exact BlockId.lt_of_yields hhandler.of_required

/-- Statements with numbers of their own are no more than there are numbers. -/
theorem length_le_of_nodup {stmts : List Stmt} {bound : Nat} (hnodup : (stmts.map Stmt.id).Nodup)
    (h : ∀ s ∈ stmts, s.id.val < bound) : stmts.length ≤ bound := by
  have hvals : (stmts.map fun s => s.id.val).Nodup := by
    have hmap : stmts.map (fun s => s.id.val) = (stmts.map Stmt.id).map StmtId.val := by simp
    rw [hmap]
    exact hnodup.map fun s s' h => by cases s; cases s'; cases h; rfl
  -- The numbers are distinct and below the bound.
  have hsubset : (stmts.map fun s => s.id.val) ⊆ List.range bound := fun n hn => by
    obtain ⟨s, hs, rfl⟩ := List.mem_map.1 hn
    exact List.mem_range.2 (h s hs)
  simpa using (List.subperm_of_subset hvals hsubset).length_le

/-- A list has at least as many elements as pieces that are not empty. -/
theorem length_le_length_flatten {α : Type} {xss : List (List α)} (h : [] ∉ xss) :
    xss.length ≤ xss.flatten.length := by
  rw [List.length_flatten, ← List.length_map (f := List.length)]
  refine List.length_le_sum_of_one_le _ fun n hn => ?_
  obtain ⟨xs, hxs, rfl⟩ := List.mem_map.1 hn
  exact List.length_pos_iff.2 fun hnil => h (hnil ▸ hxs)

/-- The blocks of a body that was made of its statements can be written if the statements can. -/
theorem inRange_of_ofStmts {locals : List Local} {stmts : List Stmt} {traps : List Trap} {b : Body}
    (hb : Body.ofStmts locals stmts traps = .ok b) (hstmts : ∀ s ∈ stmts, s.id.val < 2 ^ 32) :
    ∀ block ∈ b.flow.blocks, block.InRange := by
  have hcut := Cut.ofStmts hb
  obtain ⟨-, hbstmts⟩ := Body.ofStmts_parts hb
  -- There are no more blocks than statements, and no more statements than numbers.
  have hlength : (Flow.pieces stmts traps).length ≤ 2 ^ 32 := by
    refine Nat.le_trans ((length_le_length_flatten hcut.nil_notMem).trans ?_)
      (length_le_of_nodup (hbstmts ▸ hcut.nodup) hstmts)
    rw [hcut.flatten, hbstmts]
  intro block hblock
  obtain ⟨k, seg, hk, hseg, hid, hids⟩ := hcut.exists_piece hblock
  refine
    { id := ?_
      stmts := fun id hmem => ?_
      successors := fun id hmem => (hcut.lt_of_mem_successors hk hmem).trans_le hlength
      catches := fun e he => ?_ }
  · rw [hid]
    exact (List.getElem?_eq_some_iff.1 hseg).1.trans_le hlength
  · rw [hids] at hmem
    obtain ⟨s, hs, rfl⟩ := List.mem_map.1 hmem
    exact hstmts s (hbstmts ▸ hcut.mem_stmts (List.mem_of_getElem? hseg) hs)
  · obtain ⟨t, -, -, howner, -⟩ := (Cut.mem_catches_iff hb hk).1 he
    exact (hcut.lt_of_owner? howner).trans_le hlength

end Graphs

section Bodies

/-- A body that is read has the locals and the statements that it is made of. -/
theorem Body.ofMembers_parts {locals : List Local} {stmts : List Stmt} {traps : List Trap}
    {blocks : Option (List Block)} {b : Body} (h : ofMembers locals stmts blocks traps = .ok b) :
    b.locals = locals ∧ b.stmts = stmts := by
  cases blocks with
  | some blocks =>
    cases h
    exact ⟨rfl, rfl⟩
  | none =>
    exact Body.ofStmts_parts (mapError_eq_ok_iff.1 h)

/-- A body is read back: what is written are its statements and its blocks, wherever these came
from. -/
theorem Body.reads_toJson {b : Body} (h : reader.Yields b) (hb : Exact b.constants) :
    reader.Reads b.toJson b := by
  obtain ⟨_, hrecord, hbody⟩ := h.of_refine
  obtain ⟨_, h₁, traps, -, rfl⟩ := hrecord.of_record.of_seq
  obtain ⟨_, h₂, blocks, hblocks, rfl⟩ := h₁.of_seq
  obtain ⟨_, h₃, stmts, hstmts, rfl⟩ := h₂.of_seq
  obtain ⟨locals, hlocals, rfl⟩ := h₃.of_map
  have hbody : ofMembers locals stmts blocks traps = .ok b := hbody
  have hparts := ofMembers_parts hbody
  have hstmt : ∀ s ∈ stmts, Stmt.reader.Reads s.toJson s ∧ s.id.val < 2 ^ 32 := fun s hs =>
    Stmt.reads_toJson (hstmts.of_required.of_list s hs) (hb.of_flatMap (hparts.2 ▸ hs))
  have hrange : ∀ block ∈ b.flow.blocks, block.InRange := by
    cases blocks with
    | some blocks =>
      cases hbody
      intro block hblock
      rcases hblocks.of_defaulted with h | h
      · cases h
      · exact Block.inRange_of_yields ((h.of_optional blocks rfl).of_list block hblock)
    | none =>
      exact inRange_of_ofStmts (mapError_eq_ok_iff.1 hbody) fun s hs => (hstmt s hs).2
  obtain ⟨rfl, rfl⟩ := hparts
  refine Reads.refine (x := .ok b) ?_ rfl
  change Decoder.Reads _ _ (ofMembers b.locals b.stmts (some b.flow.blocks) [])
  have hblocks : Block.reader.list.Reads (.ofList Block.toJson b.flow.blocks) b.flow.blocks :=
    Decoder.reads_list fun block hblock => Block.reads_toJson (hrange block hblock)
  exact reads_record rfl <|
    ((((reads_defaulted rfl (Local.reads_list (yields_of_defaulted hlocals))).map _).seq
      (Fields.reads_required rfl (Decoder.reads_list fun s hs => (hstmt s hs).1))).seq
        (reads_defaulted (j := .ofList Block.toJson b.flow.blocks) rfl
          (reads_some nofun hblocks))).seq
            (reads_absent rfl)

end Bodies

end BytecodeLowering.Ir
