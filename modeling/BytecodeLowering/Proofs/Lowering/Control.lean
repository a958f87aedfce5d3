import BytecodeLowering.Proofs.Lowering.Choice
import BytecodeLowering.Proofs.Lowering.Straight

/-!
# Code that ends a block

The code of a statement that ends a block is straight up to its last instruction, and that one goes
where the statement goes.

* `Ends`: an instruction goes where a statement goes, with labels in place of statements.
* `endsWith_of_lowerBranch`, `endsWith_of_lowerSwitch`, `endsWith_of_isReturn`: the code of a
  branch, of a switch and of a return ends with such an instruction.
* `ends_of_lowerStmt`: so does the code of every statement that ends a block, unless it is that of a
  return in place of the branch to it.
* `exists_exit_of_lowerStmt`: in either case one instruction at its end leads where the statement
  does.
-/

namespace BytecodeLowering.Lowering

open Ir Machine

variable {P : Local → Prop} {c : MethodContext} {p p' : Progress} {code : List Insn}

/-- An instruction goes where a statement goes. -/
structure Ends (c : MethodContext) (k : StmtKind) (i : Insn) : Prop where
  /-- It is an operation that can do so. -/
  isExit : i.isExit
  /-- Control goes on behind the instruction iff it goes on behind the statement. -/
  endsFlow : i.endsFlow = !k.fallsThrough
  /-- The instruction jumps to the labels of the targets of the statement. -/
  targets : ∀ l, l ∈ i.targets ↔ ∃ t ∈ k.targets, targetLabel c t = .ok l
  /-- All targets of the statement have labels. -/
  labelled : ∀ t ∈ k.targets, ∃ l, targetLabel c t = .ok l
  /-- The operands of the instruction fit each other. -/
  formed : i.Formed

/-- Straight code up to an instruction that goes where a statement goes. -/
def EndsWith (P : Local → Prop) (c : MethodContext) (k : StmtKind) (p : Progress)
    (code : List Insn) (p' : Progress) : Prop :=
  ∃ front i, code = front ++ [i] ∧ Straight P p front p' ∧ Ends c k i

/-- A conditional branch compares in straight code and jumps with its last instruction. -/
theorem exists_jump_of_branchCode {op : CmpOp} {lhs rhs : Ty} {l : Label}
    (h : branchCode op lhs rhs l = .ok code) :
    ∃ front o, code = front ++ [.jump o l] ∧ (∀ i ∈ front, i.isPlain) ∧ o.endsFlow = false := by
  have hzero : (ifZeroOp op).endsFlow = false := by cases op <;> rfl
  have hint : (ifIntOp op).endsFlow = false := by cases op <;> rfl
  unfold branchCode at h
  split at h
  · obtain ⟨o, ho, rfl⟩ := map_eq_ok_iff.1 h
    refine ⟨[], o, rfl, List.forall_mem_nil _, ?_⟩
    cases op <;> cases ho <;> rfl
  · split at h
    · rename_i compare hcompare
      cases h
      -- A comparison of other numbers stands in front of the jump, and control goes on behind it.
      refine ⟨[.simple compare], _, rfl, ?_, hzero⟩
      have hplain : compare.endsFlow = false := by
        unfold compareOp? at hcompare
        split at hcompare <;> cases hcompare
        · rfl
        · split <;> rfl
        · split <;> rfl
      simpa [Insn.isPlain] using hplain
    · split at h
      · cases h
        exact ⟨[], _, rfl, List.forall_mem_nil _, hint⟩
      · cases h

/-- A switch jumps to the labels of its cases and to its default, and control does not go on behind
it. -/
theorem targets_switchInsn (cases : List (Int32 × Label)) (default : Label) :
    (switchInsn cases default).targets = cases.map Prod.snd ++ [default] ∧
      (switchInsn cases default).endsFlow = true ∧ (switchInsn cases default).isExit := by
  unfold switchInsn
  dsimp only
  split
  · split <;> exact ⟨rfl, rfl, rfl⟩
  · exact ⟨rfl, rfl, rfl⟩

/-- A return ends with an operation that leaves the method. -/
theorem endsWith_of_lowerReturn (op : Option Operand) {k : StmtKind} (hk : k.isReturn)
    (hop : ∀ x, op = some x → ∀ l ∈ Ir.localsOf [x], P l)
    (h : lowerReturn c.method op p = .ok (code, p')) : EndsWith P c k p code p' := by
  obtain ⟨hfall, hnone⟩ := StmtKind.leaves_of_isReturn hk
  have hends : ∀ o : Opcode, o.endsFlow = true → Ends c k (.simple o) := by
    intro o ho
    refine ⟨rfl, ?_, fun l => ?_, ?_, trivial⟩
    · rw [hfall]
      exact ho
    · simp [hnone, Insn.targets]
    · simp [hnone]
  cases op with
  | none =>
    obtain ⟨rfl, rfl⟩ := pure_run_iff.1 h
    exact ⟨[], _, rfl, .nil, hends _ rfl⟩
  | some x =>
    obtain ⟨value, -, hvalue, rfl⟩ := lowerReturn_run_iff.1 h
    refine ⟨value, _, rfl, straight_of_loadOperand (hop x rfl) hvalue, hends _ ?_⟩
    cases c.method.ret.category <;> rfl

/-- The code of a return ends with an operation that leaves the method. -/
theorem endsWith_of_isReturn {k : StmtKind} (hk : k.isReturn) (huses : ∀ l ∈ k.uses, P l)
    (h : lowerStmt c k p = .ok (code, p')) : EndsWith P c k p code p' := by
  cases k with
  | «return» op =>
    refine endsWith_of_lowerReturn (some op) rfl ?_ h
    rintro _ ⟨⟩
    exact huses
  | returnVoid => exact endsWith_of_lowerReturn none rfl nofun h
  | _ => cases hk

/-- The code of a branch compares its operands, then jumps to its target or goes on. -/
theorem endsWith_of_lowerBranch {cond : Condition} {target : StmtId}
    (huses : ∀ l ∈ (StmtKind.branch cond target).uses, P l)
    (h : lowerStmt c (.branch cond target) p = .ok (code, p')) :
    EndsWith P c (.branch cond target) p code p' := by
  obtain ⟨label, left, q, right, jump, hlabel, hleft, hright, hjump, rfl⟩ :=
    lowerBranch_run_iff.1 h
  obtain ⟨front, o, rfl, hfront, ho⟩ := exists_jump_of_branchCode hjump
  obtain ⟨hlhs, hrhs⟩ := forall_mem_localsOf_cons.1 huses
  refine ⟨left ++ right ++ front, .jump o label, by simp, ?_, ?_⟩
  · exact ((straight_of_loadOperand hlhs hleft).append
      (straight_of_loadOperand hrhs hright)).append ⟨hfront, .refl⟩
  · refine ⟨rfl, by simpa [Insn.endsFlow, Insn.opcode?, StmtKind.fallsThrough] using ho,
      fun l => ?_, ?_, trivial⟩
    · simp [Insn.targets, StmtKind.targets, hlabel, eq_comm]
    · simpa [StmtKind.targets] using ⟨label, hlabel⟩

/-- The code of a switch loads its value, then jumps to one of its targets. -/
theorem endsWith_of_lowerSwitch {key : Operand} {values : List Int32} {targets : List StmtId}
    {default : StmtId} (huses : ∀ l ∈ (StmtKind.switch key values targets default).uses, P l)
    (hlength : values.length = targets.length)
    (h : lowerStmt c (.switch key values targets default) p = .ok (code, p')) :
    EndsWith P c (.switch key values targets default) p code p' := by
  obtain ⟨label, cases, value, hlabel, hcases, htwin, hvalue, rfl⟩ := lowerSwitch_run_iff.1 h
  obtain ⟨htargets, hflow, hbound⟩ :=
    targets_switchInsn (cases.mergeSort fun a b => a.1.toInt ≤ b.1.toInt) label
  -- With as many values as targets, no target is left out of the cases.
  have hcase : ∀ t ∈ targets, ∃ y ∈ cases, targetLabel c t = .ok y.2 := by
    intro t ht
    rw [← List.map_snd_zip (Nat.le_of_eq hlength.symm)] at ht
    obtain ⟨x, hx, rfl⟩ := List.mem_map.1 ht
    obtain ⟨y, hy, -, hlabel⟩ := exists_right_of_mem hcases hx
    exact ⟨y, hy, hlabel⟩
  refine ⟨value, _, rfl, straight_of_loadOperand huses hvalue, hbound, hflow, fun l => ?_, ?_,
    formed_switchInsn htwin⟩
  · simp only [htargets, StmtKind.targets, List.mem_append, List.mem_map, List.mem_mergeSort,
      List.mem_singleton]
    constructor
    · rintro (⟨y, hy, rfl⟩ | rfl)
      · obtain ⟨x, hx, -, hxlabel⟩ := exists_left_of_mem hcases hy
        exact ⟨x.2, .inl (List.of_mem_zip hx).2, hxlabel⟩
      · exact ⟨default, .inr rfl, hlabel⟩
    · rintro ⟨t, ht | rfl, htlabel⟩
      · obtain ⟨y, hy, hylabel⟩ := hcase t ht
        exact .inl ⟨y, hy, Except.ok.inj (hylabel.symm.trans htlabel)⟩
      · exact .inr (Except.ok.inj (htlabel.symm.trans hlabel))
  · intro t ht
    rcases List.mem_append.1 ht with ht | ht
    · obtain ⟨y, -, hy⟩ := hcase t ht
      exact ⟨y.2, hy⟩
    · exact ⟨label, List.mem_singleton.1 ht ▸ hlabel⟩

/-- The code of a statement that ends a block goes where the statement goes. A branch to a return
without a label is the code of that return instead. -/
theorem ends_of_lowerStmt {k : StmtKind} (hk : k.endsBlock) (huses : ∀ l ∈ k.uses, P l)
    (hlength : ∀ key values targets default, k = .switch key values targets default →
      values.length = targets.length)
    (h : lowerStmt c k p = .ok (code, p')) :
    EndsWith P c k p code p' ∨ ∃ t b s, k = .goto t ∧ c.body.flow.owner? t = some b ∧
      c.labels.get? b = none ∧ c.body.stmt? t = some s ∧ s.kind.isReturn ∧
        lowerStmt c s.kind p = .ok (code, p') := by
  cases k with
  | branch cond target => exact .inl (endsWith_of_lowerBranch huses h)
  | goto target =>
    obtain ⟨b, hb, ⟨l, hl, rfl, rfl⟩ | ⟨hnone, s, hs, h⟩⟩ := lowerGoto_run_iff.1 h
    · left
      -- The jump has the label of the block, and no other.
      have hlabel : targetLabel c target = .ok l := targetLabel_eq_ok_iff.2 ⟨b, hb, hl⟩
      refine ⟨[], _, rfl, .nil, rfl, rfl, fun l' => ?_, ?_, trivial⟩
      · simp [Insn.targets, StmtKind.targets, hlabel, eq_comm]
      · simpa [StmtKind.targets] using ⟨l, hlabel⟩
    · -- The block of the return has no label, so that its code stands here.
      right
      rcases h with ⟨op, hkind, h⟩ | ⟨hkind, h⟩
      · exact ⟨target, b, s, rfl, hb, hnone, hs, by rw [hkind]; rfl, by rw [hkind]; exact h⟩
      · exact ⟨target, b, s, rfl, hb, hnone, hs, by rw [hkind]; rfl, by rw [hkind]; exact h⟩
  | switch key values targets default =>
    exact .inl (endsWith_of_lowerSwitch huses (hlength _ _ _ _ rfl) h)
  | «return» op => exact .inl (endsWith_of_isReturn rfl huses h)
  | returnVoid => exact .inl (endsWith_of_isReturn rfl huses h)
  | throw op =>
    left
    obtain ⟨value, hvalue, rfl⟩ := consume_run_iff.1 h
    refine ⟨value, _, rfl, straight_of_loadOperand huses hvalue, rfl, rfl, fun l => ?_, ?_,
      trivial⟩ <;> simp [Insn.targets, StmtKind.targets]
  | assign | identity | invoke | enterMonitor | exitMonitor | nop | breakpoint => cases hk

/-- The code of a statement that ends a block ends with one instruction, its own or that of the
return in its place, which leads where the statement does. -/
theorem exists_exit_of_lowerStmt {k : StmtKind} (hk : k.endsBlock) (huses : ∀ l ∈ k.uses, P l)
    (hreturn : ∀ t s, k = .goto t → c.body.stmt? t = some s → ∀ l ∈ s.kind.uses, P l)
    (hlength : ∀ key values targets default, k = .switch key values targets default →
      values.length = targets.length)
    (h : lowerStmt c k p = .ok (code, p')) :
    ∃ front i, code = front ++ [i] ∧ Straight P p front p' ∧ i.isExit ∧
      i.endsFlow = !k.fallsThrough ∧
      ∀ l, l ∈ i.targets ↔ ∃ t ∈ k.targets, targetLabel c t = .ok l := by
  rcases ends_of_lowerStmt hk huses hlength h with
    ⟨front, i, rfl, hfront, hi⟩ | ⟨t, x, ret, rfl, hx, hget, hret, hisReturn, hinlined⟩
  · exact ⟨front, i, rfl, hfront, hi.isExit, hi.endsFlow, hi.targets⟩
  · obtain ⟨front, i, rfl, hfront, hi⟩ :=
      endsWith_of_isReturn hisReturn (hreturn t ret rfl hret) hinlined
    obtain ⟨hfalls, htargets⟩ := StmtKind.leaves_of_isReturn hisReturn
    refine ⟨front, i, rfl, hfront, hi.isExit, by rw [hi.endsFlow, hfalls]; rfl, fun l => ?_⟩
    -- A return has no targets, and that of the goto has no label.
    rw [hi.targets, htargets]
    refine ⟨by simp, ?_⟩
    rintro ⟨t', ht', hl⟩
    obtain rfl := List.mem_singleton.1 ht'
    obtain ⟨x', hx', hl⟩ := targetLabel_eq_ok_iff.1 hl
    cases hx.symm.trans hx'
    cases hget.symm.trans hl

end BytecodeLowering.Lowering
