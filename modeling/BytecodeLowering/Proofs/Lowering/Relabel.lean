import BytecodeLowering.Proofs.Lowering.Control
import BytecodeLowering.Proofs.Machine.Alike

/-!
# Code with other labels

The code of a statement under two sets of labels.

* `exists_relabelled`: if the targets of a statement have labels in both or in none, the statement
  is lowered to code with the same depths in both.
* `lowerStmt_of_bound`: a return whose local has its place is lowered without any change.
* `lowerStmt_again`, `lowerStmt_eq_of_binding?`: a return is lowered to the same code again where
  its local has the same place.
-/

namespace BytecodeLowering.Lowering

open Ir Machine

variable {m : Method} {b : Body} {layout layout' : Layout} {labels labels' : Labels}
  {p p' q q' : Progress} {code : List Insn}

/-- Jumps to other labels have the same effect. -/
theorem alike_jump (o : Opcode) (l l' : Label) : Alike [.jump o l] [.jump o l'] :=
  .singleton rfl nofun nofun

/-- A branch by a comparison does not depend on the label that it jumps to. -/
theorem branchCode_cases (op : CmpOp) (lhs rhs : Ty) :
    (∃ front o, ∀ l, branchCode op lhs rhs l = .ok (front ++ [.jump o l])) ∨
      ∃ e, ∀ l, branchCode op lhs rhs l = .error e := by
  unfold branchCode
  split
  · cases ifReferenceOp op with
    | ok o => exact .inl ⟨[], o, fun _ => rfl⟩
    | error e => exact .inr ⟨e, fun _ => rfl⟩
  · split
    · exact .inl ⟨[_], _, fun _ => rfl⟩
    · split
      · exact .inl ⟨[], _, fun _ => rfl⟩
      · exact .inr ⟨_, fun _ => rfl⟩

/-- Switches take their value from the operand stack, whatever they jump to. -/
theorem alike_switchInsn (cases cases' : List (Int32 × Label)) (default default' : Label) :
    Alike [switchInsn cases default] [switchInsn cases' default'] := by
  have hinsn : ∀ cases default, effect (switchInsn cases default) = .ok (1, 0) ∧
      ∀ op n, switchInsn cases default ≠ .var op n := by
    intro cases default
    unfold switchInsn
    dsimp only
    split
    · split <;> exact ⟨rfl, nofun⟩
    · exact ⟨rfl, nofun⟩
  exact .singleton ((hinsn _ _).1.trans (hinsn _ _).1.symm) (hinsn _ _).2 (hinsn _ _).2

/-- The keys of sorted cases are the sorted keys. -/
theorem keys_mergeSort (cases : List (Int32 × Label)) :
    (cases.mergeSort fun a b => a.1.toInt ≤ b.1.toInt).map Prod.fst =
      (cases.map Prod.fst).mergeSort fun a b => a.toInt ≤ b.toInt :=
  List.map_mergeSort fun _ _ _ _ => rfl

/-- The cases of a switch have the keys of the pairs that they are made of. -/
theorem keys_cases {c : MethodContext} {pairs : List (Int32 × StmtId)}
    {cases : List (Int32 × Label)}
    (h : List.Forall₂ (fun x y => x.1 = y.1 ∧ targetLabel c x.2 = .ok y.2) pairs cases) :
    cases.map Prod.fst = pairs.map Prod.fst := by
  induction h with
  | nil => rfl
  | cons hx _ ih => rw [List.map_cons, List.map_cons, ih, hx.1]

/-- A switch has cases if all its targets have labels. -/
theorem exists_cases {c : MethodContext} {pairs : List (Int32 × StmtId)}
    (h : ∀ x ∈ pairs, ∃ l, targetLabel c x.2 = .ok l) :
    ∃ cases, List.Forall₂ (fun x (y : Int32 × Label) => x.1 = y.1 ∧ targetLabel c x.2 = .ok y.2)
      pairs cases :=
  exists_forall₂_iff.2 fun x hx =>
    let ⟨l, hl⟩ := h x hx
    ⟨(x.1, l), rfl, hl⟩

/-- A switch is lowered with other labels to code with the same effect. -/
theorem exists_relabelled_switch {key : Operand} {values : List Int32} {targets : List StmtId}
    {default : StmtId}
    (hlabels : ∀ t ∈ targets ++ [default], ∃ l, targetLabel ⟨m, b, layout', labels'⟩ t = .ok l)
    (h : lowerSwitch ⟨m, b, layout, labels⟩ key values targets default p = .ok (code, p')) :
    ∃ code', lowerSwitch ⟨m, b, layout', labels'⟩ key values targets default p =
      .ok (code', p') ∧ Alike code code' ∧ (code = [] ↔ code' = []) := by
  obtain ⟨label, cases, value, -, hcases, htwin, hvalue, rfl⟩ := lowerSwitch_run_iff.1 h
  obtain ⟨label', hlabel'⟩ := hlabels default (by simp)
  obtain ⟨cases', hcases'⟩ := exists_cases fun x (hx : x ∈ values.zip targets) =>
    hlabels x.2 (List.mem_append_left _ (List.of_mem_zip hx).2)
  -- The same keys are paired with the other labels.
  rw [keys_mergeSort, keys_cases hcases, ← keys_cases hcases', ← keys_mergeSort] at htwin
  exact ⟨_, lowerSwitch_run_iff.2 ⟨label', cases', value, hlabel', hcases', htwin, hvalue, rfl⟩,
    (Alike.refl value).append (alike_switchInsn _ _ _ _), by simp⟩

/-- So is a branch. -/
theorem exists_relabelled_branch {cond : Condition} {target : StmtId}
    (hlabel : ∃ l, targetLabel ⟨m, b, layout', labels'⟩ target = .ok l)
    (h : lowerBranch ⟨m, b, layout, labels⟩ cond target p = .ok (code, p')) :
    ∃ code', lowerBranch ⟨m, b, layout', labels'⟩ cond target p = .ok (code', p') ∧
      Alike code code' ∧ (code = [] ↔ code' = []) := by
  obtain ⟨label, left, q, right, jump, -, hleft, hright, hjump, rfl⟩ := lowerBranch_run_iff.1 h
  obtain ⟨label', hlabel'⟩ := hlabel
  rcases branchCode_cases cond.op cond.lhs.ty cond.rhs.ty with ⟨front, o, hcode⟩ | ⟨e, hcode⟩
  · cases (hcode label).symm.trans hjump
    exact ⟨_, lowerBranch_run_iff.2 ⟨label', left, q, right, _, hlabel', hleft, hright,
      hcode label', rfl⟩, (Alike.refl _).append ((Alike.refl _).append (alike_jump _ _ _)),
      by simp⟩
  · cases (hcode label).symm.trans hjump

/-- So is a goto, which is a jump with either set of labels or the return in its place with both. -/
theorem exists_relabelled_goto {target : StmtId}
    (hlabel : (∃ l, targetLabel ⟨m, b, layout, labels⟩ target = .ok l) ↔
      ∃ l, targetLabel ⟨m, b, layout', labels'⟩ target = .ok l)
    (h : lowerGoto ⟨m, b, layout, labels⟩ target p = .ok (code, p')) :
    ∃ code', lowerGoto ⟨m, b, layout', labels'⟩ target p = .ok (code', p') ∧
      Alike code code' ∧ (code = [] ↔ code' = []) := by
  obtain ⟨x, hx, hcode⟩ := lowerGoto_run_iff.1 h
  -- Both sets are asked for the label of one block.
  have hblock : ∀ {layout : Layout} {labels : Labels},
      (∃ l, targetLabel ⟨m, b, layout, labels⟩ target = .ok l) ↔ ∃ l, labels.get? x = some l := by
    intro layout labels
    refine exists_congr fun l => targetLabel_eq_ok_iff.trans ⟨?_, fun hl => ⟨x, hx, hl⟩⟩
    rintro ⟨x', hx', hl⟩
    cases hx.symm.trans hx'
    exact hl
  rw [hblock, hblock] at hlabel
  rcases hcode with ⟨l, hl, rfl, rfl⟩ | ⟨hnone, s, hs, hreturn⟩
  · obtain ⟨l', hl'⟩ := hlabel.1 ⟨l, hl⟩
    exact ⟨_, lowerGoto_run_iff.2 ⟨x, hx, .inl ⟨l', hl', rfl, rfl⟩⟩, alike_jump _ _ _, by simp⟩
  · have hnone' : labels'.get? x = none := by
      by_contra hne
      obtain ⟨l, hl⟩ := hlabel.2 (Option.ne_none_iff_exists'.1 hne)
      cases hnone.symm.trans hl
    exact ⟨code, lowerGoto_run_iff.2 ⟨x, hx, .inr ⟨hnone', s, hs, hreturn⟩⟩, .refl _, .rfl⟩

/-- A statement whose targets have labels in both sets of labels, or in none, is lowered with either
to code with the same effect. -/
theorem exists_relabelled {k : StmtKind}
    (hlabels : ∀ t ∈ k.targets, (∃ l, targetLabel ⟨m, b, layout, labels⟩ t = .ok l) ↔
      ∃ l, targetLabel ⟨m, b, layout', labels'⟩ t = .ok l)
    (hlength : ∀ key values targets default, k = .switch key values targets default →
      values.length = targets.length)
    (h : lowerStmt ⟨m, b, layout, labels⟩ k p = .ok (code, p')) :
    ∃ code', lowerStmt ⟨m, b, layout', labels'⟩ k p = .ok (code', p') ∧ Alike code code' ∧
      (code = [] ↔ code' = []) := by
  cases k with
  | branch cond target =>
    obtain ⟨label, _, _, _, _, hlabel, -⟩ := lowerBranch_run_iff.1 h
    exact exists_relabelled_branch ((hlabels target List.mem_cons_self).1 ⟨label, hlabel⟩) h
  | goto target => exact exists_relabelled_goto (hlabels target List.mem_cons_self) h
  | switch key values targets default =>
    obtain ⟨label, cases, -, hlabel, hcases, -⟩ := lowerSwitch_run_iff.1 h
    refine exists_relabelled_switch (fun t ht => (hlabels t ht).1 ?_) h
    rcases List.mem_append.1 ht with ht | ht
    · rw [← List.map_snd_zip (Nat.le_of_eq (hlength _ _ _ _ rfl).symm)] at ht
      obtain ⟨x, hx, rfl⟩ := List.mem_map.1 ht
      obtain ⟨y, -, -, hy⟩ := exists_right_of_mem hcases hx
      exact ⟨y.2, hy⟩
    · exact ⟨label, List.mem_singleton.1 ht ▸ hlabel⟩
  | _ => exact ⟨code, h, .refl _, .rfl⟩

/-- What a return returns has a place behind it. -/
theorem exists_binding?_of_isReturn {c : MethodContext} {k : StmtKind} (hk : k.isReturn)
    (h : lowerStmt c k p = .ok (code, p')) {l : Local} (hl : l ∈ k.uses) :
    ∃ x, p'.slots.binding? l = some x := by
  cases k with
  | «return» op =>
    obtain ⟨value, -, hvalue, rfl⟩ := lowerReturn_run_iff.1 h
    obtain rfl : op = .var l := by
      simpa [eq_comm] using mem_localsOf.1 hl
    obtain ⟨x, hx, -⟩ := loadLocal_run_iff.1 hvalue
    exact ⟨x, binding?_place hx⟩
  | returnVoid => cases hl
  | _ => cases hk

/-- A return is lowered to the same code again where its local has the place that it got. -/
theorem lowerStmt_again {c : MethodContext} {k : StmtKind} (hk : k.isReturn)
    (h : lowerStmt c k p = .ok (code, p'))
    (hsame : ∀ l ∈ k.uses, ∀ x, p'.slots.binding? l = some x → q.slots.binding? l = some x) :
    lowerStmt c k q = .ok (code, q) := by
  cases k with
  | «return» op =>
    obtain ⟨value, hret, hvalue, rfl⟩ := lowerReturn_run_iff.1 h
    refine lowerReturn_run_iff.2 ⟨value, hret, ?_, rfl⟩
    cases op with
    | const x =>
      obtain ⟨i, hi, rfl, -⟩ := loadConst_run_iff.1 hvalue
      exact loadConst_run_iff.2 ⟨i, hi, rfl, rfl⟩
    | var l =>
      obtain ⟨x, hx, hmove⟩ := loadLocal_run_iff.1 hvalue
      obtain ⟨slots, hresolve, rfl⟩ := place_run_iff.1 hx
      have hbound := hsame l (mem_localsOf.2 List.mem_cons_self) x (Slots.binding?_resolve hresolve)
      exact loadLocal_run_iff.2 ⟨x, place_run_iff.2
        ⟨q.slots, Slots.resolve_ok_iff.2 (.inl ⟨hbound, rfl⟩), rfl⟩, hmove⟩
  | returnVoid =>
    obtain ⟨rfl, -⟩ := pure_run_iff.1 h
    exact pure_run_iff.2 ⟨rfl, rfl⟩
  | _ => cases hk

/-- A return is lowered to the same code twice if its local is in the same place behind both. -/
theorem lowerStmt_eq_of_binding? {c : MethodContext} {k : StmtKind} {code' : List Insn}
    (hk : k.isReturn) (h : lowerStmt c k p = .ok (code, p'))
    (h' : lowerStmt c k q = .ok (code', q'))
    (hsame : ∀ l ∈ k.uses, p'.slots.binding? l = q'.slots.binding? l) : code = code' := by
  -- Where the second one leaves the local, both are the code of the return.
  have hagain := lowerStmt_again hk h fun l hl _ hx => hsame l hl ▸ hx
  have hagain' := lowerStmt_again hk h' fun _ _ _ hx => hx
  exact (Prod.mk.inj (Except.ok.inj (hagain.symm.trans hagain'))).1

end BytecodeLowering.Lowering
