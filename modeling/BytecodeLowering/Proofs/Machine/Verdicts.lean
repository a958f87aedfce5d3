import BytecodeLowering.Proofs.Machine.Rejection

/-!
# The check and the measurement of code

A class is checked before it is stored, and the code of its methods is measured when it is
assembled. The check goes through the instructions as they are listed; the measurement follows the
paths of control, and looks at unreachable code for its local variables and its lines alone. What
the one has accepted, the other does not reject for its labels.

* `MethodCode.Names`: the labels that a measurement may look up, wherever control gets to.
* `MethodCode.Accepted.label_mem`: in code that is accepted they are bound.
* `MethodCode.Accepted.not_exhibits_unbound`, `MethodCode.Accepted.not_exhibits_duplicate`: such
  code has no defects of labels.
* `MethodCode.Accepted.locals_le`: its local variables are within the frame that was recorded.
* `ClassImage.maxSizes_of_check`: what a class that passes the check says about measuring its code.
-/

namespace BytecodeLowering.Machine

/-- The labels that code names: those that an instruction jumps to, whether control gets to it or
not, those of the exception table, and those where lines start. -/
inductive MethodCode.Names (c : MethodCode) : Label → Prop
  | target {i : Insn} {l : Label} : i ∈ c.insns → l ∈ i.targets → c.Names l
  | guard {g : Guard} {l : Label} : g ∈ c.guards → l ∈ g.labels → c.Names l
  | line {n : Nat} {l : Label} : .lineNumber n l ∈ c.insns → c.Names l

namespace MethodCode.Accepted

variable {c : MethodCode} {argSlots : Nat}

/-- Every label that the code names is bound. -/
theorem label_mem (h : c.Accepted) {l : Label} (hl : c.Names l) : .label l ∈ c.insns := by
  cases hl with
  | target hi hl => exact h.targets _ hi l hl
  | guard hg hl => exact h.guards _ hg l hl
  | line hline => exact h.lines _ l hline

/-- It can be looked up. -/
theorem exists_resolve (h : c.Accepted) {l : Label} (hl : c.Names l) :
    ∃ i, resolve c.insns l = .ok i := by
  cases hplace : place? c.insns l with
  | some i => exact ⟨i, resolve_eq_ok_iff.2 hplace⟩
  | none => exact absurd (h.label_mem hl) (place?_eq_none_iff.1 hplace)

/-- No label is missing. -/
theorem not_exhibits_unbound (h : c.Accepted) (l : Label) :
    ¬Exhibits c.insns c.guards (.unbound l) := by
  rintro ⟨hnot, hnamed⟩
  refine hnot (h.label_mem ?_)
  cases hnamed with
  | guard hg hl => exact .guard hg hl
  | target _ hinsn hl =>
    -- The check looks at all instructions, those that control gets to among them.
    exact .target (List.mem_of_getElem? hinsn) hl
  | line hline => exact .line hline

/-- No label is bound twice. -/
theorem not_exhibits_duplicate (h : c.Accepted) (l : Label) :
    ¬Exhibits c.insns c.guards (.duplicate l) := by
  intro hcount
  have hle : (c.insns.filterMap Insn.bound?).count l ≤ 1 :=
    List.nodup_iff_count_le_one.1 h.once l
  rw [count_bound] at hle
  change 2 ≤ c.insns.count (.label l) at hcount
  omega

/-- The local variables that are counted are those of the arguments, or end within the frame that
was recorded. -/
theorem locals_le (h : c.Accepted) {n : Nat} (hn : localsOf argSlots c.insns = .ok n) :
    n ≤ max argSlots c.sizes.locals := by
  obtain ⟨⟨hmem, -⟩, -⟩ := localsOf_eq_ok hn
  rcases hmem with rfl | ⟨op, slot, w, hvar, hw, rfl⟩
  · exact Nat.le_max_left _ _
  · -- The operation has a width here, so that the check went by the same one.
    have hle := h.ends op slot hvar
    rw [hw, Option.getD_some] at hle
    exact hle.trans (Nat.le_max_right _ _)

end MethodCode.Accepted

/-- The code of a class that passes the check is not rejected for its labels when it is measured,
whatever the number of its argument slots is: none is bound twice, and none is missing. If it can be
measured, it has no more local variables than its arguments take or than were recorded. All labels
that the code names can be looked up, and so little local variables are counted, whatever becomes of
the operand stack. -/
theorem ClassImage.maxSizes_of_check {c : ClassImage} (h : c.check = .ok ()) :
    ∀ m ∈ c.methods, ∀ code ∈ m.code,
      (∀ l, code.Names l → ∃ i, resolve code.insns l = .ok i) ∧
      ∀ argSlots,
        (∀ n, localsOf argSlots code.insns = .ok n → n ≤ max argSlots code.sizes.locals) ∧
        (∀ l, maxSizes code.insns code.guards argSlots ≠ .error (.duplicate l)) ∧
        (∀ l, maxSizes code.insns code.guards argSlots ≠ .error (.unbound l)) ∧
        ∀ sizes, maxSizes code.insns code.guards argSlots = .ok sizes →
          sizes.locals ≤ max argSlots code.sizes.locals := by
  obtain ⟨-, hcode⟩ := ClassImage.check_eq_ok_iff.1 h
  intro m hm code hmem
  have haccepted : code.Accepted := hcode m hm code hmem
  refine ⟨fun l => haccepted.exists_resolve, fun argSlots =>
    ⟨fun n => haccepted.locals_le, fun l herror => ?_, fun l herror => ?_, fun sizes hok => ?_⟩⟩
  · exact haccepted.not_exhibits_duplicate l (exhibits_of_maxSizes herror)
  · exact haccepted.not_exhibits_unbound l (exhibits_of_maxSizes herror)
  · exact haccepted.locals_le (exists_steps_of_maxSizes hok).2.1

section Depot

/-- The code of `tally`, which is recorded with more local variables than it has. -/
def tallyCode : MethodCode :=
  ⟨countdown ++ [.label ⟨3⟩, .lineNumber 7 ⟨3⟩, .jump .goto ⟨1⟩], [countdownGuard], ⟨2, 4⟩⟩

/-- The code of `spare`. Behind its end an instruction on a local variable has an operation that
accesses none. -/
def spareCode : MethodCode :=
  ⟨[.simple .return, .var .nop 2], [], ⟨0, 3⟩⟩

/-- The code of `brim`, which loads the last slot. The end of that starts over, so that it lies in a
frame without local variables. -/
def brimCode : MethodCode :=
  ⟨[.var .iload 65535, .simple .ireturn], [], ⟨1, 0⟩⟩

/-- A class with code that can be measured and with code that cannot. -/
def depot : ClassImage where
  header := ⟨52, 0x21, "demo/Depot", some "java/lang/Object", []⟩
  fields := []
  methods :=
    [⟨⟨0x8, "tally", "(I)I", []⟩, some tallyCode, none⟩,
      ⟨⟨0x8, "spare", "()V", []⟩, some spareCode, none⟩,
      ⟨⟨0x8, "brim", "()I", []⟩, some brimCode, none⟩]

/-- `ClassImage.maxSizes_of_check` at a class with a loop, a handler and unreachable lines, whose
second method cannot be measured, for another reason than its labels, and whose third one accesses a
local variable that ends behind the last slot. -/
theorem depot_measured : depot.check = .ok () ∧
    (maxSizes tallyCode.insns tallyCode.guards 1 = .ok ⟨2, 1⟩ ∧ 1 ≤ max 1 4) ∧
    (maxSizes spareCode.insns spareCode.guards 0 = .error (.invalidInsn (.notVariable .nop)) ∧
      ∀ argSlots l, maxSizes spareCode.insns spareCode.guards argSlots ≠ .error (.unbound l)) ∧
    maxSizes brimCode.insns brimCode.guards 0 = .ok ⟨1, 0⟩ ∧ 0 ≤ max 0 0 := by
  have hcheck : depot.check = .ok () := by cbv
  have htally : maxSizes tallyCode.insns tallyCode.guards 1 = .ok ⟨2, 1⟩ := by cbv
  have hspare : maxSizes spareCode.insns spareCode.guards 0 =
      .error (.invalidInsn (.notVariable .nop)) := by cbv
  have hbrim : maxSizes brimCode.insns brimCode.guards 0 = .ok ⟨1, 0⟩ := by cbv
  have hverdict := ClassImage.maxSizes_of_check hcheck
  obtain ⟨-, htallied⟩ := hverdict _ List.mem_cons_self tallyCode rfl
  obtain ⟨-, hspared⟩ :=
    hverdict _ (List.mem_cons_of_mem _ List.mem_cons_self) spareCode rfl
  obtain ⟨-, hbrimmed⟩ :=
    hverdict _ (List.mem_cons_of_mem _ (List.mem_cons_of_mem _ List.mem_cons_self)) brimCode rfl
  exact ⟨hcheck, ⟨htally, (htallied 1).2.2.2 _ htally⟩,
    ⟨hspare, fun argSlots l => (hspared argSlots).2.2.1 l⟩, hbrim, (hbrimmed 0).2.2.2 _ hbrim⟩

end Depot

end BytecodeLowering.Machine
