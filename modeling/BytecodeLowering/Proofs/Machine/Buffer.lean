import BytecodeLowering.Machine.Code
import BytecodeLowering.Proofs.Result
import Mathlib

/-!
# Code under construction

What holds of a code buffer after any operations on it, failed measurements included.

* `CodeBuffer.Operation`, `CodeBuffer.Operation.perform`, `CodeBuffer.performAll`: what can be done
  to a buffer, once and any number of times.
* `CodeBuffer.Current`: the sizes that a buffer keeps, if it keeps any, are those of its code.
* `CodeBuffer.current_perform`, `CodeBuffer.current_performAll`: every operation leaves them so.
* `CodeBuffer.insns_performAll`, `CodeBuffer.guards_performAll`: the code is what was put into the
  buffer.
* `CodeBuffer.handedOut_performAll`: new labels are numbered one after the other, in words of 32
  bits.
* `CodeBuffer.settled_of_performAll`: all of this for a buffer that was empty at first, with what
  its code is finished to.
-/

namespace BytecodeLowering.Machine.CodeBuffer

/-- Something to do with a buffer. -/
inductive Operation where
  /-- A new label is asked for. -/
  | newLabel
  /-- An instruction is appended. -/
  | emit (i : Insn)
  /-- An entry is added to the exception table. -/
  | guard (g : Guard)
  /-- The code so far is measured. -/
  | measure
  deriving DecidableEq, Repr

/-- What a buffer answers. -/
inductive Answer where
  /-- A new label. -/
  | label (l : Label)
  /-- The sizes of the frame. -/
  | sizes (m : Sizes)
  /-- Nothing. -/
  | done
  deriving DecidableEq, Repr

namespace Operation

/-- What an operation answers, and the buffer behind it. A measurement that fails leaves the buffer
as it is. -/
def perform : Operation → CodeBuffer → Except CodeError Answer × CodeBuffer
  | newLabel, b => (.ok (.label b.newLabel.1), b.newLabel.2)
  | emit i, b => (.ok .done, b.emit i)
  | guard g, b => (.ok .done, b.guard g)
  | measure, b =>
    match b.measure with
    | .ok (m, b') => (.ok (.sizes m), b')
    | .error e => (.error e, b)

/-- The instruction that an operation appends, if it appends one. -/
def insn? : Operation → Option Insn
  | emit i => some i
  | _ => none

/-- The entry that an operation adds to the exception table, if it adds one. -/
def guard? : Operation → Option Guard
  | guard g => some g
  | _ => none

end Operation

/-- The answers of a buffer to operations, and the buffer behind them. -/
def performAll (b : CodeBuffer) : List Operation → List (Except CodeError Answer) × CodeBuffer
  | [] => ([], b)
  | op :: ops =>
    let (answer, b') := op.perform b
    let (answers, b'') := performAll b' ops
    (answer :: answers, b'')

/-- The label that an answer hands out, if it is one. -/
def label? : Except CodeError Answer → Option Label
  | .ok (.label l) => some l
  | _ => none

/-- The labels that answers hand out. -/
def handedOut (answers : List (Except CodeError Answer)) : List Label :=
  answers.filterMap label?

/-- The sizes that a buffer keeps are those of its code. -/
def Current (b : CodeBuffer) : Prop :=
  ∀ m, b.sizes = some m → b.maxSizes = .ok m

variable {b b' : CodeBuffer} {op : Operation} {ops : List Operation}

theorem performAll_cons (b : CodeBuffer) (op : Operation) (ops : List Operation) :
    b.performAll (op :: ops) =
      ((op.perform b).1 :: ((op.perform b).2.performAll ops).1,
        ((op.perform b).2.performAll ops).2) :=
  rfl

/-- A measurement comes to the sizes of the code, and keeps them if there are any. -/
theorem perform_measure (b : CodeBuffer) :
    Operation.measure.perform b = (b.maxSizes.map .sizes,
      match b.maxSizes with
      | .ok m => { b with sizes := some m }
      | .error _ => b) := by
  simp only [Operation.perform, measure]
  cases b.maxSizes <;> rfl

/-- A buffer after an operation: a label is counted, the code changes and no sizes are kept, or the
sizes are kept that the code has, unless it has none. -/
theorem perform_cases (op : Operation) (b : CodeBuffer) :
    op = .newLabel ∧ (op.perform b).2 = { b with nextLabel := b.nextLabel + 1 } ∨
    (∃ i, op = .emit i ∧ (op.perform b).2 = { b with insns := b.insns ++ [i], sizes := none }) ∨
    (∃ g, op = .guard g ∧ (op.perform b).2 = { b with guards := b.guards ++ [g], sizes := none }) ∨
    op = .measure ∧ ((∃ m, b.maxSizes = .ok m ∧ (op.perform b).2 = { b with sizes := some m }) ∨
      (op.perform b).2 = b) := by
  cases op with
  | newLabel => exact .inl ⟨rfl, rfl⟩
  | emit i => exact .inr (.inl ⟨i, rfl, rfl⟩)
  | guard g => exact .inr (.inr (.inl ⟨g, rfl, rfl⟩))
  | measure =>
    -- Sizes are kept only if they can be computed.
    refine .inr (.inr (.inr ⟨rfl, ?_⟩))
    rw [perform_measure]
    cases hm : b.maxSizes with
    | ok m => exact .inl ⟨m, rfl, rfl⟩
    | error e => exact .inr rfl

section Step

/-- The sizes that are kept are those of the code, whatever is done next. -/
theorem current_perform (op : Operation) (hb : b.Current) : (op.perform b).2.Current := by
  intro m hm
  rcases perform_cases op b with ⟨-, heq⟩ | ⟨i, -, heq⟩ | ⟨g, -, heq⟩ |
    ⟨-, ⟨m', hok, heq⟩ | heq⟩ <;> rw [heq] at hm ⊢
  · -- Sizes do not depend on the labels that were handed out.
    exact hb m hm
  · -- Code that has changed has no sizes that are kept.
    cases hm
  · cases hm
  · cases hm
    exact hok
  · exact hb m hm

theorem insns_perform (op : Operation) (b : CodeBuffer) :
    (op.perform b).2.insns = b.insns ++ op.insn?.toList := by
  rcases perform_cases op b with ⟨rfl, heq⟩ | ⟨i, rfl, heq⟩ | ⟨g, rfl, heq⟩ |
    ⟨rfl, ⟨m, -, heq⟩ | heq⟩ <;> simp [heq, Operation.insn?]

theorem guards_perform (op : Operation) (b : CodeBuffer) :
    (op.perform b).2.guards = b.guards ++ op.guard?.toList := by
  rcases perform_cases op b with ⟨rfl, heq⟩ | ⟨i, rfl, heq⟩ | ⟨g, rfl, heq⟩ |
    ⟨rfl, ⟨m, -, heq⟩ | heq⟩ <;> simp [heq, Operation.guard?]

theorem argSlots_perform (op : Operation) (b : CodeBuffer) :
    (op.perform b).2.argSlots = b.argSlots := by
  rcases perform_cases op b with ⟨-, heq⟩ | ⟨i, -, heq⟩ | ⟨g, -, heq⟩ | ⟨-, ⟨m, -, heq⟩ | heq⟩ <;>
    rw [heq]

/-- Only an operation that asks for a label gets one, with the number that comes next. -/
theorem label?_perform (op : Operation) (b : CodeBuffer) :
    if op = .newLabel then
      label? (op.perform b).1 = some ⟨b.nextLabel.toNat⟩ ∧
        (op.perform b).2.nextLabel = b.nextLabel + 1
    else label? (op.perform b).1 = none ∧ (op.perform b).2.nextLabel = b.nextLabel := by
  cases op with
  | newLabel => exact ⟨rfl, rfl⟩
  | emit i => exact ⟨rfl, rfl⟩
  | guard g => exact ⟨rfl, rfl⟩
  | measure =>
    rw [if_neg nofun, perform_measure]
    cases b.maxSizes <;> exact ⟨rfl, rfl⟩

end Step

section Run

/-- The sizes that are kept are those of the code after any operations. -/
theorem current_performAll (hb : b.Current) : (b.performAll ops).2.Current := by
  induction ops generalizing b with
  | nil => exact hb
  | cons op ops ih => exact ih (current_perform op hb)

/-- The instructions are those that were appended, in their order. -/
theorem insns_performAll :
    (b.performAll ops).2.insns = b.insns ++ ops.filterMap Operation.insn? := by
  induction ops generalizing b with
  | nil => exact (List.append_nil _).symm
  | cons op ops ih =>
    rw [performAll_cons, ih, insns_perform, List.append_assoc]
    cases h : op.insn? <;> simp [h]

/-- The exception table has the entries that were added, in their order. -/
theorem guards_performAll :
    (b.performAll ops).2.guards = b.guards ++ ops.filterMap Operation.guard? := by
  induction ops generalizing b with
  | nil => exact (List.append_nil _).symm
  | cons op ops ih =>
    rw [performAll_cons, ih, guards_perform, List.append_assoc]
    cases h : op.guard? <;> simp [h]

theorem argSlots_performAll : (b.performAll ops).2.argSlots = b.argSlots := by
  induction ops generalizing b with
  | nil => rfl
  | cons op ops ih => rw [performAll_cons, ih, argSlots_perform]

/-- As many labels are handed out as are asked for. Their numbers are consecutive words. -/
theorem handedOut_performAll :
    handedOut (b.performAll ops).1 =
      (List.range (ops.count .newLabel)).map fun k => ⟨(b.nextLabel + UInt32.ofNat k).toNat⟩ := by
  induction ops generalizing b with
  | nil => rfl
  | cons op ops ih =>
    have hlabel := label?_perform op b
    rw [performAll_cons, handedOut]
    by_cases hop : op = .newLabel
    · -- A label that is asked for takes the next number, and the others count from there on.
      obtain ⟨hsome, hnext⟩ := by simpa only [hop, if_true] using hlabel
      have hstep : ∀ k, b.nextLabel + 1 + UInt32.ofNat k = b.nextLabel + UInt32.ofNat (k + 1) := by
        intro k
        rw [Nat.add_comm k 1, UInt32.ofNat_add, UInt32.add_assoc]
        rfl
      rw [hop, List.filterMap_cons_some hsome, List.count_cons_self, List.range_succ_eq_map,
        List.map_cons, List.map_map]
      refine congrArg₂ _ (by simp) (ih.trans ?_)
      simp only [hnext, hstep, Function.comp_def, Nat.succ_eq_add_one]
    · -- Anything else hands out nothing and leaves the next number as it is.
      obtain ⟨hnone, hnext⟩ := by simpa only [hop, if_false] using hlabel
      rw [List.filterMap_cons_none hnone, List.count_cons_of_ne hop, ← hnext]
      exact ih

/-- The labels of a buffer that was empty at first are numbered from zero. -/
theorem handedOut_new (argSlots : Nat) :
    handedOut ((new argSlots).performAll ops).1 =
      (List.range (ops.count .newLabel)).map fun k => ⟨k % UInt32.size⟩ := by
  rw [handedOut_performAll]
  simp [new]

/-- No label is handed out twice, as long as there are words for them. -/
theorem nodup_handedOut (argSlots : Nat) (h : ops.count .newLabel ≤ UInt32.size) :
    (handedOut ((new argSlots).performAll ops).1).Nodup := by
  rw [handedOut_new]
  refine List.nodup_range.map_on fun i hi j hj heq => ?_
  -- All numbers that were handed out are below the size of a word, so that none started over.
  have hlt : ∀ k ∈ List.range (ops.count .newLabel), k % UInt32.size = k := fun k hk =>
    Nat.mod_eq_of_lt ((List.mem_range.1 hk).trans_le h)
  rw [← hlt i hi, ← hlt j hj, Label.mk.inj heq]

end Run

/-- The code of a buffer is finished as it is measured, whether its sizes were kept or not. -/
theorem finish_eq (hb : b.Current) :
    b.finish = b.maxSizes.map fun m => ⟨b.insns, b.guards, m⟩ := by
  unfold finish
  cases hsizes : b.sizes with
  | some m => rw [hb m hsizes]; rfl
  | none => cases b.maxSizes <;> rfl

/-- A buffer after any operations, from an empty one on. It holds what was put into it. The sizes
that it keeps, if it keeps any, are those of this code. A measurement comes to the sizes of the code
and keeps them, and one that fails changes nothing. Labels are numbered from zero, so that none is
handed out twice before all words of 32 bits are used. The code is finished iff it can be measured,
with the instructions and the entries as they are and the sizes that they have. -/
theorem settled_of_performAll (argSlots : Nat) (ops : List Operation) :
    let b := ((new argSlots).performAll ops).2
    (b.insns = ops.filterMap Operation.insn? ∧ b.guards = ops.filterMap Operation.guard?) ∧
    (∀ m, b.sizes = some m → Machine.maxSizes b.insns b.guards argSlots = .ok m) ∧
    (∀ m, Machine.maxSizes b.insns b.guards argSlots = .ok m →
      Operation.measure.perform b = (.ok (.sizes m), { b with sizes := some m })) ∧
    (∀ e, Machine.maxSizes b.insns b.guards argSlots = .error e →
      Operation.measure.perform b = (.error e, b)) ∧
    (handedOut ((new argSlots).performAll ops).1 =
        (List.range (ops.count .newLabel)).map (fun k => ⟨k % UInt32.size⟩) ∧
      (ops.count .newLabel ≤ UInt32.size →
        (handedOut ((new argSlots).performAll ops).1).Nodup)) ∧
    b.finish = (Machine.maxSizes b.insns b.guards argSlots).map fun m =>
      ⟨b.insns, b.guards, m⟩ := by
  intro b
  have hempty : (new argSlots).Current := by
    intro m hm
    cases hm
  have hcurrent : b.Current := current_performAll hempty
  -- The sizes are measured with the slots of the arguments that the buffer was made for.
  have hmeasure : b.maxSizes = Machine.maxSizes b.insns b.guards argSlots := by
    rw [CodeBuffer.maxSizes, argSlots_performAll]
    rfl
  rw [← hmeasure]
  refine ⟨⟨insns_performAll, guards_performAll⟩, hcurrent, fun m hm => ?_, fun e he => ?_,
    ⟨handedOut_new argSlots, nodup_handedOut argSlots⟩, finish_eq hcurrent⟩
  · rw [perform_measure, hm]
    rfl
  · rw [perform_measure, he]
    rfl

section Bounce

/-- A jump to a label that is bound behind it. The code is measured too early, then measured, and
another label is asked for. -/
def bounce : List Operation :=
  [.newLabel, .emit (.jump .goto ⟨0⟩), .measure, .emit (.label ⟨0⟩), .emit (.simple .return),
    .measure, .newLabel]

/-- `settled_of_performAll` at `bounce`: the early measurement keeps nothing, the later one does. -/
theorem bounce_settled :
    ((new 2).performAll bounce).2.sizes = some ⟨0, 2⟩ ∧
      Machine.maxSizes [.jump .goto ⟨0⟩, .label ⟨0⟩, .simple .return] [] 2 = .ok ⟨0, 2⟩ ∧
      (bounce.count .newLabel ≤ UInt32.size ∧
        handedOut ((new 2).performAll bounce).1 = [⟨0⟩, ⟨1⟩] ∧
        (handedOut ((new 2).performAll bounce).1).Nodup) ∧
      ((new 2).performAll bounce).2.finish =
        .ok ⟨[.jump .goto ⟨0⟩, .label ⟨0⟩, .simple .return], [], ⟨0, 2⟩⟩ := by
  have hsizes : ((new 2).performAll bounce).2.sizes = some ⟨0, 2⟩ := by cbv
  have hcount : bounce.count .newLabel ≤ UInt32.size := by decide
  obtain ⟨⟨hinsns, hguards⟩, hcurrent, -, -, ⟨hlabels, hnodup⟩, hfinish⟩ :=
    settled_of_performAll 2 bounce
  have hmeasured := hcurrent _ hsizes
  rw [hmeasured] at hfinish
  rw [hinsns, hguards] at hmeasured hfinish
  exact ⟨hsizes, hmeasured, ⟨hcount, hlabels, hnodup hcount⟩, hfinish⟩

end Bounce

end BytecodeLowering.Machine.CodeBuffer
