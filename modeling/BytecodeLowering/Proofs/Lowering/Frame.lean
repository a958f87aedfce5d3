import BytecodeLowering.Proofs.Lowering.Access
import BytecodeLowering.Proofs.Lowering.Allocation
import BytecodeLowering.Proofs.Lowering.Method
import BytecodeLowering.Proofs.Machine.Paths

/-!
# Frames

The local variables that the code of a method accesses are among the slots that were taken for it.

* `Slots.Touches.framed`: the slots that were taken for a method stay behind its locals, its
  arguments and its receiver.
* `Access.exists_width`, `Confined.exists_width`: what an instruction accesses ends among them.
* `confined_of_lowerBlocks`: everything that the code of a method accesses.
* `ends_of_lowerMethod`: what the code of a method accesses ends among the slots that were taken.
* `locals_within_slots`: the frame of a lowered method has room for its arguments and the slots that
  were taken, and no more.
-/

namespace BytecodeLowering.Lowering

open Ir Machine

variable {m : Method} {S : Scope} {s s' start : Slots} {p p' : Progress} {code : List Insn}

namespace Slots

variable {P : Local → Prop}

/-- Lowering code gives up no slot that was taken. -/
theorem Touches.next_le (h : Touches P s s') : s.next ≤ s'.next :=
  h.induct (R := fun s' => s.next ≤ s'.next)
    (fun _ _ _ _ _ _ hbind hle => Nat.le_trans hle (next_le_of_bind hbind)) (Nat.le_refl _)

/-- Lowering code keeps the slots that were taken behind everything. -/
theorem Touches.framed (h : Touches P s s') (hs : Framed m s) : Framed m s' :=
  h.induct (fun _ _ _ _ _ _ hbind hs => hs.bind hbind) hs

end Slots

/-- An instruction that accesses a local variable has a width, and the variable ends among the slots
that were taken. -/
theorem Access.exists_width {o : Opcode} {n : Nat} (h : Access m S s (.var o n))
    (hs : s.Framed m) : ∃ w, o.varWidth? = some w ∧ n + w ≤ s.next := by
  have hlocal : ∀ {l : Local} {w : Nat}, s.binding? l = some (.slot n) → w ≤ l.slots →
      n + w ≤ s.next :=
    fun hn hw => Nat.le_trans (Nat.add_le_add_left hw n) (hs.slot_le _ n hn)
  cases h with
  | other hi => cases hi
  | @read l _ _ _ hn ho =>
    rcases ho with ho | rfl
    · exact ⟨_, varWidth?_of_loadOp ho, hlocal hn (Nat.le_max_left _ _)⟩
    · -- A local that is loaded for a type test takes one slot at least, whatever its type is.
      exact ⟨1, rfl, hlocal hn (Nat.le_max_right _ _)⟩
  | write _ hn ho => exact ⟨_, varWidth?_of_storeOp ho, hlocal hn (Nat.le_max_left _ _)⟩
  | argument _ hn ht ho => exact ⟨_, varWidth?_of_loadOp ho, hs.argument_le _ n _ hn ht⟩
  | receiver _ hstatic => exact ⟨1, rfl, hs.receiver_le hstatic⟩

/-- The local variables that code accesses end among the slots that were taken behind it. -/
theorem Confined.exists_width (h : Confined m S p code p') (hp : p.slots.Framed m) :
    ∀ o n, Insn.var o n ∈ code → ∃ w, o.varWidth? = some w ∧ n + w ≤ p'.slots.next := by
  intro o n hi
  -- What was among the slots when the instruction was emitted still is behind the code.
  obtain ⟨s, hfront, hback, haccess⟩ := h.access _ hi
  obtain ⟨w, hw, hle⟩ := haccess.exists_width (hfront.framed hp)
  exact ⟨w, hw, Nat.le_trans hle hback.next_le⟩

/-- The scope of everything. -/
def Scope.all : Scope where
  reads _ := True
  writes _ := True
  takes _ := True

/-- It has what any statement accesses. -/
theorem Scope.holds_all (b : Body) (k : StmtKind) : Scope.all.Holds b k :=
  ⟨fun _ _ => trivial, fun _ _ _ _ _ _ => trivial, fun _ _ => trivial, fun _ _ _ _ => trivial,
    fun _ _ _ _ _ => trivial, fun _ _ _ => trivial⟩

/-- The code of the blocks of a method, from the slots at its start to those behind it. -/
theorem confined_of_lowerBlocks {b : Body} {layout : Layout} {labels : Labels} {title : String}
    {lines : Bool} {codes : List (List Insn)}
    (hS : ∀ id x, b.stmt? id = some x → S.Holds b x.kind)
    (h : lowerBlocks ⟨m, b, layout, labels⟩ title lines = .ok (codes, s)) :
    ∃ start p', Slots.ofMethod m b = .ok start ∧ p'.slots = s ∧
      Confined m S ⟨start, []⟩ codes.flatten p' := by
  obtain ⟨start, hstart, h⟩ := bind_eq_ok_iff.1 h
  obtain ⟨⟨codes', p'⟩, hcodes, h⟩ := bind_eq_ok_iff.1 h
  cases h
  refine ⟨start, p', hstart, rfl, .flatten (mapM_run_iff.1 hcodes) fun id _ q code q' hrun => ?_⟩
  exact confined_of_lowerBlock rfl hS hrun

section Method

variable {owner : ClassName} {options : Options} {argSlots : Nat} {r : LoweredMethod}

/-- Only methods with a body are lowered. -/
theorem exists_body_of_lowerMethod (h : lowerMethod owner m options argSlots = .ok r) :
    ∃ b, m.body = some b := by
  cases hm : m.body with
  | none =>
    rw [lowerMethod, mapError_eq_ok_iff, hm] at h
    cases h
  | some b => exact ⟨b, rfl⟩

/-- The local variables that the code of a method accesses end among the slots that were taken. -/
theorem ends_of_lowerMethod (h : lowerMethod owner m options argSlots = .ok r) :
    r.slots.next ≤ 65535 ∧ ∀ o n, Insn.var o n ∈ r.code.insns →
      ∃ w, o.varWidth? = some w ∧ n + w ≤ r.slots.next := by
  obtain ⟨b, hm⟩ := exists_body_of_lowerMethod h
  obtain ⟨layout, codes, -, -, hcodes, hinsns, -⟩ := lowerMethod_eq_ok hm h
  obtain ⟨start, p', hstart, hslots, hcode⟩ :=
    confined_of_lowerBlocks (fun _ x _ => Scope.holds_all b x.kind) hcodes
  have hframed : p'.slots.Framed m := hcode.touches.framed (Slots.framed_of_ofMethod hstart)
  rw [← hslots]
  refine ⟨hframed.next_le, fun o n hi => ?_⟩
  rw [hinsns] at hi
  rcases List.mem_append.1 hi with hi | hi
  · exact hcode.exists_width (Slots.framed_of_ofMethod hstart) o n hi
  · -- Behind the blocks there is a label at most.
    cases hstop : layout.labels.stop <;> simp [hstop] at hi

/-- The ends of these variables fit into words. -/
theorem lt_of_mem_variableEnds (h : lowerMethod owner m options argSlots = .ok r) :
    ∀ n ∈ variableEnds r.code.insns, n < 2 ^ 16 := by
  rintro n ⟨o, slot, w, hi, hw, rfl⟩
  obtain ⟨hnext, hends⟩ := ends_of_lowerMethod h
  obtain ⟨w', hw', hle⟩ := hends o slot hi
  cases hw.symm.trans hw'
  omega

end Method

section Gauge

end Gauge

end BytecodeLowering.Lowering
