import BytecodeLowering.Lowering.Class
import BytecodeLowering.Proofs.Lowering.Disjoint
import BytecodeLowering.Proofs.Lowering.Signature
import Mathlib

/-!
# The area of the arguments

The slots of the arguments of a method are counted twice: from the types of its parameters when its
locals are given their slots, and from the text of its descriptor when its code is put together.

* `isStatic_methodHeader`: the flags of a method tell whether it belongs to its class.
* `exists_paramSlots`, `ofMethod_eq_unbound`, `ofMethod_eq_ok`: the slots of a method whose
  parameters do not reach too far.
* `argumentArea_eq`: both counts agree, and with the sum of the widths of the parameters.
-/

namespace BytecodeLowering.Lowering

open Ir Machine

section Flags

variable {ms : List Modifier}

/-- The bit of a flag in either of two sets of flags. -/
theorem or_and_distrib_access (flags more bit : UInt16) :
    (flags ||| more) &&& bit = (flags &&& bit) ||| (more &&& bit) := by
  apply UInt16.eq_of_toBitVec_eq
  ext i
  simp [Bool.and_or_distrib_right]

/-- No other modifier has the flag of `static`. -/
theorem accessFlag_and_static (m : Modifier) :
    accessFlag m &&& Access.static = if m = .static then Access.static else 0 := by
  cases m <;> decide

/-- Among flags that are added to others, that of `static` is there if it was or is added. -/
theorem foldl_accessFlag_and_static (flags : UInt16) :
    ms.foldl (fun flags m => flags ||| accessFlag m) flags &&& Access.static =
      if .static ∈ ms then Access.static else flags &&& Access.static := by
  induction ms generalizing flags with
  | nil => simp
  | cons m ms ih =>
    rw [List.foldl_cons, ih, or_and_distrib_access, accessFlag_and_static]
    by_cases hm : m = .static
    · -- Bit by bit: added to some of its bits, the flag is all of them.
      have habsorb : (flags &&& Access.static) ||| Access.static = Access.static := by
        apply UInt16.eq_of_toBitVec_eq
        ext i
        simp only [UInt16.toBitVec_or, UInt16.toBitVec_and, BitVec.getElem_or, BitVec.getElem_and]
        cases Access.static.toBitVec[i] <;> simp
      simp [hm, habsorb]
    · have hne : Modifier.static ≠ m := fun h => hm h.symm
      simp [hm, hne]

/-- The flags of modifiers have that of `static` if it is one of them. -/
theorem accessFlags_and_static : accessFlags ms &&& Access.static ≠ 0 ↔ .static ∈ ms := by
  rw [accessFlags, foldl_accessFlag_and_static]
  split <;> simp_all [Access.static]

/-- The header of a method tells whether the method belongs to its class. -/
theorem isStatic_methodHeader {m : Method} {header : MethodHeader}
    (h : methodHeader m = .ok header) : header.isStatic = m.isStatic := by
  obtain ⟨desc, -, h⟩ := bind_eq_ok_iff.1 h
  cases h
  rw [Bool.eq_iff_iff, MethodHeader.isStatic, bne_iff_ne, accessFlags_and_static, Method.isStatic,
    Method.has, decide_eq_true_iff]

end Flags

section Slots

variable {m : Method} {b : Body}

/-- Parameters that do not reach too far have slots. -/
theorem exists_paramSlots (owner : String) {slot : Nat} {ts : List Ty}
    (h : slot + argumentPlace ts ts.length ≤ slotLimit) :
    ∃ slots behind, paramSlots owner slot ts = .ok (slots, behind) := by
  induction ts generalizing slot with
  | nil => exact ⟨[], slot, rfl⟩
  | cons t ts ih =>
    -- The end of all parameters is that of the ones behind the first, moved by its width.
    have hsum : argumentPlace (t :: ts) (t :: ts).length =
        t.width + argumentPlace ts ts.length := by
      simp [argumentPlace]
    rw [hsum] at h
    have hfirst : slot + t.width ≤ slotLimit := by omega
    have hbehind : slot + t.width + argumentPlace ts ts.length ≤ slotLimit := by omega
    obtain ⟨slots, behind, hrest⟩ := ih hbehind
    exact ⟨slot :: slots, behind, paramSlots_cons_eq_ok_iff.2 ⟨hfirst, slots, hrest, rfl⟩⟩

/-- Statements that bind no locals leave the slots as they are. -/
theorem foldlM_seed_eq_ok {isStatic : Bool} {s : Slots} {stmts : List Stmt}
    (h : ∀ x ∈ stmts, ∀ l source, x.kind ≠ .identity l source) :
    stmts.foldlM (Slots.seed isStatic) s = .ok s := by
  induction stmts with
  | nil => rfl
  | cons x xs ih =>
    have hx : Slots.seed isStatic s x = .ok s := by
      unfold Slots.seed
      split
      · exact absurd rfl (h _ List.mem_cons_self _ _)
      · rfl
    rw [List.foldlM_cons, hx]
    exact ih fun y hy => h y (List.mem_cons_of_mem _ hy)

/-- The slots of a method at its start, if its body binds no locals: nothing is bound, and the other
locals come behind the arguments. -/
theorem ofMethod_eq_unbound (hend : argumentEnd m ≤ slotLimit)
    (hb : ∀ x ∈ b.stmts, ∀ l source, x.kind ≠ .identity l source) :
    Slots.ofMethod m b = .ok
      { params := (List.range m.params.length).map fun i =>
          argumentStart m + argumentPlace m.params i
        next := argumentEnd m
        first := argumentEnd m
        declared := b.defs.reverse } := by
  obtain ⟨slots, behind, hslots⟩ := exists_paramSlots m.name hend
  obtain ⟨rfl, rfl⟩ := paramSlots_eq_ok hslots
  exact bind_eq_ok_iff.2 ⟨_, hslots, foldlM_seed_eq_ok hb⟩

/-- The slots of a method at its start, if its body binds no locals: those of its arguments, one
behind the other, are taken. -/
theorem ofMethod_eq_ok (hend : argumentEnd m ≤ slotLimit)
    (hb : ∀ x ∈ b.stmts, ∀ l source, x.kind ≠ .identity l source) :
    ∃ s, Slots.ofMethod m b = .ok s ∧ s.next = argumentEnd m ∧
      ∀ i, s.param? i =
        if i < m.params.length then some (argumentStart m + argumentPlace m.params i)
        else none := by
  refine ⟨_, ofMethod_eq_unbound hend hb, rfl, fun i => ?_⟩
  rw [Slots.param?]
  by_cases hi : i < m.params.length <;> simp [hi]

end Slots

section Area

variable {m : Method} {header : MethodHeader}

/-- The slots of the arguments reach as far as the sum of the widths of the parameters. -/
theorem argumentEnd_eq (m : Method) :
    argumentEnd m = argumentStart m + (m.params.map Ty.width).sum := by
  rw [argumentEnd, argumentPlace, List.take_length]

/-- The slots of the arguments of a method whose parameters are all of one type. -/
theorem argumentEnd_of_replicate {n : Nat} {t : Ty} (h : m.params = List.replicate n t) :
    argumentEnd m = argumentStart m + n * t.width := by
  rw [argumentEnd_eq, h, List.map_replicate, List.sum_replicate_nat]

/-- The area of the arguments of a method is the same by its parameters and by its descriptor: the
code of the method is put together with as many slots for arguments as its locals start behind,
each parameter is where the sum of the widths in front of it says, and the descriptor has the widths
of the parameters and of the result. -/
theorem argumentArea_eq (hheader : methodHeader m = .ok header)
    (hparams : ∀ t ∈ m.params, t.Nameable) (hret : m.ret ≠ .void → m.ret.Nameable)
    (hsum : (m.params.map Ty.width).sum < 65535) :
    CodeBuffer.forDescriptor header.isStatic header.desc =
        .ok (.new ((if m.isStatic then 0 else 1) + (m.params.map Ty.width).sum)) ∧
      (∀ b : Body, (∀ x ∈ b.stmts, ∀ l source, x.kind ≠ .identity l source) →
        ∃ s, Slots.ofMethod m b = .ok s ∧
          s.next = (if m.isStatic then 0 else 1) + (m.params.map Ty.width).sum ∧
          ∀ i, s.param? i =
            if i < m.params.length then
              some ((if m.isStatic then 0 else 1) + ((m.params.take i).map Ty.width).sum)
            else none) ∧
      methodWidths header.desc = .ok ((m.params.map Ty.width).sum, m.ret.width) := by
  have hwidths : methodWidths header.desc = .ok ((m.params.map Ty.width).sum, m.ret.width) := by
    obtain ⟨desc, hdesc, h⟩ := bind_eq_ok_iff.1 hheader
    cases h
    exact methodWidths_of_methodDescriptor hparams hret hdesc
  refine ⟨?_, fun b hb => ?_, hwidths⟩
  · rw [CodeBuffer.forDescriptor, hwidths, isStatic_methodHeader hheader]
    cases m.isStatic
    · rw [Nat.add_comm]
      rfl
    · rw [Nat.add_comm]
      rfl
  · have hend : argumentEnd m ≤ slotLimit := by
      have hstart : argumentStart m ≤ 1 := by
        rw [argumentStart]
        split <;> omega
      rw [argumentEnd_eq, slotLimit]
      omega
    obtain ⟨s, hs, hnext, hparam⟩ := ofMethod_eq_ok hend hb
    exact ⟨s, hs, hnext.trans (argumentEnd_eq m), hparam⟩

end Area

section Spread

/-- An instance method with wide parameters, an array of wide values, and a class whose name has
parentheses and a letter of two bytes. -/
def spread : Method :=
  ⟨"spread", [.pub, .synchronized],
    [.prim .long, .array (.prim .double) 2, .object ⟨"a.(é)V"⟩, .prim .int], .prim .double, [],
    none, none⟩

/-- A body that binds no locals. -/
def idleBody : Body :=
  ⟨[], [⟨⟨0⟩, none, .nop⟩], ⟨[⟨⟨0⟩, [⟨0⟩], [], []⟩]⟩⟩

/-- `argumentArea_eq` at a method whose third parameter starts behind a wide one and an array. -/
theorem spread_argumentArea : ∃ header, methodHeader spread = .ok header ∧
    header.desc = "(J[[DLa/(é)V;I)D" ∧
    CodeBuffer.forDescriptor header.isStatic header.desc = .ok (.new 6) ∧
    (∃ s, Slots.ofMethod spread idleBody = .ok s ∧ s.next = 6 ∧ s.param? 2 = some 4 ∧
      s.param? 4 = none) ∧
    methodWidths header.desc = .ok (5, 2) := by
  have hparams : ∀ t ∈ spread.params, t.Nameable := by
    simp [spread, Ty.Nameable]
  have hheader : methodHeader spread =
      .ok ⟨accessFlags spread.modifiers, "spread", "(J[[DLa/(é)V;I)D", []⟩ := by
    cbv
  obtain ⟨hbuffer, hslots, hwidths⟩ :=
    argumentArea_eq hheader hparams (fun _ => trivial) (by decide)
  have hidle : ∀ x ∈ idleBody.stmts, ∀ l source, x.kind ≠ .identity l source := by
    intro x hx l source hkind
    obtain rfl := List.mem_singleton.1 hx
    cases hkind
  obtain ⟨s, hs, hnext, hparam⟩ := hslots idleBody hidle
  exact ⟨_, hheader, rfl, hbuffer, ⟨s, hs, hnext, hparam 2, hparam 4⟩, hwidths⟩

end Spread

end BytecodeLowering.Lowering
