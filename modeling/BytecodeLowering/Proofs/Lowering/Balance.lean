import BytecodeLowering.Proofs.Lowering.Signature
import BytecodeLowering.Proofs.Lowering.Straight
import BytecodeLowering.Proofs.Machine.Sound

/-!
# Balance of lowered code

The code of a statement leaves the operand stack as it found it, and that of an expression leaves
the value on it, if the operands have the widths that are asked for.

* `Ready`: nothing is kept on the operand stack between statements.
* `Balanced`: the effect of the code of something on the operand stack.
* `balanced_of_loadOperand`, `balanced_of_lowerExpr`, `balanced_of_lowerStmt` and the like: the
  effects of the parts of the lowering.
-/

namespace BytecodeLowering.Lowering

open Ir Machine

/-- No object waits for its constructor, and no local lives on the operand stack. -/
structure Ready (p : Progress) : Prop where
  /-- No object waits for its constructor. -/
  pending : p.pending = []
  /-- No local lives on the operand stack. -/
  notStack : ∀ l, p.slots.binding? l ≠ some .stack

/-- The code of something takes slots from the operand stack and leaves others there, and nothing
is kept there behind it. -/
structure Balanced (pops pushes : Nat) (code : List Insn) (p' : Progress) : Prop where
  /-- The effect of the code. -/
  turns : Turns pops pushes code
  /-- Nothing is kept behind it. -/
  ready : Ready p'

variable {p p' p'' : Progress} {code code' : List Insn} {pops slots pushes : Nat}

namespace Balanced

/-- No code leaves the stack as it is. -/
theorem nil (hp : Ready p) : Balanced pops pops [] p :=
  ⟨.nil, hp⟩

/-- Code that takes what the code in front of it leaves. -/
theorem append (h : Balanced pops slots code p') (h' : Balanced slots pushes code' p'') :
    Balanced pops pushes (code ++ code') p'' :=
  ⟨h.turns.append h'.turns, h'.ready⟩

/-- An instruction that takes what the code in front of it leaves. -/
theorem snoc {i : Insn} (h : Balanced pops slots code p') (hi : effect i = .ok (slots, pushes)) :
    Balanced pops pushes (code ++ [i]) p' :=
  ⟨h.turns.snoc hi, h.ready⟩

/-- What lies deeper on the stack stays there. -/
theorem below (n : Nat) (h : Balanced pops pushes code p') :
    Balanced (n + pops) (n + pushes) code p' :=
  ⟨h.turns.below n, h.ready⟩

/-- Code of two values one after the other leaves both. -/
theorem both {w w' : Nat} (h : Balanced 0 w code p') (h' : Balanced 0 w' code' p'') :
    Balanced 0 (w + w') (code ++ code') p'' :=
  h.append (h'.below w)

end Balanced

section Operands

/-- A local that is bound to a slot does not live on the stack. -/
theorem Ready.bind {l : Local} {n : Nat} {slots : Slots} (hp : Ready p)
    (h : p.slots.bind l (.slot n) = .ok slots) : Ready { p with slots := slots } := by
  refine ⟨hp.pending, fun l' => ?_⟩
  rw [Slots.binding?_bind h]
  split
  · simp
  · exact hp.notStack l'

/-- A local with slots of its own is placed there. -/
theorem Ready.resolve {l : Local} {b : Binding} {slots : Slots} (hp : Ready p) (hl : l.Stored)
    (h : p.slots.resolve l = .ok (b, slots)) :
    (∃ n, b = .slot n) ∧ Ready { p with slots := slots } := by
  rcases Slots.resolve_ok_iff.1 h with ⟨hb, rfl⟩ | ⟨-, rfl, hbind⟩
  · cases b with
    | slot n => exact ⟨⟨n, rfl⟩, hp⟩
    | stack => exact absurd hb (hp.notStack l)
  · obtain ⟨n, hn⟩ : ∃ n, p.slots.fresh l = .slot n := by
      cases hrole : l.role with
      | stackTemp => exact absurd hrole hl.notStack
      | _ => simp [Slots.fresh, hrole]
    rw [hn] at hbind
    exact ⟨⟨n, hn⟩, hp.bind hbind⟩

theorem Ready.place {l : Local} {b : Binding} (hp : Ready p) (hl : l.Stored)
    (h : place l p = .ok (b, p')) : (∃ n, b = .slot n) ∧ Ready p' := by
  obtain ⟨slots, hresolve, rfl⟩ := place_run_iff.1 h
  exact hp.resolve hl hresolve

theorem effect_of_loadOp {c : Category} {o : Opcode} {n : Nat} (h : loadOp c = .ok o) :
    effect (.var o n) = .ok (0, c.width) := by
  cases c <;> cases h <;> rfl

theorem effect_of_storeOp {c : Category} {o : Opcode} {n : Nat} (h : storeOp c = .ok o) :
    effect (.var o n) = .ok (c.width, 0) := by
  cases c <;> cases h <;> rfl

theorem balanced_of_loadLocal {l : Local} (hp : Ready p) (hl : l.Stored)
    (h : loadLocal l p = .ok (code, p')) : Balanced 0 l.ty.width code p' := by
  obtain ⟨b, hb, hcode⟩ := loadLocal_run_iff.1 h
  obtain ⟨⟨n, rfl⟩, hp'⟩ := hp.place hl hb
  rcases moveCode_eq_ok_iff.1 hcode with ⟨⟨⟩, -⟩ | ⟨_, o, ⟨⟩, ho, rfl⟩
  exact ⟨.insn (effect_of_loadOp ho), hp'⟩

theorem balanced_of_storeLocal {l : Local} (hp : Ready p) (hl : l.Stored)
    (h : storeLocal l p = .ok (code, p')) : Balanced l.ty.width 0 code p' := by
  obtain ⟨b, hb, hcode⟩ := storeLocal_run_iff.1 h
  obtain ⟨⟨n, rfl⟩, hp'⟩ := hp.place hl hb
  rcases moveCode_eq_ok_iff.1 hcode with ⟨⟨⟩, -⟩ | ⟨_, o, ⟨⟩, ho, rfl⟩
  exact ⟨.insn (effect_of_storeOp ho), hp'⟩

theorem effect_intCode (v : Int32) : effect (intCode v) = .ok (0, 1) := by
  unfold intCode
  split <;> try rfl
  split <;> try rfl
  split <;> rfl

theorem effect_wrapperLiteral (wrapper : String) :
    effect (wrapperLiteral wrapper) = .ok (0, 1) := by
  have hwidth : fieldWidth "Ljava/lang/Class;" = .ok 1 := by decide
  simp [wrapperLiteral, effect, hwidth, Except.mapError, bind, Except.bind, pure, Except.pure]

theorem effect_of_constantCode {c : Constant} {i : Insn} (h : constantCode c = .ok i) :
    effect i = .ok (0, c.ty.width) := by
  cases c with
  | int v => cases h; exact effect_intCode v
  | boolean v => cases h; exact effect_intCode _
  | long v =>
    cases h
    unfold longCode
    split <;> try rfl
    split <;> rfl
  | float v =>
    cases h
    unfold floatCode
    split <;> try rfl
    split <;> try rfl
    split <;> rfl
  | double v =>
    cases h
    unfold doubleCode
    split <;> try rfl
    split <;> rfl
  | string v => cases h; rfl
  | classOf t =>
    cases t with
    | prim p => cases h; exact effect_wrapperLiteral _
    | void => cases h; exact effect_wrapperLiteral _
    | array base dims => obtain ⟨_, -, rfl⟩ := map_eq_ok_iff.1 h; rfl
    | _ => cases h <;> rfl
  | null => cases h; rfl
  | methodHandle _ => obtain ⟨_, -, rfl⟩ := map_eq_ok_iff.1 h; rfl
  | methodType _ => obtain ⟨_, -, rfl⟩ := map_eq_ok_iff.1 h; rfl

theorem balanced_of_loadOperand {op : Operand} (hp : Ready p)
    (hop : ∀ l ∈ Ir.localsOf [op], l.Stored) (h : loadOperand op p = .ok (code, p')) :
    Balanced 0 op.ty.width code p' := by
  cases op with
  | var l => exact balanced_of_loadLocal hp (hop l (mem_localsOf.2 List.mem_cons_self)) h
  | const c =>
    obtain ⟨i, hi, rfl, rfl⟩ := loadConst_run_iff.1 h
    exact ⟨.insn (effect_of_constantCode hi), hp⟩

theorem balanced_of_loadOperands {ops : List Operand} (hp : Ready p)
    (hops : ∀ l ∈ Ir.localsOf ops, l.Stored) (h : loadOperands ops p = .ok (code, p')) :
    Balanced 0 (ops.map fun op => op.ty.width).sum code p' := by
  obtain ⟨codes, hcodes, rfl⟩ := loadOperands_run_iff.1 h
  clear h
  induction hcodes with
  | nil => exact .nil hp
  | @cons _ _ _ op ops _ _ hop _ ih =>
    obtain ⟨hhere, hrest⟩ := forall_mem_localsOf_cons.1 hops
    have hvalue := balanced_of_loadOperand hp hhere hop
    exact hvalue.both (ih hvalue.ready hrest)

theorem balanced_of_loadPair {lhs rhs : Operand} {left right : List Insn} {q : Progress}
    (hp : Ready p) (huses : ∀ l ∈ Ir.localsOf [lhs, rhs], l.Stored)
    (hleft : loadOperand lhs p = .ok (left, q)) (hright : loadOperand rhs q = .ok (right, p')) :
    Balanced 0 (lhs.ty.width + rhs.ty.width) (left ++ right) p' := by
  obtain ⟨hlhs, hrhs⟩ := forall_mem_localsOf_cons.1 huses
  have hfirst := balanced_of_loadOperand hp hlhs hleft
  exact hfirst.both (balanced_of_loadOperand hfirst.ready hrhs hright)

end Operands

section Expressions

/-- A binary operation takes two operands of its category, or a count in place of the second one,
and leaves a value of the category, or an integer that tells how they compare. -/
theorem effect_of_binaryOp {op : BinOp} {c : Category} {o : Opcode} (h : binaryOp op c = .ok o) :
    effect (.simple o) = .ok (c.width + (if op.isShift then 1 else c.width),
      if op.isComparison then 1 else c.width) := by
  cases op <;> cases c <;> cases h <;> rfl

theorem effect_of_negOp {c : Category} {o : Opcode} (h : negOp c = .ok o) :
    effect (.simple o) = .ok (c.width, c.width) := by
  cases c <;> cases h <;> rfl

/-- A type whose category tells nothing is one of references. -/
theorem category_of_knownCategory?_eq_none {t : Ty} (h : knownCategory? t = none) :
    t.category = .reference := by
  cases t <;> first | rfl | cases h

theorem category_of_knownCategory?_eq_some {t : Ty} {c : Category}
    (h : knownCategory? t = some c) : t.category = c := by
  cases t <;> first | exact Option.some.inj h | cases h

/-- An operator is taken to work on values of the width of its first operand. -/
theorem width_operatorCategory {op : BinOp} {lhs rhs : Ty}
    (h : op.isShift = false → lhs.category = rhs.category) :
    (operatorCategory op lhs rhs).width = lhs.width := by
  rw [operatorCategory, Ty.width]
  cases hlhs : knownCategory? lhs with
  | some c => simp only [category_of_knownCategory?_eq_some hlhs]
  | none =>
    -- The category of the second operand counts only where the first one does not tell it.
    have hreference := category_of_knownCategory?_eq_none hlhs
    simp only [hreference]
    cases hshift : op.isShift with
    | true => rfl
    | false =>
      cases hrhs : knownCategory? rhs with
      | some c =>
        have hc := category_of_knownCategory?_eq_some hrhs
        rw [← h hshift, hreference] at hc
        rw [← hc]
        rfl
      | none => rfl

theorem balanced_of_lowerBinary {op : BinOp} {lhs rhs : Operand} (hp : Ready p)
    (hfits : (Expr.binary op lhs rhs).Fits) (huses : ∀ l ∈ (Expr.binary op lhs rhs).uses, l.Stored)
    (h : lowerExpr (.binary op lhs rhs) p = .ok (code, p')) :
    Balanced 0 (Expr.binary op lhs rhs).width code p' := by
  obtain ⟨left, q, right, o, hleft, hright, ho, rfl⟩ := lowerBinary_run_iff.1 h
  refine (balanced_of_loadPair hp huses hleft hright).snoc ?_
  rw [Expr.Fits] at hfits
  have hwidth : (operatorCategory op lhs.ty rhs.ty).width = lhs.ty.width := by
    refine width_operatorCategory fun hshift => ?_
    rwa [if_neg (by simp [hshift])] at hfits
  rw [effect_of_binaryOp ho, hwidth, Expr.width]
  -- The second operand is the count of a shift, or one like the first.
  cases hshift : op.isShift with
  | true =>
    rw [if_pos hshift] at hfits
    simp only [hfits, if_true]
  | false =>
    rw [if_neg (by simp [hshift])] at hfits
    simp only [Bool.false_eq_true, if_false, Ty.width, hfits]

/-- The operations between two primitive types take a value of the one and leave one of the
other. -/
theorem turns_conversion (source target : Prim) :
    Turns source.category.width target.category.width
      ((conversion source target).map .simple) := by
  intro d
  cases source <;> cases target <;> rfl

theorem balanced_of_lowerCast {op : Operand} {target : Ty} (hp : Ready p)
    (hop : ∀ l ∈ Ir.localsOf [op], l.Stored) (h : lowerCast op target p = .ok (code, p')) :
    Balanced 0 target.width code p' := by
  cases href : target.isReference with
  | true =>
    obtain ⟨value, n, hprim, hvalue, -, rfl⟩ := (lowerCast_run_iff_of_isReference href).1 h
    have hvoid : op.ty ≠ .void := by
      cases op with
      | var l => exact (hop l (mem_localsOf.2 List.mem_cons_self)).notVoid
      | const c => cases c <;> exact nofun
    -- What is neither primitive nor without a value is a reference.
    have hwidth : op.ty.width = 1 := by
      cases hty : op.ty <;> simp_all [Ty.prim?, Ty.width, Ty.category, Category.width]
    have htarget : target.width = 1 := by
      cases target <;> first | rfl | cases href
    rw [htarget]
    exact (hwidth ▸ balanced_of_loadOperand hp hop hvalue).snoc rfl
  | false =>
    obtain ⟨convert, value, hconvert, hvalue, rfl⟩ :=
      (lowerCast_run_iff_of_not_isReference href).1 h
    have hvalue := balanced_of_loadOperand hp hop hvalue
    unfold castCode at hconvert
    split at hconvert
    · rename_i source target' hsource
      cases hconvert
      rw [hsource] at hvalue
      exact hvalue.append ⟨turns_conversion source target', hvalue.ready⟩
    · cases hconvert

theorem balanced_of_loadTested {op : Operand} (hp : Ready p)
    (hop : ∀ l ∈ Ir.localsOf [op], l.Stored) (h : loadTested op p = .ok (code, p')) :
    Balanced 0 1 code p' := by
  obtain ⟨l, b, rfl, hb, hcode⟩ := loadTested_run_iff.1 h
  obtain ⟨⟨n, rfl⟩, hp'⟩ := hp.place (hop l (mem_localsOf.2 List.mem_cons_self)) hb
  rcases moveCode_eq_ok_iff.1 hcode with ⟨⟨⟩, -⟩ | ⟨_, o, ⟨⟩, ⟨⟩, rfl⟩
  exact ⟨.insn rfl, hp'⟩

theorem effect_of_newArrayInsn {element : Ty} {i : Insn} (h : newArrayInsn element = .ok i) :
    effect i = .ok (1, 1) := by
  unfold newArrayInsn at h
  split at h
  · cases h
    rfl
  · obtain ⟨n, -, rfl⟩ := map_eq_ok_iff.1 h
    rfl

theorem balanced_of_lowerNewArray {element : Ty} {size : Operand} (hp : Ready p)
    (hwidth : size.ty.width = 1) (hsize : ∀ l ∈ Ir.localsOf [size], l.Stored)
    (h : lowerNewArray element size p = .ok (code, p')) : Balanced 0 1 code p' := by
  obtain ⟨value, i, hvalue, hi, rfl⟩ := lowerNewArray_run_iff.1 h
  exact (hwidth ▸ balanced_of_loadOperand hp hsize hvalue).snoc (effect_of_newArrayInsn hi)

/-- The number of slots of the object of a field access. -/
def baseWidth (f : FieldRef) : Nat :=
  if f.isStatic then 0 else 1

theorem balanced_of_loadBase {f : FieldRef} (hp : Ready p) (hf : f.Fits)
    (huses : ∀ l ∈ f.uses, l.Stored) (h : loadBase f p = .ok (code, p')) :
    Balanced 0 (baseWidth f) code p' := by
  cases f with
  | ofObject base field =>
    have hload := balanced_of_loadLocal hp (huses base List.mem_cons_self) h
    rwa [hf.base base rfl] at hload
  | ofClass field =>
    obtain ⟨rfl, rfl⟩ := pure_run_iff.1 h
    exact .nil hp

/-- The read of a field takes its object, if there is one, and leaves the value. -/
theorem effect_getOp {f : FieldRef} {n : MemberName} (hf : f.field.ty.Nameable)
    (hn : fieldName f.field = .ok n) :
    effect (fieldInsn (getOp f) n) = .ok (baseWidth f, f.field.ty.width) := by
  obtain ⟨desc, hdesc, rfl⟩ := map_eq_ok_iff.1 hn
  have hwidth := fieldWidth_of_descriptor hf hdesc
  cases f <;> simp only [fieldInsn, effect, hwidth] <;> rfl

/-- The write of a field takes its object, if there is one, and the value. -/
theorem effect_putOp {f : FieldRef} {n : MemberName} (hf : f.field.ty.Nameable)
    (hn : fieldName f.field = .ok n) :
    effect (fieldInsn (putOp f) n) = .ok (baseWidth f + f.field.ty.width, 0) := by
  obtain ⟨desc, hdesc, rfl⟩ := map_eq_ok_iff.1 hn
  have hwidth := fieldWidth_of_descriptor hf hdesc
  cases f with
  | ofObject base field =>
    simp only [fieldInsn, effect, hwidth]
    rfl
  | ofClass field =>
    simp only [fieldInsn, effect, hwidth, baseWidth, FieldRef.isStatic, if_true, Nat.zero_add]
    rfl

theorem balanced_of_lowerField {f : FieldRef} (hp : Ready p) (hf : f.Fits)
    (huses : ∀ l ∈ f.uses, l.Stored) (h : lowerField f p = .ok (code, p')) :
    Balanced 0 f.field.ty.width code p' := by
  obtain ⟨n, base, hn, hbase, rfl⟩ := lowerField_run_iff.1 h
  exact (balanced_of_loadBase hp hf huses hbase).snoc (effect_getOp hf.ty hn)

theorem balanced_of_loadElementPlace {a : ArrayRef} (hp : Ready p) (ha : a.Fits)
    (huses : ∀ l ∈ a.uses, l.Stored) (h : loadElementPlace a p = .ok (code, p')) :
    Balanced 0 2 code p' := by
  obtain ⟨base, q, index, hbase, hindex, rfl⟩ := loadElementPlace_run_iff.1 h
  have hbase := balanced_of_loadLocal hp (huses _ List.mem_cons_self) hbase
  have hindex := balanced_of_loadOperand hbase.ready
    (fun l hl => huses l (List.mem_cons_of_mem _ hl)) hindex
  have hboth := hbase.both hindex
  rwa [ha.base, ha.index] at hboth

/-- The elements of an array are values of the width of its element type. -/
theorem width_of_elementOf {a : ArrayRef} {t : Ty} (ha : a.Fits) (h : elementOf a = .ok t) :
    t ≠ .void ∧ a.width = t.width := by
  have hcomponent : a.component? = some t := by
    unfold elementOf at h
    split at h
    · cases h
      assumption
    · cases h
  refine ⟨?_, by rw [ArrayRef.width, hcomponent]; rfl⟩
  rintro rfl
  -- The element type can be named in a descriptor, so that it is not void.
  have hnameable := ha.element
  rw [ArrayRef.component?] at hcomponent
  cases hty : a.base.ty with
  | array base dims =>
    simp only [hty, Ty.component?] at hcomponent
    split at hcomponent
    · cases hcomponent
    · cases hcomponent
      rw [hty] at hnameable
      exact hnameable.2
  | _ =>
    rw [hty] at hcomponent
    cases hcomponent

theorem effect_arrayLoadOp {t : Ty} (ht : t ≠ .void) :
    effect (.simple (arrayLoadOp t)) = .ok (2, t.width) := by
  cases t with
  | prim p => cases p <;> rfl
  | void => exact absurd rfl ht
  | _ => rfl

theorem effect_arrayStoreOp {t : Ty} (ht : t ≠ .void) :
    effect (.simple (arrayStoreOp t)) = .ok (2 + t.width, 0) := by
  cases t with
  | prim p => cases p <;> rfl
  | void => exact absurd rfl ht
  | _ => rfl

end Expressions

section Calls

/-- The descriptor of the method of a call has the widths of its arguments and of its result. -/
theorem methodWidths_of_fits {call : Invocation} {desc : String} (hcall : call.Fits)
    (h : methodDescriptor call.method.proto = .ok desc) :
    methodWidths desc =
      .ok ((call.args.map fun op => op.ty.width).sum, call.method.ret.width) := by
  rw [hcall.args]
  exact methodWidths_of_methodDescriptor hcall.params hcall.ret h

/-- A call of a class method takes the arguments. -/
theorem effect_of_callStatic {call : Invocation} {interface : Bool} {i : Insn} (hcall : call.Fits)
    (h : callInsn .invokestatic call.method interface = .ok i) :
    effect i = .ok ((call.args.map fun op => op.ty.width).sum, call.method.ret.width) := by
  obtain ⟨n, hn, rfl⟩ := map_eq_ok_iff.1 h
  obtain ⟨desc, hdesc, rfl⟩ := map_eq_ok_iff.1 hn
  simp only [effect, methodWidths_of_fits hcall hdesc]
  rfl

/-- A call of another method takes the receiver and the arguments. -/
theorem effect_of_callOn {call : Invocation} {op : Opcode} {interface : Bool} {i : Insn}
    (hop : op = .invokevirtual ∨ op = .invokespecial ∨ op = .invokeinterface)
    (hcall : call.Fits) (h : callInsn op call.method interface = .ok i) :
    effect i = .ok (1 + (call.args.map fun op => op.ty.width).sum, call.method.ret.width) := by
  obtain ⟨n, hn, rfl⟩ := map_eq_ok_iff.1 h
  obtain ⟨desc, hdesc, rfl⟩ := map_eq_ok_iff.1 hn
  rw [Nat.add_comm 1]
  rcases hop with rfl | rfl | rfl
  all_goals
    simp only [effect, methodWidths_of_fits hcall hdesc]
    rfl

theorem balanced_of_callOn {call : Invocation} {op : Opcode} {base : Local} {interface : Bool}
    (hop : op = .invokevirtual ∨ op = .invokespecial ∨ op = .invokeinterface) (hp : Ready p)
    (hcall : call.Fits) (hbase : call.base? = some base) (huses : ∀ l ∈ call.uses, l.Stored)
    (h : callOn op base call.method call.args interface p = .ok (code, p')) :
    Balanced 0 call.method.ret.width code p' := by
  obtain ⟨receiver, q, values, i, hreceiver, hvalues, hi, rfl⟩ := callOn_run_iff.1 h
  have hstored := huses base (by simp [Invocation.uses, hbase])
  have hreceiver := balanced_of_loadLocal hp hstored hreceiver
  have hvalues := balanced_of_loadOperands hreceiver.ready
    (fun l hl => huses l (by simp [Invocation.uses, hl])) hvalues
  rw [hcall.base base hbase] at hreceiver
  exact (hreceiver.both hvalues).snoc (effect_of_callOn hop hcall hi)

/-- Nothing is changed by the arguments of a bootstrap method but the places of locals. -/
theorem Ready.lowers_bootstrapArgument {ops : List Operand} {xs : List Loadable} (hp : Ready p)
    (hops : ∀ l ∈ Ir.localsOf ops, l.Stored) (h : Lowers bootstrapArgument p ops xs p') :
    Ready p' := by
  induction h with
  | nil => exact hp
  | @cons p q _ op ops _ _ hop _ ih =>
    obtain ⟨hhere, hrest⟩ := forall_mem_localsOf_cons.1 hops
    refine ih ?_ hrest
    rcases bootstrapArgument_run_iff.1 hop with ⟨c, -, -, rfl⟩ | ⟨l, n, rfl, hb, -⟩
    · exact hp
    · exact (hp.place (hhere l (mem_localsOf.2 List.mem_cons_self)) hb).2

theorem balanced_of_lowerCall {call : Invocation} (hp : Ready p) (hcall : call.Fits)
    (huses : ∀ l ∈ call.uses, l.Stored) (h : lowerCall call p = .ok (code, p')) :
    Balanced 0 call.method.ret.width code p' := by
  have hargs : ∀ l ∈ Ir.localsOf call.args, l.Stored := fun l hl =>
    huses l (by simp [Invocation.uses, hl])
  cases call with
  | static m args =>
    obtain ⟨values, i, hvalues, hi, rfl⟩ := lowerStatic_run_iff.1 h
    exact (balanced_of_loadOperands hp hargs hvalues).snoc (effect_of_callStatic hcall hi)
  | special base m args =>
    obtain ⟨done, q, hdone, h⟩ := lowerSpecial_run_iff.1 h
    -- No object waits for its constructor.
    obtain ⟨rfl, rfl⟩ : done = none ∧ p = q := by
      obtain ⟨slots, pending⟩ := p
      obtain rfl : pending = [] := hp.pending
      rcases takePending_run_iff.1 hdone with ⟨-, rfl, rfl⟩ | ⟨-, rfl, rfl⟩
      · exact ⟨rfl, rfl⟩
      · exact ⟨rfl, rfl⟩
    exact balanced_of_callOn (.inr (.inl rfl)) hp hcall rfl huses h
  | virtual base m args => exact balanced_of_callOn (.inl rfl) hp hcall rfl huses h
  | interface base m args => exact balanced_of_callOn (.inr (.inr rfl)) hp hcall rfl huses h
  | dynamic bootstrap bootstrapArgs m args =>
    obtain ⟨values, q, handle, constants, desc, hvalues, -, hconstants, hdesc, rfl⟩ :=
      lowerDynamic_run_iff.1 h
    have hvalues := balanced_of_loadOperands hp hargs hvalues
    -- The arguments of the bootstrap method are not passed on the operand stack, but their locals
    -- may be given slots.
    have hready := hvalues.ready.lowers_bootstrapArgument
      (fun l hl => huses l (List.mem_append_right _ hl)) hconstants
    refine Balanced.snoc ⟨hvalues.turns, hready⟩ ?_
    simp only [effect, methodWidths_of_fits hcall hdesc]
    rfl

end Calls

/-- The code of an expression leaves its value on the stack. -/
theorem balanced_of_lowerExpr {e : Expr} (hp : Ready p) (he : e.Fits)
    (huses : ∀ l ∈ e.uses, l.Stored) (h : lowerExpr e p = .ok (code, p')) :
    Balanced 0 e.width code p' := by
  cases e with
  | operand op => exact balanced_of_loadOperand hp huses h
  | binary op lhs rhs => exact balanced_of_lowerBinary hp he huses h
  | neg op =>
    obtain ⟨value, o, hvalue, ho, rfl⟩ := lowerNeg_run_iff.1 h
    exact (balanced_of_loadOperand hp huses hvalue).snoc (effect_of_negOp ho)
  | cast op target => exact balanced_of_lowerCast hp huses h
  | instanceOf op check =>
    obtain ⟨object, n, hobject, -, rfl⟩ := lowerInstanceOf_run_iff.1 h
    exact (balanced_of_loadTested hp huses hobject).snoc rfl
  | new n => cases he
  | newArray element size => exact balanced_of_lowerNewArray hp he huses h
  | newMultiArray t sizes =>
    obtain ⟨values, desc, -, -, hvalues, -, rfl⟩ := lowerNewMultiArray_run_iff.1 h
    have hsum : (sizes.map fun size => size.ty.width).sum = sizes.length := by
      rw [List.map_congr_left he]
      simp
    exact (balanced_of_loadOperands hp huses hvalues).snoc (by rw [hsum]; rfl)
  | length op =>
    obtain ⟨value, hvalue, rfl⟩ := lowerLength_run_iff.1 h
    have hwidth : op.ty.width = 1 := he
    exact (hwidth ▸ balanced_of_loadOperand hp huses hvalue).snoc rfl
  | invoke call => exact balanced_of_lowerCall hp he huses h
  | field f => exact balanced_of_lowerField hp he huses h
  | element a =>
    obtain ⟨t, place, ht, hplace, rfl⟩ := lowerElement_run_iff.1 h
    obtain ⟨hvoid, hwidth⟩ := width_of_elementOf he ht
    rw [Expr.width, hwidth]
    exact (balanced_of_loadElementPlace hp he huses hplace).snoc (effect_arrayLoadOp hvoid)
  | phi ls => cases (lift_run_iff.1 h).1

section Statements

theorem balanced_of_copyLocal {target source : Local} (hp : Ready p) (htarget : target.Stored)
    (hsource : source.Stored) (hwidth : source.ty.width = target.ty.width)
    (h : copyLocal target source p = .ok (code, p')) : Balanced 0 0 code p' := by
  rcases copyLocal_run_iff.1 h with ⟨-, rfl, rfl⟩ | ⟨-, origin, q, horigin, h⟩
  · exact .nil hp
  · have hq := (hp.place hsource horigin).2
    rcases h with ⟨hrole, -⟩ | ⟨-, destination, q', hdestination, h⟩
    · exact absurd hrole htarget.notHandler
    · have hq' := (hq.place htarget hdestination).2
      rcases h with ⟨-, -, rfl, rfl⟩ | ⟨-, load, q'', store, hload, hstore, rfl⟩
      · exact .nil hq'
      · have hload := balanced_of_loadLocal hq' hsource hload
        rw [hwidth] at hload
        exact hload.append (balanced_of_storeLocal hload.ready htarget hstore)

theorem balanced_of_assignValue {target : Local} {rhs : Expr} (hp : Ready p)
    (htarget : target.Stored) (hrhs : rhs.Fits) (huses : ∀ l ∈ rhs.uses, l.Stored)
    (hwidth : rhs.width = target.ty.width) (h : assignValue target rhs p = .ok (code, p')) :
    Balanced 0 0 code p' := by
  obtain ⟨value, q, store, hvalue, hstore, rfl⟩ := assignValue_run_iff.1 h
  have hvalue := balanced_of_lowerExpr hp hrhs huses hvalue
  rw [hwidth] at hvalue
  exact hvalue.append (balanced_of_storeLocal hvalue.ready htarget hstore)

/-- A local is ready where it gets a slot by its declaration. -/
theorem Ready.resolveDeclared {l : Local} {b : Binding} {slots : Slots} (hp : Ready p)
    (hl : l.Stored) (h : p.slots.resolveDeclared l = .ok (b, slots)) :
    Ready { p with slots := slots } := by
  rcases Slots.resolveDeclared_ok h with ⟨n, -, -, rfl, hbind⟩ | h
  · exact hp.bind hbind
  · exact (hp.resolve hl h).2

theorem balanced_of_assignLocal {isStatic : Bool} {target : Local} {rhs : Expr} (hp : Ready p)
    (htarget : target.Stored) (hrhs : rhs.Fits) (huses : ∀ l ∈ rhs.uses, l.Stored)
    (hwidth : rhs.width = target.ty.width)
    (h : assignLocal isStatic target rhs p = .ok (code, p')) : Balanced 0 0 code p' := by
  cases assigns_of_run h with
  | copy h =>
    exact balanced_of_copyLocal hp htarget (huses _ (mem_localsOf.2 List.mem_cons_self)) hwidth h
  | rebind hrole => exact absurd hrole htarget.notHandler
  | new => cases hrhs
  | newArray harray hplace hstore =>
    have harray := balanced_of_lowerNewArray hp hrhs huses harray
    have hone : target.ty.width = 1 := hwidth.symm
    rcases hplace with ⟨-, rfl⟩ | ⟨-, -, hb⟩
    · exact harray.append (hone ▸ balanced_of_storeLocal harray.ready htarget hstore)
    · have hready := (harray.ready.place htarget hb).2
      exact harray.append (hone ▸ balanced_of_storeLocal hready htarget hstore)
  | newStackArray harray _ hb =>
    have harray := balanced_of_lowerNewArray hp hrhs huses harray
    obtain ⟨⟨n, hn⟩, -⟩ := harray.ready.place htarget hb
    -- The array would stay on the operand stack, where no local of the method lives.
    cases hn
  | value _ hq hvalue =>
    rcases hq with rfl | hq
    · exact balanced_of_assignValue hp htarget hrhs huses hwidth hvalue
    · obtain ⟨slots, hresolve, rfl⟩ := onSlots_run_iff.1 hq
      exact balanced_of_assignValue (hp.resolveDeclared htarget hresolve) htarget hrhs huses hwidth
        hvalue

theorem balanced_of_lowerAssign {isStatic : Bool} {lhs : Place} {rhs : Expr} (hp : Ready p)
    (hlhs : lhs.Fits) (hrhs : rhs.Fits) (hwidth : rhs.width = lhs.width)
    (hdef : ∀ l, lhs.local? = some l → l.Stored) (huses : ∀ l ∈ lhs.uses ++ rhs.uses, l.Stored)
    (h : lowerAssign isStatic lhs rhs p = .ok (code, p')) : Balanced 0 0 code p' := by
  -- What the place needs is below the value, and the store takes both.
  have hplace : ∀ l ∈ lhs.uses, l.Stored := fun l hl => huses l (List.mem_append_left _ hl)
  have hvalue : ∀ l ∈ rhs.uses, l.Stored := fun l hl => huses l (List.mem_append_right _ hl)
  cases lhs with
  | var l => exact balanced_of_assignLocal hp (hdef l rfl) hrhs hvalue hwidth h
  | field f =>
    obtain ⟨op, n, base, q, value, rfl, hn, hbase, hload, rfl⟩ := lowerFieldStore_run_iff.1 h
    have hbase := balanced_of_loadBase hp hlhs hplace hbase
    have hload := balanced_of_loadOperand hbase.ready hvalue hload
    have hop : op.ty.width = f.field.ty.width := hwidth
    exact (hbase.both (hop ▸ hload)).snoc (effect_putOp hlhs.ty hn)
  | element a =>
    obtain ⟨op, t, place, q, value, rfl, ht, hpl, hload, rfl⟩ := lowerElementStore_run_iff.1 h
    obtain ⟨hvoid, helement⟩ := width_of_elementOf hlhs ht
    have hpl := balanced_of_loadElementPlace hp hlhs hplace hpl
    have hload := balanced_of_loadOperand hpl.ready hvalue hload
    have hop : op.ty.width = t.width := helement ▸ hwidth
    exact (hpl.both (hop ▸ hload)).snoc (effect_arrayStoreOp hvoid)

theorem balanced_of_lowerParameter {m : Method} {b : Body} {l : Local} {index : Nat}
    (hp : Ready p) (hl : l.Stored) (hfits : ∀ t, m.params[index]? = some t → l.ty.width = t.width)
    (h : lowerParameter m b l index p = .ok (code, p')) : Balanced 0 0 code p' := by
  obtain ⟨slot, t, -, ht, h⟩ := lowerParameter_run_iff.1 h
  rcases h with ⟨-, rfl, rfl⟩ | ⟨-, binding, hb, h⟩
  · exact .nil hp
  · obtain ⟨⟨n, rfl⟩, hp'⟩ := hp.place hl hb
    rcases h with ⟨-, rfl⟩ | ⟨-, load, store, hload, hstore, rfl⟩
    · exact .nil hp'
    · rcases moveCode_eq_ok_iff.1 hstore with ⟨⟨⟩, -⟩ | ⟨_, o, ⟨⟩, ho, rfl⟩
      have hwidth : l.ty.category.width = t.category.width := hfits t ht
      exact ⟨.cons (effect_of_loadOp hload) (.insn (hwidth ▸ effect_of_storeOp ho)), hp'⟩

/-- The slots that a statement finds on the stack. -/
def entryDepth (k : StmtKind) : Nat :=
  if k.isCatch then 1 else 0

theorem balanced_of_lowerIdentity {m : Method} {b : Body} {l : Local} {source : Source}
    (hm : source = .this → (m.isStatic || !m.isConstructor) = true) (hp : Ready p) (hl : l.Stored)
    (hfits : (StmtKind.identity l source).Fits m)
    (h : lowerIdentity m b l source p = .ok (code, p')) :
    Balanced (entryDepth (.identity l source)) 0 code p' := by
  cases source with
  | this =>
    rw [lowerIdentity, if_pos (hm rfl)] at h
    obtain ⟨rfl, rfl⟩ := pure_run_iff.1 h
    exact .nil hp
  | parameter index t => exact balanced_of_lowerParameter hp hl hfits h
  | caughtException =>
    have hstore := balanced_of_storeLocal hp hl h
    have hwidth : l.ty.width = 1 := hfits
    rwa [hwidth] at hstore

theorem balanced_of_consume {op : Operand} {o : Opcode} (hp : Ready p)
    (hop : ∀ l ∈ Ir.localsOf [op], l.Stored) (hwidth : op.ty.width = 1)
    (ho : effect (.simple o) = .ok (1, 0)) (h : consume op o p = .ok (code, p')) :
    Balanced 0 0 code p' := by
  obtain ⟨value, hvalue, rfl⟩ := consume_run_iff.1 h
  exact (hwidth ▸ balanced_of_loadOperand hp hop hvalue).snoc ho

theorem balanced_of_lowerReturn {m : Method} {op : Operand} (hp : Ready p)
    (hop : ∀ l ∈ Ir.localsOf [op], l.Stored) (hwidth : op.ty.width = m.ret.width)
    (h : lowerReturn m (some op) p = .ok (code, p')) : Balanced 0 0 code p' := by
  obtain ⟨value, -, hvalue, rfl⟩ := lowerReturn_run_iff.1 h
  have heffect : effect (.simple (returnOp m.ret.category)) = .ok (m.ret.width, 0) := by
    rw [Ty.width]
    cases m.ret.category <;> rfl
  exact (hwidth ▸ balanced_of_loadOperand hp hop hvalue).snoc heffect

/-- A comparison that no branch makes takes two values and leaves an integer. -/
theorem effect_of_compareOp? {op : CmpOp} {c : Category} {o : Opcode}
    (h : compareOp? op c = some o) : effect (.simple o) = .ok (c.width + c.width, 1) := by
  cases op <;> cases c <;> cases h <;> rfl

/-- A conditional branch takes its two operands. -/
theorem turns_of_branchCode {op : CmpOp} {lhs rhs : Ty} {l : Label}
    (hfits : lhs.category = rhs.category) (h : branchCode op lhs rhs l = .ok code) :
    Turns (lhs.width + rhs.width) 0 code := by
  have hzero : effect (.jump (ifZeroOp op) l) = .ok (1, 0) := by cases op <;> rfl
  have hint : effect (.jump (ifIntOp op) l) = .ok (2, 0) := by cases op <;> rfl
  rw [Ty.width, Ty.width, ← hfits]
  unfold branchCode at h
  split at h
  · rename_i href
    -- References are compared as they are, whichever operand tells that they are references.
    obtain ⟨o, ho, rfl⟩ := map_eq_ok_iff.1 h
    have hreference : lhs.category = .reference := by
      rcases Bool.or_eq_true_iff.1 href with href | href
      · cases lhs <;> first | rfl | cases href
      · rw [hfits]
        cases rhs <;> first | rfl | cases href
    rw [hreference]
    refine .insn ?_
    cases op <;> cases ho <;> rfl
  · split at h
    · rename_i compare hcompare
      cases h
      -- Numbers other than 32-bit integers are compared first, and the jump takes the result.
      exact .cons (effect_of_compareOp? hcompare) (.insn hzero)
    · split at h
      · rename_i hcategory
        cases h
        rw [hcategory]
        exact .insn hint
      · cases h

theorem balanced_of_lowerGoto {c : MethodContext} {target : StmtId}
    (hbody : c.body.Fits c.method) (hp : Ready p)
    (h : lowerGoto c target p = .ok (code, p')) : Balanced 0 0 code p' := by
  obtain ⟨b, -, ⟨l, -, rfl, rfl⟩ | ⟨-, s, hs, h⟩⟩ := lowerGoto_run_iff.1 h
  · exact ⟨.insn rfl, hp⟩
  · have hmem : s ∈ c.body.stmts := List.mem_of_find?_eq_some hs
    rcases h with ⟨op, hkind, h⟩ | ⟨-, h⟩
    · have hfits := hbody.stmts s hmem
      have hlocals := hbody.locals s hmem
      rw [hkind] at hfits hlocals
      exact balanced_of_lowerReturn hp (fun l hl => hlocals l (.inl hl)) hfits h
    · obtain ⟨rfl, rfl⟩ := pure_run_iff.1 h
      exact ⟨.insn rfl, hp⟩

theorem balanced_of_lowerSwitch {c : MethodContext} {key : Operand} {values : List Int32}
    {targets : List StmtId} {default : StmtId} (hp : Ready p)
    (hkey : ∀ l ∈ Ir.localsOf [key], l.Stored) (hwidth : key.ty.width = 1)
    (h : lowerSwitch c key values targets default p = .ok (code, p')) : Balanced 0 0 code p' := by
  obtain ⟨label, cases, value, -, -, -, hvalue, rfl⟩ := lowerSwitch_run_iff.1 h
  refine (hwidth ▸ balanced_of_loadOperand hp hkey hvalue).snoc ?_
  unfold switchInsn
  dsimp only
  split
  · split <;> rfl
  · rfl

/-- The code of a statement takes the exception that a handler starts with, if the statement does,
and leaves nothing. The receiver of a constructor would be kept on the stack, and a branch may have
the code of a statement of the body. -/
theorem balanced_of_lowerStmt {c : MethodContext} {k : StmtKind}
    (hbody : ∀ t, k = .goto t → c.body.Fits c.method)
    (hm : ∀ l, k = .identity l .this → (c.method.isStatic || !c.method.isConstructor) = true)
    (hp : Ready p) (hk : k.Fits c.method)
    (hlocals : ∀ l, k.Mentions l → l.Stored) (h : lowerStmt c k p = .ok (code, p')) :
    Balanced (entryDepth k) 0 code p' := by
  have huses : ∀ l ∈ k.uses, l.Stored := fun l hl => hlocals l (.inl hl)
  cases k with
  | assign lhs rhs =>
    obtain ⟨hlhs, hrhs, hwidth⟩ := hk
    exact balanced_of_lowerAssign hp hlhs hrhs hwidth (fun l hl => hlocals l (.inr hl)) huses h
  | identity l source =>
    refine balanced_of_lowerIdentity ?_ hp (hlocals l (.inr rfl)) hk h
    rintro rfl
    exact hm l rfl
  | invoke call =>
    obtain ⟨value, hvalue, rfl⟩ := lowerInvoke_run_iff.1 h
    have hcall := balanced_of_lowerCall hp hk huses hvalue
    refine hcall.append ⟨fun d => ?_, hcall.ready⟩
    -- What the call leaves is popped, by an operation for its width.
    rw [Ty.width]
    cases call.method.ret.category <;> rfl
  | branch cond target =>
    obtain ⟨label, left, q, right, jump, -, hleft, hright, hjump, rfl⟩ := lowerBranch_run_iff.1 h
    have hboth := balanced_of_loadPair hp huses hleft hright
    exact hboth.append ⟨turns_of_branchCode hk hjump, hboth.ready⟩
  | goto target => exact balanced_of_lowerGoto (hbody target rfl) hp h
  | switch key values targets default => exact balanced_of_lowerSwitch hp huses hk h
  | «return» op => exact balanced_of_lowerReturn hp huses hk h
  | returnVoid =>
    obtain ⟨rfl, rfl⟩ := pure_run_iff.1 h
    exact ⟨.insn rfl, hp⟩
  | throw op => exact balanced_of_consume hp huses hk rfl h
  | enterMonitor op => exact balanced_of_consume hp huses hk rfl h
  | exitMonitor op => exact balanced_of_consume hp huses hk rfl h
  | nop =>
    obtain ⟨rfl, rfl⟩ := pure_run_iff.1 h
    exact ⟨.insn rfl, hp⟩
  | breakpoint => cases (lift_run_iff.1 h).1

end Statements

end BytecodeLowering.Lowering
