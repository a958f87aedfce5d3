import BytecodeLowering.Proofs.Lowering.Parts
import BytecodeLowering.Proofs.Lowering.Slots
import BytecodeLowering.Proofs.Machine.Plain

/-!
# Straight code

The code of operands and expressions is straight: control comes to each of its instructions from the
one in front of it and goes on to the one behind it. Lowering it changes nothing but the places of
the locals that are named.

* `Straight`: the lowering of something to straight code, with the locals that it may touch.
* `straight_of_loadOperand`, `straight_of_lowerExpr`, `straight_of_lowerAssign` and the like: what
  is lowered to straight code.
-/

namespace BytecodeLowering.Lowering

open Ir Machine

/-- The lowering of something to straight code, which touches only locals of the given kind. -/
structure Straight (P : Local → Prop) (p : Progress) (code : List Insn) (p' : Progress) : Prop where
  /-- The code is straight. -/
  plain : ∀ i ∈ code, i.isPlain
  /-- Only locals of the given kind get another place. -/
  touches : Slots.Touches P p.slots p'.slots

variable {P : Local → Prop} {p p' p'' : Progress} {code code' : List Insn}

/-- Steps on the elements of a list touch what each of them does. -/
theorem Lowers.touches {α β : Type} {f : α → Lower β} {xs : List α} {ys : List β}
    (h : Lowers f p xs ys p')
    (hf : ∀ x ∈ xs, ∀ q y q', f x q = .ok (y, q') → Slots.Touches P q.slots q'.slots) :
    Slots.Touches P p.slots p'.slots := by
  induction h with
  | nil => exact .refl
  | cons hx _ ih =>
    exact (hf _ List.mem_cons_self _ _ _ hx).trans
      (ih fun x hx => hf x (List.mem_cons_of_mem _ hx))

namespace Straight

/-- No code touches nothing. -/
theorem nil : Straight P p [] p :=
  ⟨List.forall_mem_nil _, .refl⟩

/-- An instruction by itself touches nothing. -/
theorem insn {i : Insn} (h : i.isPlain) : Straight P p [i] p :=
  ⟨by simpa using h, .refl⟩

/-- Straight code behind straight code is straight. -/
theorem append (h : Straight P p code p') (h' : Straight P p' code' p'') :
    Straight P p (code ++ code') p'' := by
  refine ⟨fun i hi => ?_, h.touches.trans h'.touches⟩
  rcases List.mem_append.1 hi with hi | hi
  · exact h.plain i hi
  · exact h'.plain i hi

/-- An instruction behind straight code. -/
theorem snoc {i : Insn} (h : Straight P p code p') (hi : i.isPlain) :
    Straight P p (code ++ [i]) p' :=
  h.append (insn hi)

/-- The kind of the locals may be wider. -/
theorem mono {Q : Local → Prop} (hPQ : ∀ l, P l → Q l) (h : Straight P p code p') :
    Straight Q p code p' :=
  ⟨h.plain, h.touches.mono hPQ⟩

/-- Straight code of the elements of a list, one after the other. -/
theorem flatten {α : Type} {f : α → Lower (List Insn)} {xs : List α} {codes : List (List Insn)}
    (h : Lowers f p xs codes p')
    (hf : ∀ x ∈ xs, ∀ q code q', f x q = .ok (code, q') → Straight P q code q') :
    Straight P p codes.flatten p' :=
  h.flatten (fun _ => nil) append hf

end Straight

section Operands

/-- The locals among operands are the operands that are locals. -/
theorem mem_localsOf {ops : List Operand} {l : Local} :
    l ∈ Ir.localsOf ops ↔ .var l ∈ ops := by
  have hlocal : ∀ op : Operand, op.local? = some l ↔ op = .var l := by
    intro op
    cases op <;> simp [Operand.local?]
  simp [Ir.localsOf, hlocal]

/-- What holds of the locals among operands holds of those of the first one and of the others. -/
theorem forall_mem_localsOf_cons {op : Operand} {ops : List Operand} :
    (∀ l ∈ Ir.localsOf (op :: ops), P l) ↔
      (∀ l ∈ Ir.localsOf [op], P l) ∧ ∀ l ∈ Ir.localsOf ops, P l := by
  simp only [mem_localsOf, List.mem_cons, List.not_mem_nil, or_false, or_imp, forall_and]

/-- Looking up the place of a local gives the one that it has from then on. -/
theorem binding?_place {l : Local} {b : Binding} (h : place l p = .ok (b, p')) :
    p'.slots.binding? l = some b := by
  obtain ⟨slots, hresolve, rfl⟩ := place_run_iff.1 h
  exact Slots.binding?_resolve hresolve

/-- Looking up the place of a local moves nothing. -/
theorem fills_of_place {l : Local} {b : Binding} (hl : P l) (h : place l p = .ok (b, p')) :
    Slots.Fills P p.slots p'.slots := by
  obtain ⟨slots, hresolve, rfl⟩ := place_run_iff.1 h
  exact .resolve hl hresolve

/-- It touches that local. -/
theorem touches_of_place {l : Local} {b : Binding} (hl : P l) (h : place l p = .ok (b, p')) :
    Slots.Touches P p.slots p'.slots :=
  (fills_of_place hl h).touches

/-- A move between the stack and a place is straight. -/
theorem isPlain_of_moveCode {op : Lowered Opcode} {b : Binding} (h : moveCode op b = .ok code)
    (hop : ∀ o, op = .ok o → o.varWidth?.isSome) : ∀ i ∈ code, i.isPlain := by
  rcases moveCode_eq_ok_iff.1 h with ⟨-, rfl⟩ | ⟨n, o, -, ho, rfl⟩
  · exact List.forall_mem_nil _
  · simpa [Insn.isPlain] using hop o ho

/-- A load has a width. -/
theorem varWidth?_of_loadOp {c : Category} {o : Opcode} (h : loadOp c = .ok o) :
    o.varWidth? = some c.width := by
  cases c <;> cases h <;> rfl

/-- A store has a width. -/
theorem varWidth?_of_storeOp {c : Category} {o : Opcode} (h : storeOp c = .ok o) :
    o.varWidth? = some c.width := by
  cases c <;> cases h <;> rfl

theorem straight_of_loadLocal {l : Local} (hl : P l) (h : loadLocal l p = .ok (code, p')) :
    Straight P p code p' := by
  obtain ⟨b, hb, hcode⟩ := loadLocal_run_iff.1 h
  refine ⟨isPlain_of_moveCode hcode fun o ho => ?_, touches_of_place hl hb⟩
  rw [varWidth?_of_loadOp ho, Option.isSome_some]

theorem straight_of_storeLocal {l : Local} (hl : P l) (h : storeLocal l p = .ok (code, p')) :
    Straight P p code p' := by
  obtain ⟨b, hb, hcode⟩ := storeLocal_run_iff.1 h
  refine ⟨isPlain_of_moveCode hcode fun o ho => ?_, touches_of_place hl hb⟩
  rw [varWidth?_of_storeOp ho, Option.isSome_some]

theorem isPlain_of_constantCode {c : Constant} {i : Insn} (h : constantCode c = .ok i) :
    i.isPlain := by
  cases pushes_of_constantCode h with
  | simple ho => simp [Insn.isPlain, ho]
  | int ho => rcases ho with rfl | rfl <;> rfl
  | load => rfl
  | wrapper => rfl

theorem straight_of_loadOperand {op : Operand} (hop : ∀ l ∈ localsOf [op], P l)
    (h : loadOperand op p = .ok (code, p')) : Straight P p code p' := by
  cases op with
  | var l => exact straight_of_loadLocal (hop l (mem_localsOf.2 List.mem_cons_self)) h
  | const c =>
    obtain ⟨i, hi, rfl, rfl⟩ := loadConst_run_iff.1 h
    exact .insn (isPlain_of_constantCode hi)

theorem straight_of_loadOperands {ops : List Operand} (hops : ∀ l ∈ localsOf ops, P l)
    (h : loadOperands ops p = .ok (code, p')) : Straight P p code p' := by
  obtain ⟨codes, hcodes, rfl⟩ := loadOperands_run_iff.1 h
  refine .flatten hcodes fun op hop q code q' hcode => straight_of_loadOperand ?_ hcode
  intro l hl
  obtain rfl := List.mem_singleton.1 (mem_localsOf.1 hl)
  exact hops l (mem_localsOf.2 hop)

end Operands

section Expressions

theorem isPlain_of_binaryOp {op : BinOp} {c : Category} {o : Opcode} (h : binaryOp op c = .ok o) :
    (Insn.simple o).isPlain := by
  cases op <;> cases c <;> cases h <;> rfl

theorem isPlain_of_negOp {c : Category} {o : Opcode} (h : negOp c = .ok o) :
    (Insn.simple o).isPlain := by
  cases c <;> cases h <;> rfl

theorem isPlain_of_castCode {source target : Ty} (h : castCode source target = .ok code) :
    ∀ i ∈ code, i.isPlain := by
  unfold castCode at h
  split at h
  · rename_i p q
    cases h
    cases p <;> cases q <;> decide
  · cases h

theorem isPlain_arrayLoadOp (t : Ty) : (Insn.simple (arrayLoadOp t)).isPlain := by
  unfold arrayLoadOp
  split <;> rfl

theorem isPlain_arrayStoreOp (t : Ty) : (Insn.simple (arrayStoreOp t)).isPlain := by
  unfold arrayStoreOp
  split <;> rfl

theorem isPlain_of_callInsn {op : Opcode} {m : MethodSignature} {interface : Bool} {i : Insn}
    (hop : op.endsFlow = false) (h : callInsn op m interface = .ok i) : i.isPlain := by
  obtain ⟨n, -, rfl⟩ := map_eq_ok_iff.1 h
  simpa [Insn.isPlain] using hop

theorem straight_of_loadBase {f : FieldRef} (hf : ∀ l ∈ f.uses, P l)
    (h : loadBase f p = .ok (code, p')) : Straight P p code p' := by
  rw [loadBase_run_iff] at h
  cases hbase : f.base? with
  | none =>
    obtain ⟨rfl, rfl⟩ := by simpa only [hbase] using h
    exact .nil
  | some base =>
    refine straight_of_loadLocal (hf base ?_) (by simpa only [hbase] using h)
    simp [FieldRef.uses, hbase]

theorem straight_of_loadElementPlace {a : ArrayRef} (ha : ∀ l ∈ a.uses, P l)
    (h : loadElementPlace a p = .ok (code, p')) : Straight P p code p' := by
  obtain ⟨base, q, index, hbase, hindex, rfl⟩ := loadElementPlace_run_iff.1 h
  exact (straight_of_loadLocal (ha _ List.mem_cons_self) hbase).append
    (straight_of_loadOperand (fun l hl => ha l (List.mem_cons_of_mem _ hl)) hindex)

theorem straight_of_loadTested {op : Operand} (hop : ∀ l ∈ localsOf [op], P l)
    (h : loadTested op p = .ok (code, p')) : Straight P p code p' := by
  obtain ⟨l, b, rfl, hb, hcode⟩ := loadTested_run_iff.1 h
  refine ⟨isPlain_of_moveCode hcode ?_, touches_of_place (hop l ?_) hb⟩
  · rintro o ⟨⟩
    rfl
  · exact mem_localsOf.2 List.mem_cons_self

theorem straight_of_callOn {op : Opcode} {base : Local} {m : MethodSignature}
    {args : List Operand} {interface : Bool} (hop : op.endsFlow = false) (hbase : P base)
    (hargs : ∀ l ∈ localsOf args, P l) (h : callOn op base m args interface p = .ok (code, p')) :
    Straight P p code p' := by
  obtain ⟨receiver, q, values, call, hreceiver, hvalues, hcall, rfl⟩ := callOn_run_iff.1 h
  exact ((straight_of_loadLocal hbase hreceiver).append
    (straight_of_loadOperands hargs hvalues)).snoc (isPlain_of_callInsn hop hcall)

theorem straight_of_lowerSpecial {base : Local} {m : MethodSignature} {args : List Operand}
    (hbase : P base) (hargs : ∀ l ∈ Ir.localsOf args, P l)
    (h : lowerCall (.special base m args) p = .ok (code, p')) : Straight P p code p' := by
  obtain ⟨done, q, hdone, h⟩ := lowerSpecial_run_iff.1 h
  obtain ⟨hslots, htarget⟩ := eq_of_takePending hdone
  -- The search for an object that waits moves no local.
  have hstart : ∀ {code}, Straight P q code p' → Straight P p code p' :=
    fun h => ⟨h.plain, hslots ▸ h.touches⟩
  refine hstart ?_
  cases done with
  | none => exact straight_of_callOn (by rfl) hbase hargs h
  | some pending =>
    cases pending with
    | allocation target =>
      obtain ⟨values, q', call, store, hvalues, hcall, hstore, rfl⟩ := h
      have hcall := isPlain_of_callInsn (by rfl) hcall
      exact ((straight_of_loadOperands hargs hvalues).snoc hcall).append
        (straight_of_storeLocal (htarget target rfl ▸ hbase) hstore)
    | receiver =>
      obtain ⟨values, call, hvalues, hcall, rfl⟩ := h
      exact (straight_of_loadOperands hargs hvalues).snoc (isPlain_of_callInsn (by rfl) hcall)

/-- The arguments of a bootstrap method are looked up, which moves none of them. -/
theorem fills_of_bootstrapArguments {ops : List Operand} {xs : List Loadable}
    (hops : ∀ l ∈ localsOf ops, P l) (h : Lowers bootstrapArgument p ops xs p') :
    Slots.Fills P p.slots p'.slots := by
  induction h with
  | nil => exact .refl
  | cons hx _ ih =>
    obtain ⟨hop, hops⟩ := forall_mem_localsOf_cons.1 hops
    refine .trans ?_ (ih hops)
    rcases bootstrapArgument_run_iff.1 hx with ⟨c, -, -, rfl⟩ | ⟨l, n, rfl, hb, -⟩
    · exact .refl
    · exact fills_of_place (hop l (mem_localsOf.2 List.mem_cons_self)) hb

theorem straight_of_lowerCall {call : Invocation} (hcall : ∀ l ∈ call.uses, P l)
    (h : lowerCall call p = .ok (code, p')) : Straight P p code p' := by
  have hbase : ∀ base, call.base? = some base → P base := by
    intro base hbase
    exact hcall base (by simp [Invocation.uses, hbase])
  have hargs : ∀ l ∈ Ir.localsOf call.args, P l := by
    intro l hl
    exact hcall l (by simp [Invocation.uses, hl])
  cases call with
  | static m args =>
    obtain ⟨values, call, hvalues, hcall, rfl⟩ := lowerStatic_run_iff.1 h
    exact (straight_of_loadOperands hargs hvalues).snoc (isPlain_of_callInsn (by rfl) hcall)
  | special base m args => exact straight_of_lowerSpecial (hbase base rfl) hargs h
  | virtual base m args => exact straight_of_callOn (by rfl) (hbase base rfl) hargs h
  | interface base m args => exact straight_of_callOn (by rfl) (hbase base rfl) hargs h
  | dynamic bootstrap bootstrapArgs m args =>
    obtain ⟨values, q, handle, constants, desc, hvalues, -, hconstants, -, rfl⟩ :=
      lowerDynamic_run_iff.1 h
    have hboot : ∀ l ∈ Ir.localsOf bootstrapArgs, P l :=
      fun l hl => hcall l (List.mem_append_right _ hl)
    exact (straight_of_loadOperands hargs hvalues).append
      ⟨by simp [Insn.isPlain], (fills_of_bootstrapArguments hboot hconstants).touches⟩

theorem isPlain_of_newArrayInsn {element : Ty} {i : Insn} (h : newArrayInsn element = .ok i) :
    i.isPlain := by
  unfold newArrayInsn at h
  split at h
  · rename_i p
    cases h
    cases p <;> decide
  · obtain ⟨n, -, rfl⟩ := map_eq_ok_iff.1 h
    rfl

theorem straight_of_lowerNewArray {element : Ty} {size : Operand}
    (hsize : ∀ l ∈ Ir.localsOf [size], P l)
    (h : lowerNewArray element size p = .ok (code, p')) : Straight P p code p' := by
  obtain ⟨value, i, hvalue, hi, rfl⟩ := lowerNewArray_run_iff.1 h
  exact (straight_of_loadOperand hsize hvalue).snoc (isPlain_of_newArrayInsn hi)

theorem straight_of_lowerCast {op : Operand} {target : Ty} (hop : ∀ l ∈ Ir.localsOf [op], P l)
    (h : lowerCast op target p = .ok (code, p')) : Straight P p code p' := by
  cases href : target.isReference with
  | true =>
    obtain ⟨value, n, -, hvalue, -, rfl⟩ := (lowerCast_run_iff_of_isReference href).1 h
    exact (straight_of_loadOperand hop hvalue).snoc (by rfl)
  | false =>
    obtain ⟨convert, value, hconvert, hvalue, rfl⟩ :=
      (lowerCast_run_iff_of_not_isReference href).1 h
    exact (straight_of_loadOperand hop hvalue).append ⟨isPlain_of_castCode hconvert, .refl⟩

/-- The code of an expression is straight and touches the locals that the expression reads. -/
theorem straight_of_lowerExpr {e : Expr} (he : ∀ l ∈ e.uses, P l)
    (h : lowerExpr e p = .ok (code, p')) : Straight P p code p' := by
  cases e with
  | operand op => exact straight_of_loadOperand he h
  | binary op lhs rhs =>
    obtain ⟨left, q, right, o, hleft, hright, ho, rfl⟩ := lowerBinary_run_iff.1 h
    obtain ⟨hlhs, hrhs⟩ := forall_mem_localsOf_cons.1 he
    exact ((straight_of_loadOperand hlhs hleft).append
      (straight_of_loadOperand hrhs hright)).snoc (isPlain_of_binaryOp ho)
  | neg op =>
    obtain ⟨value, o, hvalue, ho, rfl⟩ := lowerNeg_run_iff.1 h
    exact (straight_of_loadOperand he hvalue).snoc (isPlain_of_negOp ho)
  | cast op target => exact straight_of_lowerCast he h
  | instanceOf op check =>
    obtain ⟨object, n, hobject, -, rfl⟩ := lowerInstanceOf_run_iff.1 h
    exact (straight_of_loadTested he hobject).snoc (by rfl)
  | new n => cases (lift_run_iff.1 h).1
  | newArray element size => exact straight_of_lowerNewArray he h
  | newMultiArray t sizes =>
    obtain ⟨values, desc, -, -, hvalues, -, rfl⟩ := lowerNewMultiArray_run_iff.1 h
    exact (straight_of_loadOperands he hvalues).snoc (by rfl)
  | length op =>
    obtain ⟨value, hvalue, rfl⟩ := lowerLength_run_iff.1 h
    exact (straight_of_loadOperand he hvalue).snoc (by rfl)
  | invoke call => exact straight_of_lowerCall he h
  | field f =>
    obtain ⟨n, base, -, hbase, rfl⟩ := lowerField_run_iff.1 h
    refine (straight_of_loadBase he hbase).snoc ?_
    cases f <;> rfl
  | element a =>
    obtain ⟨element, place, -, hplace, rfl⟩ := lowerElement_run_iff.1 h
    exact (straight_of_loadElementPlace he hplace).snoc (isPlain_arrayLoadOp element)
  | phi ls => cases (lift_run_iff.1 h).1

end Expressions

section Statements

theorem straight_of_copyLocal {target source : Local} (htarget : P target) (hsource : P source)
    (h : copyLocal target source p = .ok (code, p')) : Straight P p code p' := by
  rcases copyLocal_run_iff.1 h with ⟨-, rfl, rfl⟩ | ⟨-, origin, q, horigin, h⟩
  · exact .nil
  · have hq : Slots.Touches P p.slots q.slots := touches_of_place hsource horigin
    rcases h with ⟨hrole, rfl, hmove⟩ | ⟨-, destination, q', hdestination, h⟩
    · obtain ⟨slots, hbind, rfl⟩ := rebind_run_iff.1 hmove
      exact ⟨List.forall_mem_nil _, hq.trans (.single (.move htarget hrole hbind))⟩
    · have hq' : Slots.Touches P p.slots q'.slots :=
        hq.trans (touches_of_place htarget hdestination)
      rcases h with ⟨-, -, rfl, rfl⟩ | ⟨-, load, q'', store, hload, hstore, rfl⟩
      · exact ⟨List.forall_mem_nil _, hq'⟩
      · have hmove := (straight_of_loadLocal hsource hload).append
          (straight_of_storeLocal htarget hstore)
        exact ⟨hmove.plain, hq'.trans hmove.touches⟩

theorem straight_of_assignValue {target : Local} {rhs : Expr} (htarget : P target)
    (hrhs : ∀ l ∈ rhs.uses, P l) (h : assignValue target rhs p = .ok (code, p')) :
    Straight P p code p' := by
  obtain ⟨value, q, store, hvalue, hstore, rfl⟩ := assignValue_run_iff.1 h
  exact (straight_of_lowerExpr hrhs hvalue).append (straight_of_storeLocal htarget hstore)

theorem straight_of_assignLocal {isStatic : Bool} {target : Local} {rhs : Expr}
    (htarget : P target) (hrhs : ∀ l ∈ rhs.uses, P l)
    (h : assignLocal isStatic target rhs p = .ok (code, p')) : Straight P p code p' := by
  have hvar : ∀ {source : Local}, (∀ l ∈ Ir.localsOf [.var source], P l) → P source :=
    fun h => h _ (mem_localsOf.2 List.mem_cons_self)
  cases assigns_of_run h with
  | copy h => exact straight_of_copyLocal htarget (hvar hrhs) h
  | rebind hrole hb hmove =>
    obtain ⟨slots, hbind, rfl⟩ := rebind_run_iff.1 hmove
    exact ⟨List.forall_mem_nil _,
      (touches_of_place (hvar hrhs) hb).trans (.single (.move htarget hrole hbind))⟩
  | new => exact ⟨by simp [Insn.isPlain, Opcode.endsFlow], .refl⟩
  | newArray harray hplace hstore =>
    have hcode := straight_of_lowerNewArray (P := P) hrhs harray
    have hstore := straight_of_storeLocal htarget hstore
    rcases hplace with ⟨-, rfl⟩ | ⟨-, -, hb⟩
    · exact hcode.append hstore
    · exact hcode.append ⟨hstore.plain, (touches_of_place htarget hb).trans hstore.touches⟩
  | newStackArray harray _ hb hstore =>
    have hcode := (straight_of_lowerNewArray (P := P) hrhs harray).snoc (i := .simple .dup) rfl
    have hstore := straight_of_storeLocal htarget hstore
    exact hcode.append ⟨hstore.plain, (touches_of_place htarget hb).trans hstore.touches⟩
  | value _ hq hvalue =>
    have hcode := straight_of_assignValue htarget hrhs hvalue
    rcases hq with rfl | hq
    · exact hcode
    · obtain ⟨slots, hresolve, rfl⟩ := onSlots_run_iff.1 hq
      exact ⟨hcode.plain, .trans (.single (.declared htarget hresolve)) hcode.touches⟩

theorem isPlain_fieldInsn_putOp (f : FieldRef) (n : MemberName) :
    (fieldInsn (putOp f) n).isPlain := by
  cases f <;> rfl

theorem straight_of_lowerAssign {isStatic : Bool} {lhs : Place} {rhs : Expr}
    (hlhs : ∀ l ∈ lhs.uses, P l) (hdef : ∀ l, lhs.local? = some l → P l)
    (hrhs : ∀ l ∈ rhs.uses, P l) (h : lowerAssign isStatic lhs rhs p = .ok (code, p')) :
    Straight P p code p' := by
  cases lhs with
  | var l => exact straight_of_assignLocal (hdef l rfl) hrhs h
  | field f =>
    obtain ⟨op, n, base, q, value, rfl, -, hbase, hvalue, rfl⟩ := lowerFieldStore_run_iff.1 h
    exact ((straight_of_loadBase hlhs hbase).append
      (straight_of_loadOperand hrhs hvalue)).snoc (isPlain_fieldInsn_putOp f n)
  | element a =>
    obtain ⟨op, element, place, q, value, rfl, -, hplace, hvalue, rfl⟩ :=
      lowerElementStore_run_iff.1 h
    exact ((straight_of_loadElementPlace hlhs hplace).append
      (straight_of_loadOperand hrhs hvalue)).snoc (isPlain_arrayStoreOp element)

theorem straight_of_lowerParameter {m : Method} {b : Body} {l : Local} {index : Nat} (hl : P l)
    (h : lowerParameter m b l index p = .ok (code, p')) : Straight P p code p' := by
  obtain ⟨slot, t, -, -, h⟩ := lowerParameter_run_iff.1 h
  rcases h with ⟨-, rfl, rfl⟩ | ⟨-, binding, hb, h⟩
  · exact .nil
  · refine ⟨?_, touches_of_place hl hb⟩
    rcases h with ⟨-, rfl⟩ | ⟨-, load, store, hload, hstore, rfl⟩
    · exact List.forall_mem_nil _
    · intro i hi
      rcases List.mem_cons.1 hi with rfl | hi
      · rw [Insn.isPlain, varWidth?_of_loadOp hload, Option.isSome_some]
      · refine isPlain_of_moveCode hstore (fun o ho => ?_) i hi
        rw [varWidth?_of_storeOp ho, Option.isSome_some]

theorem straight_of_lowerIdentity {m : Method} {b : Body} {l : Local} {source : Source}
    (hl : P l) (h : lowerIdentity m b l source p = .ok (code, p')) : Straight P p code p' := by
  cases source with
  | this =>
    rcases ite_run_iff.1 h with ⟨-, h⟩ | ⟨-, h⟩
    · obtain ⟨rfl, rfl⟩ := pure_run_iff.1 h
      exact .nil
    · obtain ⟨_, q, hq, h⟩ := bind_run_iff.1 h
      obtain ⟨rfl, rfl⟩ := pure_run_iff.1 h
      obtain rfl := modify_run_iff.1 hq
      exact ⟨by simp [Insn.isPlain, Opcode.varWidth?], .refl⟩
  | parameter index t => exact straight_of_lowerParameter hl h
  | caughtException => exact straight_of_storeLocal hl h

theorem straight_of_consume {op : Operand} {o : Opcode} (ho : o.endsFlow = false)
    (hop : ∀ l ∈ Ir.localsOf [op], P l) (h : consume op o p = .ok (code, p')) :
    Straight P p code p' := by
  obtain ⟨value, hvalue, rfl⟩ := consume_run_iff.1 h
  exact (straight_of_loadOperand hop hvalue).snoc (by simpa [Insn.isPlain] using ho)

/-- The code of a statement that ends no block is straight, and touches the locals that the
statement reads and the one that it writes. -/
theorem straight_of_lowerStmt {c : MethodContext} {k : StmtKind} (hk : k.endsBlock = false)
    (huses : ∀ l ∈ k.uses, P l) (hdef : ∀ l, k.def? = some l → P l)
    (h : lowerStmt c k p = .ok (code, p')) : Straight P p code p' := by
  cases k with
  | assign lhs rhs =>
    exact straight_of_lowerAssign (fun l hl => huses l (List.mem_append_left _ hl)) hdef
      (fun l hl => huses l (List.mem_append_right _ hl)) h
  | identity l source => exact straight_of_lowerIdentity (hdef l rfl) h
  | invoke call =>
    obtain ⟨value, hvalue, rfl⟩ := lowerInvoke_run_iff.1 h
    refine (straight_of_lowerCall huses hvalue).append ⟨?_, .refl⟩
    unfold popOp
    split <;> simp [Insn.isPlain, Opcode.endsFlow]
  | enterMonitor op => exact straight_of_consume (by rfl) huses h
  | exitMonitor op => exact straight_of_consume (by rfl) huses h
  | nop =>
    obtain ⟨rfl, rfl⟩ := pure_run_iff.1 h
    exact .insn rfl
  | breakpoint => cases (lift_run_iff.1 h).1
  | branch | goto | switch | «return» | returnVoid | throw => cases hk

end Statements

end BytecodeLowering.Lowering
