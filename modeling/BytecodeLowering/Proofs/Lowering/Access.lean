import BytecodeLowering.Proofs.Ir.Construction
import BytecodeLowering.Proofs.Lowering.Placement

/-!
# Accesses to local variables

Which local variables the code of a method accesses, and by which of its locals.

* `Scope`: the locals that code may read and write, and what of the state at the entry of the method
  it may take.
* `Access`: an instruction accesses a local at its slot, or an argument where it was passed, or
  nothing.
* `Unmoved`: code whose instructions are such accesses and that moves no local, with
  `Unmoved.append` and the like for code that is put together.
* `unmoved_of_loadLocal`, `unmoved_of_lowerExpr` and the like: what operands and expressions access.
* `Scope.Covers`: a scope has what the code of a statement accesses.
* `unmoved_or_silent_of_lowerStmt`: what a statement accesses, unless it moves a local without code.
* `Confined`: code whose instructions are accesses, each in view of the slots at the time it was
  emitted.
* `Scope.Holds`, `confined_of_lowerStmt`, `confined_of_lowerBlock`: the code of any statement of a
  body, and of a block.
-/

namespace BytecodeLowering.Machine

/-- Whether the instruction accesses a local variable. -/
def Insn.isVar : Insn → Bool
  | .var .. => true
  | _ => false

end BytecodeLowering.Machine

namespace BytecodeLowering.Lowering

open Ir Machine

/-- What code may access. -/
structure Scope where
  /-- The locals that it may read. -/
  reads : Local → Prop
  /-- The locals that it may write. -/
  writes : Local → Prop
  /-- What it may take of the state at the entry of the method. -/
  takes : Source → Prop

/-- The locals that may be accessed. -/
def Scope.names (S : Scope) (l : Local) : Prop :=
  S.reads l ∨ S.writes l

/-- An instruction within a scope, where the locals have the given places. -/
inductive Access (m : Method) (S : Scope) (s : Slots) : Insn → Prop
  /-- It accesses no local variable. -/
  | other {i : Insn} : i.isVar = false → Access m S s i
  /-- It loads a local from its slot, by the operation for its type or as a reference. -/
  | read {l : Local} {o : Opcode} {n : Nat} : S.reads l → s.binding? l = some (.slot n) →
      loadOp l.ty.category = .ok o ∨ o = .aload → Access m S s (.var o n)
  /-- It stores a local in its slot. -/
  | write {l : Local} {o : Opcode} {n : Nat} : S.writes l → s.binding? l = some (.slot n) →
      storeOp l.ty.category = .ok o → Access m S s (.var o n)
  /-- It loads an argument from where it was passed. -/
  | argument {index n : Nat} {t t' : Ty} {o : Opcode} : S.takes (.parameter index t') →
      s.param? index = some n → m.params[index]? = some t → loadOp t.category = .ok o →
      Access m S s (.var o n)
  /-- It loads the receiver. -/
  | receiver : S.takes .this → m.isStatic = false → Access m S s (.var .aload 0)

/-- Code within a scope. Each instruction is an access in view of the places that the locals had
when it was emitted. -/
structure Confined (m : Method) (S : Scope) (p : Progress) (code : List Insn) (p' : Progress) :
    Prop where
  /-- Only locals that may be accessed get another place. -/
  touches : Slots.Touches S.names p.slots p'.slots
  /-- Every instruction is an access in view of places in between. -/
  access : ∀ i ∈ code, ∃ s, Slots.Touches S.names p.slots s ∧ Slots.Touches S.names s p'.slots ∧
    Access m S s i

/-- Code within a scope that moves no local. Each instruction is an access in view of the places
behind the code, which are those that the locals had when it was emitted. -/
structure Unmoved (m : Method) (S : Scope) (p : Progress) (code : List Insn) (p' : Progress) :
    Prop where
  /-- Only locals that may be accessed get a place, and none is moved. -/
  fills : Slots.Fills S.names p.slots p'.slots
  /-- Every instruction is an access. -/
  access : ∀ i ∈ code, Access m S p'.slots i

variable {m : Method} {S : Scope} {s s' : Slots} {p p' p'' : Progress} {code code' : List Insn}
  {l : Local}

/-- An access stays one when locals get places. -/
theorem Access.mono {i : Insn} (hfills : Slots.Fills S.names s s') (h : Access m S s i) :
    Access m S s' i := by
  have hparams : s'.params = s.params := hfills.touches.fixed.1
  cases h with
  | other hi => exact .other hi
  -- A local keeps its slot, and so does what was passed to the method.
  | read hl hn ho => exact .read hl (hfills.keeps _ _ hn) ho
  | write hl hn ho => exact .write hl (hfills.keeps _ _ hn) ho
  | argument htakes hn ht ho =>
    refine .argument htakes ?_ ht ho
    rw [Slots.param?, hparams]
    exact hn
  | receiver htakes hstatic => exact .receiver htakes hstatic

namespace Unmoved

/-- No code accesses nothing. -/
theorem silent (h : Slots.Fills S.names p.slots p'.slots) : Unmoved m S p [] p' :=
  ⟨h, List.forall_mem_nil _⟩

theorem nil : Unmoved m S p [] p :=
  silent .refl

/-- Code that accesses no local variable. -/
theorem others (h : ∀ i ∈ code, i.isVar = false) : Unmoved m S p code p :=
  ⟨.refl, fun i hi => .other (h i hi)⟩

/-- Code behind code accesses what either of them does. -/
theorem append (h : Unmoved m S p code p') (h' : Unmoved m S p' code' p'') :
    Unmoved m S p (code ++ code') p'' := by
  refine ⟨h.fills.trans h'.fills, fun i hi => ?_⟩
  rcases List.mem_append.1 hi with hi | hi
  · exact (h.access i hi).mono h'.fills
  · exact h'.access i hi

/-- An instruction that accesses no local variable behind code. -/
theorem snoc {i : Insn} (h : Unmoved m S p code p') (hi : i.isVar = false) :
    Unmoved m S p (code ++ [i]) p' :=
  h.append (others (List.forall_mem_singleton.2 hi))

/-- Locals may get their places before the code. -/
theorem behind (hq : Slots.Fills S.names p.slots p'.slots) (h : Unmoved m S p' code p'') :
    Unmoved m S p code p'' :=
  (silent hq).append h

/-- Code of the elements of a list, one after the other. -/
theorem flatten {α : Type} {f : α → Lower (List Insn)} {xs : List α} {codes : List (List Insn)}
    (h : Lowers f p xs codes p')
    (hf : ∀ x ∈ xs, ∀ q code q', f x q = .ok (code, q') → Unmoved m S q code q') :
    Unmoved m S p codes.flatten p' :=
  h.flatten (fun _ => nil) append hf

end Unmoved

namespace Confined

/-- No code accesses nothing. -/
theorem silent (h : Slots.Touches S.names p.slots p'.slots) : Confined m S p [] p' :=
  ⟨h, List.forall_mem_nil _⟩

/-- Code that moves no local was emitted in view of the places behind it. -/
theorem of_unmoved (h : Unmoved m S p code p') : Confined m S p code p' :=
  ⟨h.fills.touches, fun i hi => ⟨p'.slots, h.fills.touches, .refl, h.access i hi⟩⟩

theorem nil : Confined m S p [] p :=
  silent .refl

/-- Code that accesses no local variable. -/
theorem others (h : ∀ i ∈ code, i.isVar = false) : Confined m S p code p :=
  of_unmoved (.others h)

/-- Code behind code accesses what either of them does. -/
theorem append (h : Confined m S p code p') (h' : Confined m S p' code' p'') :
    Confined m S p (code ++ code') p'' := by
  refine ⟨h.touches.trans h'.touches, fun i hi => ?_⟩
  rcases List.mem_append.1 hi with hi | hi
  · obtain ⟨s, hfront, hback, haccess⟩ := h.access i hi
    exact ⟨s, hfront, hback.trans h'.touches, haccess⟩
  · obtain ⟨s, hfront, hback, haccess⟩ := h'.access i hi
    exact ⟨s, h.touches.trans hfront, hback, haccess⟩

/-- Code of the elements of a list, one after the other. -/
theorem flatten {α : Type} {f : α → Lower (List Insn)} {xs : List α} {codes : List (List Insn)}
    (h : Lowers f p xs codes p')
    (hf : ∀ x ∈ xs, ∀ q code q', f x q = .ok (code, q') → Confined m S q code q') :
    Confined m S p codes.flatten p' :=
  h.flatten (fun _ => nil) append hf

end Confined

section Operands

/-- A move between the stack and the place of a local accesses the local. -/
theorem unmoved_of_moveCode {op : Lowered Opcode} {b : Binding}
    (hmove : moveCode op b = .ok code) (hb : p.slots.binding? l = some b)
    (hop : ∀ o n, op = .ok o → p.slots.binding? l = some (.slot n) →
      Access m S p.slots (.var o n)) : Unmoved m S p code p := by
  rcases moveCode_eq_ok_iff.1 hmove with ⟨-, rfl⟩ | ⟨n, o, rfl, ho, rfl⟩
  · exact .nil
  · exact ⟨.refl, List.forall_mem_singleton.2 (hop o n ho hb)⟩

theorem unmoved_of_loadLocal (hl : S.reads l) (h : loadLocal l p = .ok (code, p')) :
    Unmoved m S p code p' := by
  obtain ⟨b, hb, hcode⟩ := loadLocal_run_iff.1 h
  exact .behind (fills_of_place (.inl hl) hb) (unmoved_of_moveCode hcode (binding?_place hb)
    fun o n ho hn => .read hl hn (.inl ho))

theorem unmoved_of_storeLocal (hl : S.writes l) (h : storeLocal l p = .ok (code, p')) :
    Unmoved m S p code p' := by
  obtain ⟨b, hb, hcode⟩ := storeLocal_run_iff.1 h
  exact .behind (fills_of_place (.inr hl) hb) (unmoved_of_moveCode hcode (binding?_place hb)
    fun o n ho hn => .write hl hn ho)

theorem unmoved_of_loadOperand {op : Operand} (hop : ∀ l ∈ localsOf [op], S.reads l)
    (h : loadOperand op p = .ok (code, p')) : Unmoved m S p code p' := by
  cases op with
  | var l => exact unmoved_of_loadLocal (hop l (mem_localsOf.2 List.mem_cons_self)) h
  | const c =>
    obtain ⟨i, hi, rfl, rfl⟩ := loadConst_run_iff.1 h
    refine .others (List.forall_mem_singleton.2 ?_)
    cases pushes_of_constantCode hi <;> rfl

theorem unmoved_of_loadOperands {ops : List Operand} (hops : ∀ l ∈ localsOf ops, S.reads l)
    (h : loadOperands ops p = .ok (code, p')) : Unmoved m S p code p' := by
  obtain ⟨codes, hcodes, rfl⟩ := loadOperands_run_iff.1 h
  refine .flatten hcodes fun op hop q code q' hcode => unmoved_of_loadOperand ?_ hcode
  intro l hl
  obtain rfl := List.mem_singleton.1 (mem_localsOf.1 hl)
  exact hops l (mem_localsOf.2 hop)

end Operands

section Expressions

theorem isVar_of_castCode {source target : Ty} (h : castCode source target = .ok code) :
    ∀ i ∈ code, i.isVar = false := by
  unfold castCode at h
  split at h
  · cases h
    intro i hi
    obtain ⟨o, -, rfl⟩ := List.mem_map.1 hi
    rfl
  · cases h

theorem isVar_of_callInsn {op : Opcode} {sig : MethodSignature} {interface : Bool} {i : Insn}
    (h : callInsn op sig interface = .ok i) : i.isVar = false := by
  obtain ⟨n, -, rfl⟩ := map_eq_ok_iff.1 h
  rfl

theorem isVar_of_newArrayInsn {element : Ty} {i : Insn} (h : newArrayInsn element = .ok i) :
    i.isVar = false := by
  unfold newArrayInsn at h
  split at h
  · cases h
    rfl
  · obtain ⟨n, -, rfl⟩ := map_eq_ok_iff.1 h
    rfl

theorem unmoved_of_loadBase {f : FieldRef} (hf : ∀ l ∈ f.uses, S.reads l)
    (h : loadBase f p = .ok (code, p')) : Unmoved m S p code p' := by
  rw [loadBase_run_iff] at h
  cases hbase : f.base? with
  | none =>
    obtain ⟨rfl, rfl⟩ := by simpa only [hbase] using h
    exact .nil
  | some base =>
    refine unmoved_of_loadLocal (hf base ?_) (by simpa only [hbase] using h)
    simp [FieldRef.uses, hbase]

theorem unmoved_of_loadElementPlace {a : ArrayRef} (ha : ∀ l ∈ a.uses, S.reads l)
    (h : loadElementPlace a p = .ok (code, p')) : Unmoved m S p code p' := by
  obtain ⟨base, q, index, hbase, hindex, rfl⟩ := loadElementPlace_run_iff.1 h
  exact (unmoved_of_loadLocal (ha _ List.mem_cons_self) hbase).append
    (unmoved_of_loadOperand (fun l hl => ha l (List.mem_cons_of_mem _ hl)) hindex)

theorem unmoved_of_loadTested {op : Operand} (hop : ∀ l ∈ localsOf [op], S.reads l)
    (h : loadTested op p = .ok (code, p')) : Unmoved m S p code p' := by
  obtain ⟨l, b, rfl, hb, hcode⟩ := loadTested_run_iff.1 h
  have hl : S.reads l := hop l (mem_localsOf.2 List.mem_cons_self)
  refine .behind (fills_of_place (.inl hl) hb)
    (unmoved_of_moveCode hcode (binding?_place hb) ?_)
  -- The value is loaded as a reference, whatever the type of the local is.
  rintro o n ⟨⟩ hn
  exact .read hl hn (.inr rfl)

theorem unmoved_of_callOn {op : Opcode} {base : Local} {sig : MethodSignature}
    {args : List Operand} {interface : Bool} (hbase : S.reads base)
    (hargs : ∀ l ∈ localsOf args, S.reads l)
    (h : callOn op base sig args interface p = .ok (code, p')) : Unmoved m S p code p' := by
  obtain ⟨receiver, q, values, call, hreceiver, hvalues, hcall, rfl⟩ := callOn_run_iff.1 h
  exact ((unmoved_of_loadLocal hbase hreceiver).append
    (unmoved_of_loadOperands hargs hvalues)).snoc (isVar_of_callInsn hcall)

/-- A constructor call on a local completes a new object, which is to be assigned to the local. -/
def Allocates (p : Progress) (base : Local) (sig : MethodSignature) : Prop :=
  sig.isConstructor ∧ p.pending.find? (completes p.slots base) = some (.allocation base)

/-- What is taken for a constructor call is a new object only if the call completes it. -/
theorem allocates_of_takePending {base target : Local} {sig : MethodSignature}
    (h : takePending base sig p = .ok (some (.allocation target), p')) :
    target = base ∧ Allocates p base sig := by
  obtain rfl : target = base := (eq_of_takePending h).2 target rfl
  rcases takePending_run_iff.1 h with ⟨-, hnone, -⟩ | ⟨hsig, hfind, -⟩
  · cases hnone
  · exact ⟨rfl, hsig, hfind⟩

/-- A constructor call that completes a new object stores it in the local that it is called on. -/
theorem unmoved_of_lowerSpecial {base : Local} {sig : MethodSignature} {args : List Operand}
    (hbase : S.reads base) (hdone : Allocates p base sig → S.writes base)
    (hargs : ∀ l ∈ localsOf args, S.reads l)
    (h : lowerCall (.special base sig args) p = .ok (code, p')) : Unmoved m S p code p' := by
  obtain ⟨done, q, htake, h⟩ := lowerSpecial_run_iff.1 h
  have hq : Slots.Fills S.names p.slots q.slots := by
    rw [(eq_of_takePending htake).1]
    exact .refl
  refine .behind hq ?_
  -- What is found pending tells which locals are accessed apart from the arguments.
  cases done with
  | none => exact unmoved_of_callOn hbase hargs h
  | some pending =>
    cases pending with
    | allocation target =>
      obtain ⟨values, q', call, store, hvalues, hcall, hstore, rfl⟩ := h
      obtain ⟨rfl, hallocates⟩ := allocates_of_takePending htake
      exact ((unmoved_of_loadOperands hargs hvalues).snoc (isVar_of_callInsn hcall)).append
        (unmoved_of_storeLocal (hdone hallocates) hstore)
    | receiver =>
      obtain ⟨values, call, hvalues, hcall, rfl⟩ := h
      exact (unmoved_of_loadOperands hargs hvalues).snoc (isVar_of_callInsn hcall)

theorem unmoved_of_lowerCall {call : Invocation} (hcall : ∀ l ∈ call.uses, S.reads l)
    (hdone : ∀ base sig args, call = .special base sig args → Allocates p base sig →
      S.writes base)
    (h : lowerCall call p = .ok (code, p')) : Unmoved m S p code p' := by
  have hbase : ∀ base, call.base? = some base → S.reads base := by
    intro base hbase
    exact hcall base (by simp [Invocation.uses, hbase])
  have hargs : ∀ l ∈ localsOf call.args, S.reads l := by
    intro l hl
    exact hcall l (by simp [Invocation.uses, hl])
  -- The arguments are loaded, behind the receiver if there is one, and nothing is accessed then.
  cases call with
  | static sig args =>
    obtain ⟨values, call, hvalues, hcall, rfl⟩ := lowerStatic_run_iff.1 h
    exact (unmoved_of_loadOperands hargs hvalues).snoc (isVar_of_callInsn hcall)
  | special base sig args =>
    exact unmoved_of_lowerSpecial (hbase base rfl) (hdone base sig args rfl) hargs h
  | virtual base sig args => exact unmoved_of_callOn (hbase base rfl) hargs h
  | interface base sig args => exact unmoved_of_callOn (hbase base rfl) hargs h
  | dynamic bootstrap bootstrapArgs sig args =>
    obtain ⟨values, q, handle, constants, desc, hvalues, -, hconstants, -, rfl⟩ :=
      lowerDynamic_run_iff.1 h
    -- The bootstrap method is given the numbers of slots, which accesses none of them.
    have hfills : Slots.Fills S.names q.slots p'.slots :=
      fills_of_bootstrapArguments
        (fun l hl => .inl (hcall l (List.mem_append_right _ hl))) hconstants
    refine (unmoved_of_loadOperands hargs hvalues).append (.behind hfills ?_)
    exact .others (List.forall_mem_singleton.2 rfl)

theorem unmoved_of_lowerNewArray {element : Ty} {size : Operand}
    (hsize : ∀ l ∈ localsOf [size], S.reads l)
    (h : lowerNewArray element size p = .ok (code, p')) : Unmoved m S p code p' := by
  obtain ⟨value, i, hvalue, hi, rfl⟩ := lowerNewArray_run_iff.1 h
  exact (unmoved_of_loadOperand hsize hvalue).snoc (isVar_of_newArrayInsn hi)

theorem unmoved_of_lowerCast {op : Operand} {target : Ty} (hop : ∀ l ∈ localsOf [op], S.reads l)
    (h : lowerCast op target p = .ok (code, p')) : Unmoved m S p code p' := by
  cases href : target.isReference with
  | true =>
    obtain ⟨value, n, -, hvalue, -, rfl⟩ := (lowerCast_run_iff_of_isReference href).1 h
    exact (unmoved_of_loadOperand hop hvalue).snoc rfl
  | false =>
    obtain ⟨convert, value, hconvert, hvalue, rfl⟩ :=
      (lowerCast_run_iff_of_not_isReference href).1 h
    exact (unmoved_of_loadOperand hop hvalue).append (.others (isVar_of_castCode hconvert))

/-- The code of an expression reads locals of the expression. If it completes a new object, it
writes the local that the constructor is called on. -/
theorem unmoved_of_lowerExpr {e : Expr} (he : ∀ l ∈ e.uses, S.reads l)
    (hdone : ∀ base sig args, e = .invoke (.special base sig args) → Allocates p base sig →
      S.writes base)
    (h : lowerExpr e p = .ok (code, p')) : Unmoved m S p code p' := by
  cases e with
  | operand op => exact unmoved_of_loadOperand he h
  | binary op lhs rhs =>
    obtain ⟨left, q, right, o, hleft, hright, -, rfl⟩ := lowerBinary_run_iff.1 h
    obtain ⟨hlhs, hrhs⟩ := forall_mem_localsOf_cons.1 he
    exact ((unmoved_of_loadOperand hlhs hleft).append
      (unmoved_of_loadOperand hrhs hright)).snoc rfl
  | neg op =>
    obtain ⟨value, o, hvalue, -, rfl⟩ := lowerNeg_run_iff.1 h
    exact (unmoved_of_loadOperand he hvalue).snoc rfl
  | cast op target => exact unmoved_of_lowerCast he h
  | instanceOf op check =>
    obtain ⟨object, n, hobject, -, rfl⟩ := lowerInstanceOf_run_iff.1 h
    exact (unmoved_of_loadTested he hobject).snoc rfl
  -- A new object is no expression on its own, and neither is a merge.
  | new n => cases (lift_run_iff.1 h).1
  | newArray element size => exact unmoved_of_lowerNewArray he h
  | newMultiArray t sizes =>
    obtain ⟨values, desc, -, -, hvalues, -, rfl⟩ := lowerNewMultiArray_run_iff.1 h
    exact (unmoved_of_loadOperands he hvalues).snoc rfl
  | length op =>
    obtain ⟨value, hvalue, rfl⟩ := lowerLength_run_iff.1 h
    exact (unmoved_of_loadOperand he hvalue).snoc rfl
  | invoke call =>
    exact unmoved_of_lowerCall he (fun base sig args heq => hdone base sig args (heq ▸ rfl)) h
  | field f =>
    obtain ⟨n, base, -, hbase, rfl⟩ := lowerField_run_iff.1 h
    exact (unmoved_of_loadBase he hbase).snoc rfl
  | element a =>
    obtain ⟨element, place, -, hplace, rfl⟩ := lowerElement_run_iff.1 h
    exact (unmoved_of_loadElementPlace he hplace).snoc rfl
  | phi ls => cases (lift_run_iff.1 h).1

end Expressions

section Statements

/-- No code, but locals that may be accessed get places or are moved. -/
def Silent (S : Scope) (p : Progress) (code : List Insn) (p' : Progress) : Prop :=
  code = [] ∧ Slots.Touches S.names p.slots p'.slots

/-- A name for a caught exception moves to where another local is, and no code is emitted. -/
theorem silent_of_rebind {target source : Local} {b : Binding} (htarget : S.writes target)
    (hsource : S.reads source) (hrole : target.role = .handlerRef)
    (hb : place source p = .ok (b, p')) (h : rebind target b p' = .ok ((), p'')) :
    Silent S p [] p'' := by
  obtain ⟨slots, hbind, rfl⟩ := rebind_run_iff.1 h
  have hmove : Slots.Touch S.names p'.slots slots := .move (.inr htarget) hrole hbind
  exact ⟨rfl, (touches_of_place (.inl hsource) hb).trans (.single hmove)⟩

theorem unmoved_or_silent_of_copyLocal {target source : Local} (htarget : S.writes target)
    (hsource : S.reads source) (h : copyLocal target source p = .ok (code, p')) :
    Unmoved m S p code p' ∨ Silent S p code p' := by
  rcases copyLocal_run_iff.1 h with ⟨-, rfl, rfl⟩ | ⟨-, origin, q, horigin, h⟩
  · exact .inl .nil
  · rcases h with ⟨hrole, rfl, hmove⟩ | ⟨-, destination, q', hdestination, h⟩
    · exact .inr (silent_of_rebind htarget hsource hrole horigin hmove)
    · refine .inl (.behind (fills_of_place (.inl hsource) horigin) ?_)
      refine .behind (fills_of_place (.inr htarget) hdestination) ?_
      rcases h with ⟨-, -, rfl, rfl⟩ | ⟨-, load, q'', store, hload, hstore, rfl⟩
      · exact .nil
      · exact (unmoved_of_loadLocal hsource hload).append (unmoved_of_storeLocal htarget hstore)

theorem unmoved_of_assignValue {target : Local} {rhs : Expr} (htarget : S.writes target)
    (hrhs : ∀ l ∈ rhs.uses, S.reads l)
    (hdone : ∀ base sig args, rhs = .invoke (.special base sig args) → Allocates p base sig →
      S.writes base)
    (h : assignValue target rhs p = .ok (code, p')) : Unmoved m S p code p' := by
  obtain ⟨value, q, store, hvalue, hstore, rfl⟩ := assignValue_run_iff.1 h
  exact (unmoved_of_lowerExpr hrhs hdone hvalue).append (unmoved_of_storeLocal htarget hstore)

theorem unmoved_or_silent_of_assignLocal {isStatic : Bool} {target : Local} {rhs : Expr}
    (htarget : S.writes target) (hrhs : ∀ l ∈ rhs.uses, S.reads l)
    (hdone : ∀ base sig args, rhs = .invoke (.special base sig args) → Allocates p base sig →
      S.writes base)
    (h : assignLocal isStatic target rhs p = .ok (code, p')) :
    Unmoved m S p code p' ∨ Silent S p code p' := by
  have hvar : ∀ {source : Local}, (∀ l ∈ localsOf [.var source], S.reads l) → S.reads source :=
    fun h => h _ (mem_localsOf.2 List.mem_cons_self)
  by_cases hcall : ∃ call, rhs = .invoke call
  · -- Only a call may complete an object, and no place is looked up in front of it.
    obtain ⟨call, rfl⟩ := hcall
    exact .inl (unmoved_of_assignValue htarget hrhs hdone (assignCall_run_iff.1 h).2)
  · cases assigns_of_run h with
    -- Each way to assign reads the value, then finds the place of the local and writes it.
    | copy h => exact unmoved_or_silent_of_copyLocal htarget (hvar hrhs) h
    | rebind hrole hb hmove => exact .inr (silent_of_rebind htarget (hvar hrhs) hrole hb hmove)
    | new => exact .inl ⟨.refl, (Unmoved.others (p := p) (by simp [Insn.isVar])).access⟩
    | newArray harray hplace hstore =>
      refine .inl ((unmoved_of_lowerNewArray hrhs harray).append ?_)
      have hstore := unmoved_of_storeLocal (m := m) htarget hstore
      rcases hplace with ⟨-, rfl⟩ | ⟨-, -, hb⟩
      · exact hstore
      · exact .behind (fills_of_place (.inr htarget) hb) hstore
    | newStackArray harray _ hb hstore =>
      exact .inl (((unmoved_of_lowerNewArray hrhs harray).snoc rfl).append
        (.behind (fills_of_place (.inr htarget) hb) (unmoved_of_storeLocal htarget hstore)))
    | @value _ _ q _ _ _ _ hq hvalue =>
      have hcode : Unmoved m S q code p' := by
        refine unmoved_of_assignValue htarget hrhs ?_ hvalue
        rintro base sig args rfl
        exact absurd ⟨_, rfl⟩ hcall
      rcases hq with rfl | hq
      · exact .inl hcode
      · obtain ⟨slots, hresolve, rfl⟩ := onSlots_run_iff.1 hq
        exact .inl (.behind (.declared (.inr htarget) hresolve) hcode)

theorem unmoved_or_silent_of_lowerAssign {isStatic : Bool} {lhs : Place} {rhs : Expr}
    (hlhs : ∀ l ∈ lhs.uses, S.reads l) (hdef : ∀ l, lhs.local? = some l → S.writes l)
    (hrhs : ∀ l ∈ rhs.uses, S.reads l)
    (hdone : ∀ base sig args, rhs = .invoke (.special base sig args) → Allocates p base sig →
      S.writes base)
    (h : lowerAssign isStatic lhs rhs p = .ok (code, p')) :
    Unmoved m S p code p' ∨ Silent S p code p' := by
  cases lhs with
  | var l => exact unmoved_or_silent_of_assignLocal (hdef l rfl) hrhs hdone h
  | field f =>
    obtain ⟨op, n, base, q, value, rfl, -, hbase, hvalue, rfl⟩ := lowerFieldStore_run_iff.1 h
    exact .inl (((unmoved_of_loadBase hlhs hbase).append
      (unmoved_of_loadOperand hrhs hvalue)).snoc rfl)
  | element a =>
    obtain ⟨op, element, place, q, value, rfl, -, hplace, hvalue, rfl⟩ :=
      lowerElementStore_run_iff.1 h
    exact .inl (((unmoved_of_loadElementPlace hlhs hplace).append
      (unmoved_of_loadOperand hrhs hvalue)).snoc rfl)

/-- A parameter is loaded from where it was passed, and stored in its local. -/
theorem unmoved_of_lowerParameter {b : Body} {index : Nat} {t : Ty}
    (htakes : S.takes (.parameter index t)) (hl : S.writes l)
    (h : lowerParameter m b l index p = .ok (code, p')) : Unmoved m S p code p' := by
  obtain ⟨slot, t', hslot, ht', h⟩ := lowerParameter_run_iff.1 h
  rcases h with ⟨-, rfl, rfl⟩ | ⟨-, binding, hb, h⟩
  · exact .nil
  · have hfills : Slots.Fills S.names p.slots p'.slots := fills_of_place (.inr hl) hb
    rcases h with ⟨-, rfl⟩ | ⟨-, load, store, hload, hstore, rfl⟩
    · -- Bound to where it was passed, the parameter needs no code.
      exact .silent hfills
    · -- The argument is loaded from where it was passed, and stored where its local is by then.
      have hstored : Unmoved m S p' store p' :=
        unmoved_of_moveCode hstore (binding?_place hb) fun o n ho hn => .write hl hn ho
      have hloaded : Unmoved m S p [.var load slot] p :=
        ⟨.refl, List.forall_mem_singleton.2 (.argument htakes hslot ht' hload)⟩
      exact hloaded.append (.behind hfills hstored)

/-- An identity statement takes what it names, and writes its local. -/
theorem unmoved_of_lowerIdentity {b : Body} {source : Source} (htakes : S.takes source)
    (hl : S.writes l) (h : lowerIdentity m b l source p = .ok (code, p')) :
    Unmoved m S p code p' := by
  cases source with
  | this =>
    rcases ite_run_iff.1 h with ⟨-, h⟩ | ⟨hreceiver, h⟩
    · obtain ⟨rfl, rfl⟩ := pure_run_iff.1 h
      exact .nil
    · -- Only a constructor loads its receiver, and that is in the first slot.
      obtain ⟨_, q, hq, h⟩ := bind_run_iff.1 h
      obtain ⟨rfl, rfl⟩ := pure_run_iff.1 h
      obtain rfl := modify_run_iff.1 hq
      have hstatic : m.isStatic = false := by simp_all
      exact ⟨.refl, List.forall_mem_singleton.2 (.receiver htakes hstatic)⟩
  | parameter index t => exact unmoved_of_lowerParameter htakes hl h
  | caughtException => exact unmoved_of_storeLocal hl h

theorem unmoved_of_consume {op : Operand} {o : Opcode} (hop : ∀ l ∈ localsOf [op], S.reads l)
    (h : consume op o p = .ok (code, p')) : Unmoved m S p code p' := by
  obtain ⟨value, hvalue, rfl⟩ := consume_run_iff.1 h
  exact (unmoved_of_loadOperand hop hvalue).snoc rfl

variable {c : MethodContext}

theorem unmoved_of_lowerReturn {op : Option Operand}
    (hop : ∀ x, op = some x → ∀ l ∈ localsOf [x], S.reads l)
    (h : lowerReturn m op p = .ok (code, p')) : Unmoved m S p code p' := by
  cases op with
  | none =>
    obtain ⟨rfl, rfl⟩ := pure_run_iff.1 h
    exact .others (List.forall_mem_singleton.2 rfl)
  | some x =>
    obtain ⟨value, -, hvalue, rfl⟩ := lowerReturn_run_iff.1 h
    exact (unmoved_of_loadOperand (hop x rfl) hvalue).snoc rfl

theorem unmoved_of_lowerBranch {cond : Condition} {target : StmtId}
    (hcond : ∀ l ∈ cond.uses, S.reads l)
    (h : lowerBranch c cond target p = .ok (code, p')) : Unmoved m S p code p' := by
  obtain ⟨label, left, q, right, jump, -, hleft, hright, hjump, rfl⟩ := lowerBranch_run_iff.1 h
  obtain ⟨hlhs, hrhs⟩ := forall_mem_localsOf_cons.1 hcond
  refine ((unmoved_of_loadOperand hlhs hleft).append (unmoved_of_loadOperand hrhs hright)).append
    (.others ?_)
  -- Whatever is compared, the operands are on the stack by then.
  unfold branchCode at hjump
  split at hjump
  · obtain ⟨o, -, rfl⟩ := map_eq_ok_iff.1 hjump
    exact List.forall_mem_singleton.2 rfl
  · split at hjump
    · cases hjump
      simp [Insn.isVar]
    · split at hjump
      · cases hjump
        exact List.forall_mem_singleton.2 rfl
      · cases hjump

/-- A return stands in the place of a goto to it: its block has no label. -/
def InlinedReturn (c : MethodContext) (k : StmtKind) (x : Stmt) : Prop :=
  ∃ target b, k = .goto target ∧ c.body.flow.owner? target = some b ∧ c.labels.get? b = none ∧
    c.body.stmt? target = some x ∧ x.kind.isReturn

/-- A goto accesses nothing, unless a return stands in its place. -/
theorem unmoved_of_lowerGoto {target : StmtId} (hm : c.method = m)
    (hreturn : ∀ x, InlinedReturn c (.goto target) x → ∀ l ∈ x.kind.uses, S.reads l)
    (h : lowerGoto c target p = .ok (code, p')) : Unmoved m S p code p' := by
  obtain ⟨b, hb, ⟨l, -, rfl, rfl⟩ | ⟨hnone, x, hx, h⟩⟩ := lowerGoto_run_iff.1 h
  · exact .others (List.forall_mem_singleton.2 rfl)
  · rw [hm] at h
    rcases h with ⟨op, hkind, h⟩ | ⟨-, h⟩
    · refine unmoved_of_lowerReturn ?_ h
      rintro _ ⟨⟩ l hl
      have hisReturn : x.kind.isReturn := by rw [hkind]; rfl
      exact hreturn x ⟨target, b, rfl, hb, hnone, hx, hisReturn⟩ l (by rw [hkind]; exact hl)
    · refine unmoved_of_lowerReturn ?_ h
      rintro _ ⟨⟩

theorem unmoved_of_lowerSwitch {key : Operand} {values : List Int32} {targets : List StmtId}
    {default : StmtId} (hkey : ∀ l ∈ localsOf [key], S.reads l)
    (h : lowerSwitch c key values targets default p = .ok (code, p')) :
    Unmoved m S p code p' := by
  obtain ⟨label, cases, value, -, -, -, hvalue, rfl⟩ := lowerSwitch_run_iff.1 h
  refine (unmoved_of_loadOperand hkey hvalue).snoc ?_
  unfold switchInsn
  dsimp only
  split
  · split <;> rfl
  · rfl

/-- A scope has what the code of a statement accesses: it reads the locals that the statement uses,
or the return in its place; it writes the local that the statement assigns, and the one that a
constructor is called on if that completes a new object; and it takes what an identity statement
names. -/
structure Scope.Covers (S : Scope) (c : MethodContext) (p : Progress) (k : StmtKind) : Prop where
  /-- The locals that the statement uses may be read. -/
  uses : ∀ l ∈ k.uses, S.reads l
  /-- So may those that a return uses which stands in the place of a goto. -/
  returns : ∀ x, InlinedReturn c k x → ∀ l ∈ x.kind.uses, S.reads l
  /-- The local that the statement assigns may be written. -/
  defines : ∀ l, k.def? = some l → S.writes l
  /-- So may the local of a new object that the statement completes. -/
  completes : ∀ base sig args, k.call? = some (.special base sig args) → Allocates p base sig →
    S.writes base
  /-- What an identity statement names may be taken. -/
  names : ∀ l source, k = .identity l source → S.takes source

/-- The code of a statement is within every scope that has what it accesses. It moves no local,
unless there is none. -/
theorem unmoved_or_silent_of_lowerStmt {k : StmtKind} (hm : c.method = m) (hk : S.Covers c p k)
    (h : lowerStmt c k p = .ok (code, p')) : Unmoved m S p code p' ∨ Silent S p code p' := by
  -- An assignment is the only statement that may give a local the place of another one.
  cases k with
  | assign lhs rhs =>
    obtain ⟨hlhs, hrhs⟩ := List.forall_mem_append.1 hk.uses
    refine unmoved_or_silent_of_lowerAssign hlhs hk.defines hrhs ?_ h
    rintro base sig args rfl
    exact hk.completes base sig args rfl
  | identity l source =>
    rw [lowerStmt, hm] at h
    exact .inl (unmoved_of_lowerIdentity (hk.names l source rfl) (hk.defines l rfl) h)
  | invoke call =>
    obtain ⟨value, hvalue, rfl⟩ := lowerInvoke_run_iff.1 h
    refine .inl ((unmoved_of_lowerCall hk.uses ?_ hvalue).append (.others fun i hi => ?_))
    · rintro base sig args rfl
      exact hk.completes base sig args rfl
    · obtain ⟨o, -, rfl⟩ := Option.map_eq_some_iff.1 (Option.mem_toList.1 hi)
      rfl
  | branch cond target => exact .inl (unmoved_of_lowerBranch hk.uses h)
  | goto target => exact .inl (unmoved_of_lowerGoto hm hk.returns h)
  | switch key values targets default => exact .inl (unmoved_of_lowerSwitch hk.uses h)
  | «return» op =>
    rw [lowerStmt, hm] at h
    refine .inl (unmoved_of_lowerReturn ?_ h)
    rintro _ ⟨⟩
    exact hk.uses
  | returnVoid =>
    rw [lowerStmt, hm] at h
    refine .inl (unmoved_of_lowerReturn ?_ h)
    rintro _ ⟨⟩
  | throw op => exact .inl (unmoved_of_consume hk.uses h)
  | enterMonitor op => exact .inl (unmoved_of_consume hk.uses h)
  | exitMonitor op => exact .inl (unmoved_of_consume hk.uses h)
  | nop =>
    obtain ⟨rfl, rfl⟩ := pure_run_iff.1 h
    exact .inl (.others (List.forall_mem_singleton.2 rfl))
  | breakpoint => cases (lift_run_iff.1 h).1

/-- A scope has what a statement of a body accesses: it reads the locals that the statement uses, or
the return in its place; it writes the local that the statement assigns, or the one that a
constructor is called on; and it takes what an identity statement names. -/
structure Scope.Holds (S : Scope) (b : Body) (k : StmtKind) : Prop where
  /-- The locals that the statement uses may be read. -/
  uses : ∀ l ∈ k.uses, S.reads l
  /-- So may those that a return uses which may stand in the place of a goto. -/
  returns : ∀ t s, k = .goto t → b.stmt? t = some s → ∀ l ∈ s.kind.uses, S.reads l
  /-- The local that the statement assigns may be written. -/
  defines : ∀ l, k.def? = some l → S.writes l
  /-- So may the local that a constructor is called on, whose object is assigned to it then. -/
  constructs : ∀ base sig args, k = .invoke (.special base sig args) → S.writes base
  /-- So may it if the result of the call is assigned. -/
  assigns : ∀ lhs base sig args, k = .assign lhs (.invoke (.special base sig args)) →
    S.writes base
  /-- What an identity statement names may be taken. -/
  names : ∀ l source, k = .identity l source → S.takes source

/-- A scope that has what a statement of a body accesses has what its code does, wherever the
lowering stands. -/
theorem Scope.Holds.covers {k : StmtKind} (h : S.Holds c.body k) (p : Progress) :
    S.Covers c p k where
  uses := h.uses
  returns := by
    rintro x ⟨target, b, hgoto, -, -, hx, -⟩
    exact h.returns target x hgoto hx
  defines := h.defines
  completes := by
    intro base sig args hcall _
    unfold StmtKind.call? at hcall
    split at hcall
    · cases hcall
      exact h.constructs base sig args rfl
    · cases hcall
      exact h.assigns _ base sig args rfl
    · cases hcall
  names := h.names

/-- The code of a statement is within every scope that has what the statement accesses. -/
theorem confined_of_lowerStmt {k : StmtKind} (hm : c.method = m) (hk : S.Holds c.body k)
    (h : lowerStmt c k p = .ok (code, p')) : Confined m S p code p' := by
  rcases unmoved_or_silent_of_lowerStmt hm (hk.covers p) h with hunmoved | ⟨rfl, htouches⟩
  · exact .of_unmoved hunmoved
  · exact .silent htouches

end Statements

section Blocks

variable {c : MethodContext} {title : String} {lines : Bool}

/-- The code of statements of a body is within a scope that has what each of them accesses. -/
theorem confined_of_lowerStmts {ids : List StmtId} (hm : c.method = m)
    (hS : ∀ id ∈ ids, ∀ s, c.body.stmt? id = some s → S.Holds c.body s.kind)
    (h : lowerStmts c title ids p = .ok (code, p')) : Confined m S p code p' := by
  obtain ⟨codes, q, hrun, hcode⟩ := bind_run_iff.1 h
  obtain ⟨rfl, rfl⟩ := pure_run_iff.1 hcode
  refine .flatten (mapM_run_iff.1 hrun) fun id hid q code q' hrun => ?_
  cases hs : c.body.stmt? id with
  | none =>
    simp only [hs] at hrun
    cases (lift_run_iff.1 hrun).1
  | some s =>
    simp only [hs] at hrun
    exact confined_of_lowerStmt hm (hS id hid s hs) (inStmt_run_iff.1 hrun)

/-- The code of a block accesses what its statements do. -/
theorem confined_of_lowerBlock {id : BlockId} (hm : c.method = m)
    (hS : ∀ id s, c.body.stmt? id = some s → S.Holds c.body s.kind)
    (h : lowerBlock c title lines id p = .ok (code, p')) : Confined m S p code p' := by
  obtain ⟨block, stmts, last, -, hstmts, hlast, rfl⟩ := exists_of_lowerBlock h
  -- Labels, lines and jumps access nothing.
  have hstart : Confined m S p (blockStart c lines block id) p := by
    refine .others fun i hi => ?_
    have hmark := isMark_of_blockStart i hi
    cases i <;> first | rfl | cases hmark
  have hend : Confined m S p' last p' := by
    refine .others ?_
    rcases blockEnd_cases hlast with rfl | ⟨next, l, -, rfl⟩
    · exact List.forall_mem_nil _
    · exact List.forall_mem_singleton.2 rfl
  exact (hstart.append (confined_of_lowerStmts hm (fun id _ => hS id) hstmts)).append hend

end Blocks

end BytecodeLowering.Lowering
