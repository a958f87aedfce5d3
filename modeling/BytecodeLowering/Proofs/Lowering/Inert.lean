import BytecodeLowering.Proofs.Ir.Construction
import BytecodeLowering.Proofs.Lowering.Parts
import BytecodeLowering.Proofs.Machine.Objects

/-!
# Steps that leave constructions alone

What is lowered in the same way whatever objects wait for their constructors, and without a call of
a constructor.

* `Inert`: a step that neither reads nor changes the objects that wait, and gives results of a given
  kind, with `Inert.bind`, `Inert.mapM` and the like for the steps that others are made of.
* `Quiet`: code that calls no constructor.
* `inert_loadOperand`, `inert_lowerExpr`, `inert_lowerStmt` and the like: the parts of the lowering
  that are such steps with quiet code.
-/

namespace BytecodeLowering.Lowering

open Ir Machine

variable {α β : Type}

/-- A step that does not depend on the objects that wait for their constructors and leaves them as
they are. Its results are of the given kind. -/
def Inert (Q : α → Prop) (x : Lower α) : Prop :=
  ∀ slots pending a p', x ⟨slots, pending⟩ = .ok (a, p') →
    Q a ∧ p'.pending = pending ∧ ∀ others, x ⟨slots, others⟩ = .ok (a, ⟨p'.slots, others⟩)

namespace Inert

variable {Q : α → Prop} {R : β → Prop}

/-- Doing nothing gives the value. -/
theorem pure {a : α} (ha : Q a) : Inert Q (pure a) := by
  intro slots pending b p' h
  obtain ⟨rfl, rfl⟩ := pure_run_iff.1 h
  exact ⟨ha, rfl, fun _ => rfl⟩

/-- A sequence of such steps is one. -/
theorem bind {x : Lower α} {f : α → Lower β} (hx : Inert Q x) (hf : ∀ a, Q a → Inert R (f a)) :
    Inert R (x >>= f) := by
  intro slots pending b p' h
  obtain ⟨a, ⟨slots', pending'⟩, hfirst, hsecond⟩ := bind_run_iff.1 h
  obtain ⟨ha, rfl, hfirst'⟩ := hx _ _ _ _ hfirst
  obtain ⟨hb, hpending, h'⟩ := hf a ha _ _ _ _ hsecond
  exact ⟨hb, hpending, fun others => bind_run_iff.2 ⟨a, _, hfirst' others, h' others⟩⟩

/-- A step without a state. -/
theorem lift {x : Lowered α} (hx : ∀ a, x = .ok a → Q a) : Inert Q (liftM x : Lower α) := by
  intro slots pending a p' h
  obtain ⟨ha, rfl⟩ := lift_run_iff.1 h
  exact ⟨hx a ha, rfl, fun _ => lift_run_iff.2 ⟨ha, rfl⟩⟩

/-- A step on the places of the locals. -/
theorem onSlots (f : Slots → Lowered (α × Slots)) :
    Inert (fun _ => True) (Lowering.onSlots f) := by
  intro slots pending a p' h
  obtain ⟨slots', hf, rfl⟩ := onSlots_run_iff.1 h
  exact ⟨trivial, rfl, fun _ => onSlots_run_iff.2 ⟨slots', hf, rfl⟩⟩

/-- A choice of such steps is one. -/
theorem ite {c : Prop} [Decidable c] {x y : Lower α} (hx : Inert Q x) (hy : Inert Q y) :
    Inert Q (if c then x else y) := by
  split
  · exact hx
  · exact hy

/-- A step that cannot succeed. -/
theorem fail {x : Lowered α} (hx : ∀ a, x ≠ .ok a) : Inert Q (liftM x : Lower α) :=
  lift fun a ha => absurd ha (hx a)

/-- Such steps on the elements of a list. -/
theorem mapM {f : α → Lower β} (h : ∀ x, Inert R (f x)) (xs : List α) :
    Inert (fun ys => ∀ y ∈ ys, R y) (xs.mapM f) := by
  induction xs with
  | nil => exact pure (List.forall_mem_nil _)
  | cons x xs ih =>
    rw [List.mapM_cons]
    exact bind (h x) fun y hy => bind ih fun ys hys => pure (List.forall_mem_cons.2 ⟨hy, hys⟩)

end Inert

/-- Code that calls no constructor. -/
def Quiet (code : List Insn) : Prop :=
  ∀ i ∈ code, i.isInit = false

namespace Quiet

variable {code code' : List Insn} {i : Insn}

theorem nil : Quiet [] :=
  List.forall_mem_nil _

theorem insn (h : i.isInit = false) : Quiet [i] :=
  List.forall_mem_singleton.2 h

theorem append (h : Quiet code) (h' : Quiet code') : Quiet (code ++ code') :=
  List.forall_mem_append.2 ⟨h, h'⟩

theorem snoc (h : Quiet code) (hi : i.isInit = false) : Quiet (code ++ [i]) :=
  h.append (insn hi)

theorem flatten {codes : List (List Insn)} (h : ∀ code ∈ codes, Quiet code) :
    Quiet codes.flatten := by
  intro i hi
  obtain ⟨code, hcode, hi⟩ := List.mem_flatten.1 hi
  exact h code hcode i hi

end Quiet

section Operands

theorem inert_place (l : Local) : Inert (fun _ => True) (place l) :=
  .onSlots _

theorem inert_rebind (l : Local) (b : Binding) : Inert (fun _ => True) (rebind l b) :=
  .onSlots _

theorem inert_moveCode (op : Lowered Opcode) (b : Binding) :
    Inert Quiet (liftM (moveCode op b) : Lower (List Insn)) := by
  refine .lift fun code h => ?_
  rcases moveCode_eq_ok_iff.1 h with ⟨-, rfl⟩ | ⟨n, o, -, -, rfl⟩
  · exact .nil
  · exact .insn rfl

theorem inert_loadLocal (l : Local) : Inert Quiet (loadLocal l) :=
  .bind (inert_place l) fun b _ => inert_moveCode _ b

theorem inert_storeLocal (l : Local) : Inert Quiet (storeLocal l) :=
  .bind (inert_place l) fun b _ => inert_moveCode _ b

theorem isInit_of_constantCode {c : Constant} {i : Insn} (h : constantCode c = .ok i) :
    i.isInit = false := by
  cases pushes_of_constantCode h <;> rfl

theorem inert_loadOperand (op : Operand) : Inert Quiet (loadOperand op) := by
  cases op with
  | var l => exact inert_loadLocal l
  | const c =>
    have hcode : Inert (fun i => i.isInit = false) (liftM (constantCode c) : Lower Insn) :=
      .lift fun i hi => isInit_of_constantCode hi
    exact hcode.bind fun i hi => .pure (.insn hi)

theorem inert_loadOperands (ops : List Operand) : Inert Quiet (loadOperands ops) :=
  (Inert.mapM inert_loadOperand ops).bind fun _ hcodes => .pure (.flatten hcodes)

end Operands

section Expressions

/-- An instruction that is not for a call is quiet behind quiet code. -/
theorem inert_snoc {code : List Insn} (hcode : Quiet code) {x : Lowered Insn}
    (hx : ∀ i, x = .ok i → i.isInit = false) :
    Inert Quiet (do return code ++ [← x] : Lower (List Insn)) :=
  (Inert.lift (Q := fun i : Insn => i.isInit = false) hx).bind fun _ hi => .pure (hcode.snoc hi)

/-- An operation without operands behind quiet code. -/
theorem inert_operation {code : List Insn} (hcode : Quiet code) (x : Lowered Opcode) :
    Inert Quiet (do return code ++ [.simple (← x)] : Lower (List Insn)) :=
  (Inert.lift (Q := fun _ => True) fun _ _ => trivial).bind fun _ _ => .pure (hcode.snoc rfl)

/-- An operation with a type behind quiet code. -/
theorem inert_typed {code : List Insn} (hcode : Quiet code) (op : Opcode) (x : Lowered String) :
    Inert Quiet (do return code ++ [.type op (← x)] : Lower (List Insn)) :=
  (Inert.lift (Q := fun _ => True) fun _ _ => trivial).bind fun _ _ => .pure (hcode.snoc rfl)

theorem isInit_fieldInsn (op : Opcode) (n : MemberName) : (fieldInsn op n).isInit = false :=
  rfl

/-- The instruction for a call calls a constructor only if the method is one. -/
theorem isInit_of_callInsn {op : Opcode} {m : MethodSignature} {interface : Bool} {i : Insn}
    (hm : op = .invokespecial → m.isConstructor = false) (h : callInsn op m interface = .ok i) :
    i.isInit = false := by
  obtain ⟨n, hn, rfl⟩ := map_eq_ok_iff.1 h
  obtain ⟨desc, -, rfl⟩ := map_eq_ok_iff.1 hn
  cases op <;> first | rfl | exact hm rfl

theorem inert_loadBase (f : FieldRef) : Inert Quiet (loadBase f) := by
  unfold loadBase
  split
  · exact inert_loadLocal _
  · exact .pure .nil

theorem inert_fieldName (f : FieldSignature) :
    Inert (fun _ => True) (liftM (fieldName f) : Lower MemberName) :=
  .lift fun _ _ => trivial

theorem inert_lowerField (f : FieldRef) : Inert Quiet (lowerField f) :=
  (inert_fieldName f.field).bind fun n _ =>
    (inert_loadBase f).bind fun _ hbase => .pure (hbase.snoc (isInit_fieldInsn _ n))

theorem inert_elementOf (a : ArrayRef) :
    Inert (fun _ => True) (liftM (elementOf a) : Lower Ty) :=
  .lift fun _ _ => trivial

theorem inert_loadElementPlace (a : ArrayRef) : Inert Quiet (loadElementPlace a) :=
  (inert_loadLocal a.base).bind fun _ hbase =>
    (inert_loadOperand a.index).bind fun _ hindex => .pure (hbase.append hindex)

theorem inert_loadTested (op : Operand) : Inert Quiet (loadTested op) := by
  refine (Inert.onSlots _).bind fun b _ => ?_
  cases b with
  | slot n => exact .pure (.insn rfl)
  | stack => exact .pure .nil

theorem inert_lowerNewArray (element : Ty) (size : Operand) :
    Inert Quiet (lowerNewArray element size) := by
  refine (inert_loadOperand size).bind fun _ hsize => inert_snoc hsize fun i hi => ?_
  unfold newArrayInsn at hi
  split at hi
  · cases hi
    rfl
  · obtain ⟨n, -, rfl⟩ := map_eq_ok_iff.1 hi
    rfl

theorem inert_lowerCast (op : Operand) (target : Ty) : Inert Quiet (lowerCast op target) := by
  have hcheck : Inert Quiet (do
      return (← loadOperand op) ++ [.type .checkcast (← internalName target)]) :=
    (inert_loadOperand op).bind fun _ hvalue => inert_typed hvalue _ _
  refine .ite (.ite ?_ hcheck) ?_
  · exact .bind (Q := fun _ => True) (.fail fun _ => not_unsupported) fun _ _ => hcheck
  · refine .bind (Q := Quiet) (.lift fun convert h => ?_) fun _ hconvert =>
      (inert_loadOperand op).bind fun _ hvalue => .pure (hvalue.append hconvert)
    unfold castCode at h
    split at h
    · cases h
      intro i hi
      obtain ⟨o, -, rfl⟩ := List.mem_map.1 hi
      rfl
    · cases h

theorem inert_callOn (op : Opcode) (base : Local) (m : MethodSignature) (args : List Operand)
    (interface : Bool) (hm : op = .invokespecial → m.isConstructor = false) :
    Inert Quiet (callOn op base m args interface) :=
  (inert_loadLocal base).bind fun _ hbase =>
    (inert_loadOperands args).bind fun _ hargs =>
      inert_snoc (hbase.append hargs) fun _ hi => isInit_of_callInsn hm hi

theorem inert_bootstrapArgument (op : Operand) :
    Inert (fun _ => True) (bootstrapArgument op) := by
  cases op with
  | const c => exact .lift fun _ _ => trivial
  | var l =>
    refine (inert_place l).bind fun b _ => ?_
    cases b with
    | slot n => exact .pure trivial
    | stack => exact .fail fun _ => not_unsupported

/-- A call is lowered in the same way whatever waits if it calls no constructor. -/
theorem inert_lowerCall {call : Invocation}
    (h : ∀ base m args, call = .special base m args → m.isConstructor = false) :
    Inert Quiet (lowerCall call) := by
  cases call with
  | static m args =>
    have hm : Opcode.invokestatic = .invokespecial → m.isConstructor = false := by
      intro heq
      cases heq
    exact (inert_loadOperands args).bind fun _ hargs =>
      inert_snoc hargs fun _ hi => isInit_of_callInsn hm hi
  | special base m args =>
    have hm := h base m args rfl
    -- What waits is searched for the sake of constructors only.
    have htake : Inert (fun done => done = none) (takePending base m) := by
      rw [takePending, hm]
      exact .pure rfl
    refine htake.bind fun done hdone => ?_
    rw [hdone]
    exact inert_callOn _ _ _ _ _ fun _ => hm
  | virtual base m args | interface base m args =>
    refine inert_callOn _ _ _ _ _ fun heq => ?_
    cases heq
  | dynamic bootstrap bootstrapArgs m args =>
    refine (inert_loadOperands args).bind fun _ hargs =>
      .bind (Q := fun _ => True) (.lift fun _ _ => trivial) fun _ _ =>
      .bind (Inert.mapM inert_bootstrapArgument bootstrapArgs) fun _ _ =>
      .bind (Q := fun _ => True) (.lift fun _ _ => trivial) fun _ _ => .pure (hargs.snoc rfl)

/-- So is an expression. -/
theorem inert_lowerExpr {e : Expr}
    (h : ∀ base m args, e = .invoke (.special base m args) → m.isConstructor = false) :
    Inert Quiet (lowerExpr e) := by
  cases e with
  | operand op => exact inert_loadOperand op
  | binary op lhs rhs =>
    exact (inert_loadOperand lhs).bind fun _ hlhs =>
      (inert_loadOperand rhs).bind fun _ hrhs => inert_operation (hlhs.append hrhs) _
  | neg op => exact (inert_loadOperand op).bind fun _ hvalue => inert_operation hvalue _
  | cast op target => exact inert_lowerCast op target
  | instanceOf op check =>
    exact (inert_loadTested op).bind fun _ hobject => inert_typed hobject _ _
  | new n => exact .fail fun _ => not_unsupported
  | newArray element size => exact inert_lowerNewArray element size
  | newMultiArray t sizes =>
    have hsizes : Inert Quiet (do
        let code ← loadOperands sizes
        return code ++ [.multiNewArray (← descriptor t) sizes.length]) :=
      (inert_loadOperands sizes).bind fun _ hsizes =>
        .bind (Q := fun _ => True) (.lift fun _ _ => trivial) fun _ _ => .pure (hsizes.snoc rfl)
    exact .ite (.bind (Q := fun _ => True) (.fail fun _ => not_unsupported) fun _ _ => hsizes)
      hsizes
  | length op => exact (inert_loadOperand op).bind fun _ hvalue => .pure (hvalue.snoc rfl)
  | invoke call => exact inert_lowerCall fun base m args heq => h base m args (heq ▸ rfl)
  | field f => exact inert_lowerField f
  | element a =>
    exact (inert_elementOf a).bind fun _ _ =>
      (inert_loadElementPlace a).bind fun _ hplace => .pure (hplace.snoc rfl)
  | phi ls => exact .fail fun _ => not_unsupported

end Expressions

section Statements

theorem inert_copyLocal (target source : Local) : Inert Quiet (copyLocal target source) := by
  refine .ite (.pure .nil) ((inert_place source).bind fun origin _ => .ite ?_ ?_)
  · exact (inert_rebind target origin).bind fun _ _ => .pure .nil
  · refine (inert_place target).bind fun destination _ => .ite (.pure .nil) ?_
    exact (inert_loadLocal source).bind fun _ hload =>
      (inert_storeLocal target).bind fun _ hstore => .pure (hload.append hstore)

theorem inert_assignValue {target : Local} {rhs : Expr}
    (h : ∀ base m args, rhs = .invoke (.special base m args) → m.isConstructor = false) :
    Inert Quiet (assignValue target rhs) :=
  (inert_lowerExpr h).bind fun _ hvalue =>
    (inert_storeLocal target).bind fun _ hstore => .pure (hvalue.append hstore)

/-- So is an assignment to a local of anything but a new object. -/
theorem inert_assignLocal {isStatic : Bool} {target : Local} {rhs : Expr}
    (hnew : ∀ n, rhs ≠ .new n)
    (h : ∀ base m args, rhs = .invoke (.special base m args) → m.isConstructor = false) :
    Inert Quiet (assignLocal isStatic target rhs) := by
  have hvalue : Inert Quiet (assignValue target rhs) := inert_assignValue h
  unfold assignLocal
  split
  · exact inert_copyLocal _ _
  · refine .ite ((inert_place _).bind fun b _ => ?_) hvalue
    exact (inert_rebind target b).bind fun _ _ => .pure .nil
  · exact absurd rfl (hnew _)
  · refine (inert_lowerNewArray _ _).bind fun array harray => .ite ?_ ?_
    · refine (inert_place target).bind fun b _ => ?_
      cases b with
      | stack =>
        exact (inert_storeLocal target).bind fun _ hstore =>
          .pure ((harray.snoc rfl).append hstore)
      | slot n =>
        exact (inert_storeLocal target).bind fun _ hstore => .pure (harray.append hstore)
    · exact (inert_storeLocal target).bind fun _ hstore => .pure (harray.append hstore)
  · exact .ite (.bind (Q := fun _ => True) (.fail fun _ => not_inconsistent) fun _ _ => hvalue)
      hvalue
  · exact .ite ((Inert.onSlots _).bind fun _ _ => hvalue) hvalue
  · exact hvalue

theorem inert_asOperand (rhs : Expr) (e : String → Unsupported) :
    Inert (fun _ => True) (liftM (asOperand rhs e) : Lower Operand) :=
  .lift fun _ _ => trivial

theorem inert_lowerAssign {isStatic : Bool} {lhs : Place} {rhs : Expr}
    (hnew : ∀ l n, lhs = .var l → rhs ≠ .new n)
    (h : ∀ base m args, rhs = .invoke (.special base m args) → m.isConstructor = false) :
    Inert Quiet (lowerAssign isStatic lhs rhs) := by
  cases lhs with
  | var l => exact inert_assignLocal (fun n => hnew l n rfl) h
  | field f =>
    exact (inert_asOperand rhs _).bind fun op _ => (inert_fieldName f.field).bind fun n _ =>
      (inert_loadBase f).bind fun _ hbase => (inert_loadOperand op).bind fun _ hvalue =>
        .pure ((hbase.append hvalue).snoc (isInit_fieldInsn _ n))
  | element a =>
    exact (inert_asOperand rhs _).bind fun op _ => (inert_elementOf a).bind fun _ _ =>
      (inert_loadElementPlace a).bind fun _ hplace => (inert_loadOperand op).bind fun _ hvalue =>
        .pure ((hplace.append hvalue).snoc rfl)

theorem inert_lowerParameter (m : Method) (b : Body) (l : Local) (index : Nat) :
    Inert Quiet (lowerParameter m b l index) := by
  intro slots pending code p' h
  obtain ⟨slot, t, hslot, ht, h⟩ := lowerParameter_run_iff.1 h
  rcases h with ⟨huses, rfl, rfl⟩ | ⟨huses, binding, hb, h⟩
  · exact ⟨.nil, rfl, fun _ =>
      lowerParameter_run_iff.2 ⟨slot, t, hslot, ht, .inl ⟨huses, rfl, rfl⟩⟩⟩
  · -- The place of the local is found in the slots alone.
    obtain ⟨-, hpending, hplace⟩ := inert_place l _ _ _ _ hb
    refine ⟨?_, hpending, fun others => lowerParameter_run_iff.2
      ⟨slot, t, hslot, ht, .inr ⟨huses, binding, hplace others, h⟩⟩⟩
    rcases h with ⟨-, rfl⟩ | ⟨-, load, store, -, hstore, rfl⟩
    · exact .nil
    · have hmove := (inert_moveCode _ binding slots pending store ⟨slots, pending⟩
        (lift_run_iff.2 ⟨hstore, rfl⟩)).1
      exact (Quiet.insn (i := .var load slot) rfl).append hmove

/-- So is an identity statement that does not take the receiver of a constructor. -/
theorem inert_lowerIdentity {m : Method} {b : Body} {l : Local} {source : Source}
    (h : source = .this → (m.isStatic || !m.isConstructor) = true) :
    Inert Quiet (lowerIdentity m b l source) := by
  cases source with
  | this =>
    rw [lowerIdentity, if_pos (h rfl)]
    exact .pure .nil
  | parameter index t => exact inert_lowerParameter m b l index
  | caughtException => exact inert_storeLocal l

theorem inert_consume (op : Operand) (o : Opcode) : Inert Quiet (consume op o) :=
  (inert_loadOperand op).bind fun _ hvalue => .pure (hvalue.snoc rfl)

theorem inert_lowerReturn (m : Method) (op : Option Operand) : Inert Quiet (lowerReturn m op) := by
  cases op with
  | none => exact .pure (.insn rfl)
  | some op =>
    exact .ite (.bind (Q := fun _ => True) (.fail fun _ => not_inconsistent) fun _ _ =>
      inert_consume op _) (inert_consume op _)

theorem inert_targetLabel (c : MethodContext) (s : StmtId) :
    Inert (fun _ => True) (liftM (targetLabel c s) : Lower Label) :=
  .lift fun _ _ => trivial

theorem inert_lowerBranch (c : MethodContext) (cond : Condition) (target : StmtId) :
    Inert Quiet (lowerBranch c cond target) := by
  refine (inert_targetLabel c target).bind fun label _ => (inert_loadOperand _).bind
    fun _ hleft => (inert_loadOperand _).bind fun _ hright =>
      .bind (Q := Quiet) (.lift fun jump h => ?_) fun _ hjump =>
        .pure ((hleft.append hright).append hjump)
  unfold branchCode at h
  split at h
  · obtain ⟨o, -, rfl⟩ := map_eq_ok_iff.1 h
    exact .insn rfl
  · split at h
    · cases h
      exact (Quiet.insn rfl).append (.insn rfl)
    · split at h
      · cases h
        exact .insn rfl
      · cases h

theorem inert_lowerGoto (c : MethodContext) (target : StmtId) :
    Inert Quiet (lowerGoto c target) := by
  refine .bind (Q := fun _ => True) (.lift fun _ _ => trivial) fun b _ => ?_
  split
  · exact .pure (.insn rfl)
  · split
    · exact inert_lowerReturn _ _
    · exact inert_lowerReturn _ _
    · exact .fail fun _ => not_inconsistent

theorem inert_lowerSwitch (c : MethodContext) (key : Operand) (values : List Int32)
    (targets : List StmtId) (default : StmtId) :
    Inert Quiet (lowerSwitch c key values targets default) := by
  intro slots pending code p' h
  obtain ⟨label, cases, value, hlabel, hcases, htwin, hvalue, rfl⟩ := lowerSwitch_run_iff.1 h
  obtain ⟨hquiet, hpending, hload⟩ := inert_loadOperand key _ _ _ _ hvalue
  refine ⟨hquiet.snoc ?_, hpending, fun others => lowerSwitch_run_iff.2
    ⟨label, cases, value, hlabel, hcases, htwin, hload others, rfl⟩⟩
  unfold switchInsn
  dsimp only
  split
  · split <;> rfl
  · rfl

/-- A statement that neither opens nor closes a construction is lowered in the same way whatever
waits, to code that calls no constructor. -/
theorem inert_lowerStmt {c : MethodContext} {k : StmtKind} (h : k.IsApart c.method) :
    Inert Quiet (lowerStmt c k) := by
  obtain ⟨hopens, hcloses, hstray⟩ := h
  cases k with
  | assign lhs rhs =>
    refine inert_lowerAssign ?_ ?_
    · rintro l n rfl rfl
      cases hopens
    · rintro base m args rfl
      exact hstray
  | identity l source =>
    refine inert_lowerIdentity ?_
    rintro rfl
    by_contra hreceiver
    simp [StmtKind.opens?, hreceiver] at hopens
  | invoke call =>
    refine (inert_lowerCall ?_).bind fun _ hcode => .pure (hcode.append ?_)
    · rintro base m args rfl
      by_contra hm
      simp [StmtKind.closes?, hm] at hcloses
    · intro i hi
      obtain ⟨o, -, rfl⟩ := Option.map_eq_some_iff.1 (Option.mem_toList.1 hi)
      rfl
  | branch cond target => exact inert_lowerBranch c cond target
  | goto target => exact inert_lowerGoto c target
  | switch key values targets default => exact inert_lowerSwitch c key values targets default
  | «return» op => exact inert_lowerReturn c.method (some op)
  | returnVoid => exact inert_lowerReturn c.method none
  | throw op => exact inert_consume op _
  | enterMonitor op => exact inert_consume op _
  | exitMonitor op => exact inert_consume op _
  | nop => exact .pure (.insn rfl)
  | breakpoint => exact .fail fun _ => not_unsupported

end Statements

end BytecodeLowering.Lowering
