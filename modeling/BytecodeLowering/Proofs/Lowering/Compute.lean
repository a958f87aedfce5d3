import BytecodeLowering.Proofs.Ir.Temporary
import BytecodeLowering.Proofs.Lowering.Choice
import BytecodeLowering.Proofs.Lowering.Control
import BytecodeLowering.Proofs.Lowering.Home

/-!
# Computing with integers

The code of an operand or expression over integers leaves its value on the operand stack, where its
stack temporaries were before.

* `integral_of_mentions`, `numeric_of_mentions`: the locals of an integral statement are integral,
  and those of a statement without a branch are numeric.
* `perform_constantCode`, `compute_binaryOp`, `compute_negOp`, `exec_castCode`: the operations that
  are selected do what is asked for.
* `Slots.Agrees`: a local has its value where its slot is.
* `exec_loadOperand`, `exec_loadNumeric`, `exec_lowerExpr`: the code of operands and expressions.
* `Binding.put`, `exec_assignLocal`: the code of an assignment leaves the value where the local is.
* `chooses_lowerBranch`, `chooses_lowerSwitch`: the code of branches goes where they go.
-/

namespace BytecodeLowering.Lowering

open Ir Machine

section Operations

variable {x : Store} {a b : Value} {stack : List Value} {f : Frame} {c : Category} {o : Opcode}

/-- The instruction for a 32-bit integer pushes it. -/
theorem perform_intCode (v : Int32) : (intCode v).perform x = .done (x.push (.int v)) := by
  -- Seven small values have operations of their own.
  have hsmall : ∀ k : Int32, v.toInt = k.toInt → v = k := fun k h => Int32.toInt_inj.1 h
  unfold intCode
  split
  · rw [hsmall (-1) ‹_›]
    rfl
  · rw [hsmall 0 ‹_›]
    rfl
  · rw [hsmall 1 ‹_›]
    rfl
  · rw [hsmall 2 ‹_›]
    rfl
  · rw [hsmall 3 ‹_›]
    rfl
  · rw [hsmall 4 ‹_›]
    rfl
  · rw [hsmall 5 ‹_›]
    rfl
  · split
    · rename_i hrange
      -- The value is not changed when its low byte is extended.
      have hbyte : v.toInt8.toInt32 = v := by
        rw [← Int32.toInt_inj, Int8.toInt_toInt32, Int32.toInt_toInt8]
        have hmin : Int8.minValue.toInt = -128 := rfl
        have hmax : Int8.maxValue.toInt = 127 := rfl
        exact Int.bmod_eq_of_le (by omega) (by omega)
      rw [Insn.perform, hbyte]
    · split
      · rename_i hrange
        have hword : v.toInt16.toInt32 = v := by
          rw [← Int32.toInt_inj, Int16.toInt_toInt32, Int32.toInt_toInt16]
          have hmin : Int16.minValue.toInt = -32768 := rfl
          have hmax : Int16.maxValue.toInt = 32767 := rfl
          exact Int.bmod_eq_of_le (by omega) (by omega)
        rw [Insn.perform, hword]
      · rfl

/-- The instruction for a 64-bit integer pushes it. -/
theorem perform_longCode (v : Int64) : (longCode v).perform x = .done (x.push (.long v)) := by
  unfold longCode
  split
  · rename_i heq
    rw [heq]
    rfl
  · split
    · rename_i heq
      rw [heq]
      rfl
    · rfl

/-- The instruction for an integral constant pushes it. -/
theorem perform_constantCode {k : Constant} {i : Insn} (hk : (Operand.const k).Integral)
    (h : constantCode k = .ok i) (env : Env) :
    i.perform x = ((Operand.const k).eval env).map x.push := by
  cases k with
  | int v =>
    cases h
    exact perform_intCode v
  | long v =>
    cases h
    exact perform_longCode v
  | _ => cases hk

/-- The operation for a binary operator computes it. -/
theorem compute_binaryOp {op : BinOp} (h : binaryOp op c = .ok o)
    (hc : c = .int ∨ c = .long) (ha : a.category = c)
    (hb : b.category = if op.isShift then .int else c) :
    o.compute (b :: a :: stack) = (op.apply a b).map fun v => v :: stack := by
  rcases hc with rfl | rfl
  · obtain ⟨a, rfl⟩ := Value.exists_int ha
    obtain ⟨b, rfl⟩ := Value.exists_int (hb.trans (by split <;> rfl))
    cases op <;> cases h <;>
      simp [Opcode.compute, onInts, BinOp.apply, BinOp.int]
  · obtain ⟨a, rfl⟩ := Value.exists_long ha
    cases hop : op.isShift with
    | true =>
      rw [hop] at hb
      -- A shift takes its distance as a 32-bit integer, also where it shifts a 64-bit one.
      obtain ⟨n, rfl⟩ := Value.exists_int hb
      cases op <;> cases hop <;> cases h <;> rfl
    | false =>
      rw [hop] at hb
      obtain ⟨b, rfl⟩ := Value.exists_long hb
      cases op <;> cases hop <;> cases h <;>
        simp [Opcode.compute, onLongs, BinOp.apply, BinOp.long]

/-- The operation for a commutative operator computes it with the operands swapped. -/
theorem compute_binaryOp_swapped {op : BinOp} (h : binaryOp op c = .ok o)
    (hop : op.isCommutative) (hc : c = .int ∨ c = .long) (ha : a.category = c)
    (hb : b.category = if op.isShift then .int else c) :
    o.compute (a :: b :: stack) = (op.apply a b).map fun v => v :: stack := by
  have hshift : op.isShift = false := by
    cases op <;> first | rfl | cases hop
  rw [hshift] at hb
  rw [BinOp.apply_comm hop]
  exact compute_binaryOp h hc hb (by rw [hshift]; exact ha)

/-- The operation for a negation computes it. -/
theorem compute_negOp (h : negOp c = .ok o) (hc : c = .int ∨ c = .long) (ha : a.category = c) :
    o.compute (a :: stack) = .done (negate a :: stack) := by
  rcases hc with rfl | rfl
  · obtain ⟨a, rfl⟩ := Value.exists_int ha
    cases h
    rfl
  · obtain ⟨a, rfl⟩ := Value.exists_long ha
    cases h
    rfl

/-- The operations for a conversion between integral types convert the value on top. -/
theorem exec_castCode {s t : Ty} {code : List Insn} (hs : s.IsIntegral) (ht : t.IsIntegral)
    (h : castCode s t = .ok code) (ha : a.category = s.category) :
    exec code ⟨a :: stack, f⟩ = (convert a t).map fun v => ⟨v :: stack, f⟩ := by
  rcases hs with rfl | rfl
  · obtain ⟨a, rfl⟩ := Value.exists_int ha
    rcases ht with rfl | rfl <;> cases h <;> rfl
  · obtain ⟨a, rfl⟩ := Value.exists_long ha
    rcases ht with rfl | rfl <;> cases h <;> rfl

/-- The operation that leaves a method returns the value on top. -/
theorem compute_returnOp (hc : c = .int ∨ c = .long) (ha : a.category = c) :
    (returnOp c).compute (a :: stack) = .ends (.returned (some a)) := by
  rcases hc with rfl | rfl
  · obtain ⟨a, rfl⟩ := Value.exists_int ha
    rfl
  · obtain ⟨a, rfl⟩ := Value.exists_long ha
    rfl

/-- The operation that loads a value of a category pushes the one that is there. -/
theorem access_loadOp {n : Nat} (h : loadOp c = .ok o) (hv : f.Holds n a) (ha : a.category = c) :
    o.access n ⟨stack, f⟩ = .done ⟨a :: stack, f⟩ := by
  cases a with
  | int a =>
    subst ha
    cases h
    rw [← show f.int n = a from hv]
    rfl
  | long a =>
    subst ha
    cases h
    rw [← show f.long n = a from hv]
    rfl

/-- The operation that stores a value of a category pops it and puts it there. -/
theorem access_storeOp {n : Nat} (h : storeOp c = .ok o) (ha : a.category = c) :
    o.access n ⟨a :: stack, f⟩ = .done ⟨stack, f.set n a⟩ := by
  cases a with
  | int a =>
    subst ha
    cases h
    rfl
  | long a =>
    subst ha
    cases h
    rfl

end Operations

section Locals

variable {m : Method} {b : Body}

/-- The local of an integral operand is integral. -/
theorem integral_of_mem_localsOf {op : Operand} (hop : op.Integral) :
    ∀ l ∈ Ir.localsOf [op], l.Integral := by
  intro l hl
  obtain rfl := List.mem_singleton.1 (mem_localsOf.1 hl)
  exact hop

/-- The local of a numeric operand is numeric. -/
theorem numeric_of_mem_localsOf {op : Operand} (hop : op.Numeric) :
    ∀ l ∈ Ir.localsOf [op], l.Numeric := by
  intro l hl
  obtain rfl := List.mem_singleton.1 (mem_localsOf.1 hl)
  exact hop

/-- The locals of two integral operands are integral. -/
theorem integral_of_mem_operands {lhs rhs : Operand} (hlhs : lhs.Integral) (hrhs : rhs.Integral) :
    ∀ l ∈ Ir.localsOf [lhs, rhs], l.Integral :=
  forall_mem_localsOf_cons.2 ⟨integral_of_mem_localsOf hlhs, integral_of_mem_localsOf hrhs⟩

/-- The locals of an integral expression are integral. -/
theorem integral_of_mem_uses {rhs : Expr} (h : rhs.Integral) : ∀ l ∈ rhs.uses, l.Integral := by
  cases rhs with
  | operand op | neg op => exact integral_of_mem_localsOf h
  | cast op t => exact integral_of_mem_localsOf h.1
  | binary op lhs rhs => exact integral_of_mem_operands h.1 h.2.1
  | _ => cases h

/-- The locals of an expression with numeric operands are numeric. -/
theorem numeric_of_mem_uses {rhs : Expr} (h : rhs.Numeric) : ∀ l ∈ rhs.uses, l.Numeric := by
  cases rhs with
  | operand op | neg op => exact numeric_of_mem_localsOf h
  | cast op t => exact numeric_of_mem_localsOf h.1
  | binary op lhs rhs =>
    exact forall_mem_localsOf_cons.2
      ⟨numeric_of_mem_localsOf h.1, numeric_of_mem_localsOf h.2.1⟩
  | _ => cases h

/-- The locals of a statement without a branch are numeric. -/
theorem numeric_of_mentions {k : StmtKind} (h : k.Straight m) {l : Local} (hl : k.Mentions l) :
    l.Numeric := by
  cases k with
  | assign lhs rhs =>
    cases lhs with
    | var target =>
      rcases hl with hl | hl
      · exact numeric_of_mem_uses h.2.1 l (by simpa [StmtKind.uses, Place.uses] using hl)
      · cases hl
        exact h.1
    | _ => cases h
  | identity target source =>
    cases source with
    | parameter index t =>
      rcases hl with hl | hl
      · cases hl
      · cases hl
        exact h.1.numeric
    | _ => cases h
  | «return» op =>
    rcases hl with hl | hl
    · exact numeric_of_mem_localsOf h.1 l hl
    · cases hl
  | returnVoid => rcases hl with hl | hl <;> cases hl
  | _ => cases h

/-- The locals of an integral statement are integral. -/
theorem integral_of_mentions {k : StmtKind} (h : k.Integral m) {l : Local} (hl : k.Mentions l) :
    l.Integral := by
  cases k with
  | assign lhs rhs =>
    cases lhs with
    | var target =>
      rcases hl with hl | hl
      · exact integral_of_mem_uses h.2.1 l (by simpa [StmtKind.uses, Place.uses] using hl)
      · cases hl
        exact h.1
    | _ => cases h
  | identity target source =>
    obtain ⟨_, _, _, heq⟩ := h.eq_of_isIdentity rfl
    cases heq
    rcases hl with hl | hl
    · cases hl
    · cases hl
      exact h.1
  | branch cond target =>
    rcases hl with hl | hl
    · exact integral_of_mem_operands h.1 h.2.1 l hl
    · cases hl
  | switch key values targets default =>
    rcases hl with hl | hl
    · exact integral_of_mem_localsOf h.1 l hl
    · cases hl
  | «return» op =>
    rcases hl with hl | hl
    · exact integral_of_mem_localsOf h.1 l hl
    · cases hl
  | goto target => rcases hl with hl | hl <;> cases hl
  | returnVoid => rcases hl with hl | hl <;> cases hl
  | nop => rcases hl with hl | hl <;> cases hl
  | _ => cases h

/-- A local that a statement reads is read. -/
theorem usesLocal_of_mem {s : Stmt} (hs : s ∈ b.stmts) {l : Local} (hl : l ∈ s.kind.uses) :
    b.usesLocal l :=
  List.any_eq_true.2 ⟨s, hs, by simpa using hl⟩

end Locals

/-- A local has its value where its slot is. -/
def Slots.Agrees (s : Slots) (f : Frame) (env : Env) (l : Local) : Prop :=
  ∀ n, s.binding? l = some (.slot n) → f.Holds n (env l)

section Operands

variable {m : Method} {b : Body} {final : Slots} {p p' : Progress} {code : List Insn} {env : Env}
  {f : Frame} {stack : List Value} {l : Local} {v : Value}

/-- A numeric local that is asked for stays where it is. -/
theorem binding?_of_place (hl : l.Numeric) {x : Binding} (h : place l p = .ok (x, p'))
    (htouch : Slots.Touches Local.Numeric p'.slots final) : final.binding? l = some x := by
  -- Only the places of caught exceptions are changed later on.
  have hrole : l.role ≠ .handlerRef := by
    rcases hl.role with hrole | hrole <;> simp [hrole]
  exact htouch.binding?_keep hrole (binding?_place h)

/-- An integral local that is asked for is in a slot, and stays there. -/
theorem exists_slot_of_place (hfinal : Slots.Apart m b final) (hl : l.Integral) {x : Binding}
    (h : place l p = .ok (x, p')) (htouch : Slots.Touches Local.Numeric p'.slots final) :
    ∃ n, x = .slot n ∧ final.binding? l = some (.slot n) := by
  have hx := binding?_of_place hl.numeric h htouch
  obtain ⟨n, rfl⟩ := hfinal.exists_slot hl hx
  exact ⟨n, rfl, hx⟩

/-- The code for an integral operand pushes its value. -/
theorem exec_loadOperand (hfinal : Slots.Apart m b final) (henv : env.Typed) {op : Operand}
    (hop : op.Integral) (h : loadOperand op p = .ok (code, p'))
    (htouch : Slots.Touches Local.Numeric p'.slots final)
    (hagree : ∀ l ∈ Ir.localsOf [op], final.Agrees f env l) :
    exec code ⟨stack, f⟩ = (op.eval env).map fun v => ⟨v :: stack, f⟩ := by
  cases op with
  | var l =>
    obtain ⟨x, hplace, hcode⟩ := loadLocal_run_iff.1 h
    obtain ⟨n, rfl, hn⟩ := exists_slot_of_place hfinal hop hplace htouch
    obtain ⟨⟨⟩, -⟩ | ⟨_, o, ⟨⟩, ho, rfl⟩ := moveCode_eq_ok_iff.1 hcode
    -- An integral local lives in a slot, which has its value.
    have hvalue := hagree l (mem_localsOf.2 List.mem_cons_self) n hn
    rw [exec_singleton, Insn.perform, access_loadOp ho hvalue (henv l hop.ty)]
    rfl
  | const k =>
    obtain ⟨i, hi, rfl, -⟩ := loadConst_run_iff.1 h
    rw [exec_singleton, perform_constantCode hop hi env]
    rfl

/-- There is no code for a stack temporary. -/
theorem eq_nil_of_loadOperand (hfinal : Slots.Apart m b final) (hl : l.Numeric)
    (hrole : l.role = .stackTemp) (h : loadOperand (.var l) p = .ok (code, p'))
    (htouch : Slots.Touches Local.Numeric p'.slots final) : code = [] := by
  obtain ⟨x, hplace, hcode⟩ := loadLocal_run_iff.1 h
  obtain rfl := (hfinal.stack l x (binding?_of_place hl hplace htouch)).2 hrole
  cases hcode
  rfl

/-- The code for a numeric operand leaves its value on the operand stack. A stack temporary is there
already. -/
theorem exec_loadNumeric (hfinal : Slots.Apart m b final) (henv : env.Typed) {op : Operand}
    (hop : op.Numeric) (h : loadOperand op p = .ok (code, p'))
    (htouch : Slots.Touches Local.Numeric p'.slots final)
    (hagree : ∀ l ∈ Ir.localsOf [op], final.Agrees f env l) (stack : List Value) :
    exec code ⟨(temporaries (Ir.localsOf [op])).map env ++ stack, f⟩ =
      (op.eval env).map fun v => ⟨v :: stack, f⟩ := by
  rcases hop.integral_or_stackTemp with hint | ⟨l, rfl, hrole⟩
  · rw [temporaries_eq_nil (integral_of_mem_localsOf hint)]
    exact exec_loadOperand hfinal henv hint h htouch hagree
  · obtain rfl := eq_nil_of_loadOperand hfinal hop hrole h htouch
    rw [temporaries_localsOf hrole]
    rfl

/-- The code of two operands pushes their values, the second one on top. The first one may be a
stack temporary. -/
theorem exec_operands (hfinal : Slots.Apart m b final) (henv : env.Typed) {lhs rhs : Operand}
    (hlhs : lhs.Numeric) (hrhs : rhs.Integral) {left right : List Insn} {q : Progress}
    (hleft : loadOperand lhs p = .ok (left, q)) (hright : loadOperand rhs q = .ok (right, p'))
    (htouch : Slots.Touches Local.Numeric p'.slots final)
    (hagree : ∀ l ∈ Ir.localsOf [lhs, rhs], final.Agrees f env l) (stack : List Value) :
    exec (left ++ right) ⟨(temporaries (Ir.localsOf [lhs])).map env ++ stack, f⟩ =
      (lhs.eval env).bind fun a => (rhs.eval env).map fun b => ⟨b :: a :: stack, f⟩ := by
  obtain ⟨hagreeLeft, hagreeRight⟩ := forall_mem_localsOf_cons.1 hagree
  -- What the second operand touches comes before the final slots as well.
  have hbetween : Slots.Touches Local.Numeric q.slots final :=
    (straight_of_loadOperand (numeric_of_mem_localsOf hrhs.numeric) hright).touches.trans htouch
  rw [exec_append, exec_loadNumeric hfinal henv hlhs hleft hbetween hagreeLeft stack,
    Outcome.bind_map]
  refine Outcome.bind_congr fun a _ => ?_
  rw [exec_loadOperand hfinal henv hrhs hright htouch hagreeRight]

/-- The code of the operands of an operation leaves their values on the operand stack, in their
order, or swapped where this may be. -/
theorem exec_operands_of_reachable (hfinal : Slots.Apart m b final) (henv : env.Typed) {op : BinOp}
    {lhs rhs : Operand} (he : (Expr.binary op lhs rhs).Reachable) {left right : List Insn}
    {q : Progress} (hleft : loadOperand lhs p = .ok (left, q))
    (hright : loadOperand rhs q = .ok (right, p'))
    (htouch : Slots.Touches Local.Numeric p'.slots final)
    (hagree : ∀ l ∈ Ir.localsOf [lhs, rhs], final.Agrees f env l) {v w : Value}
    (hv : lhs.eval env = .done v) (hw : rhs.eval env = .done w) :
    exec (left ++ right) ⟨(temporaries (Ir.localsOf [lhs, rhs])).map env ++ stack, f⟩ =
        .done ⟨w :: v :: stack, f⟩ ∨
      op.isCommutative ∧
        exec (left ++ right) ⟨(temporaries (Ir.localsOf [lhs, rhs])).map env ++ stack, f⟩ =
          .done ⟨v :: w :: stack, f⟩ := by
  -- The order depends on whether the second operand is pushed or was there before.
  rcases he.numeric.2.1.integral_or_stackTemp with hrhs | ⟨t, rfl, hrole⟩
  · left
    rw [temporaries_operands, temporaries_eq_nil (integral_of_mem_localsOf hrhs), List.append_nil,
      exec_operands hfinal henv he.numeric.1 hrhs hleft hright htouch hagree stack, hv, hw]
    rfl
  · right
    have hsingle : (temporaries (Ir.localsOf [lhs, .var t])).length ≤ 1 := he.single
    rw [temporaries_operands, temporaries_localsOf hrole] at hsingle ⊢
    -- The other operand is no stack temporary, so that it is pushed on top of this one.
    have hlhs : temporaries (Ir.localsOf [lhs]) = [] := by
      rw [List.length_append, List.length_singleton] at hsingle
      exact List.length_eq_zero_iff.1 (by omega)
    obtain ⟨hagreeLeft, -⟩ := forall_mem_localsOf_cons.1 hagree
    have hbetween : Slots.Touches Local.Numeric q.slots final :=
      (straight_of_loadOperand (numeric_of_mem_localsOf he.numeric.2.1) hright).touches.trans htouch
    have hload := exec_loadNumeric hfinal henv he.numeric.1 hleft hbetween hagreeLeft
      (env t :: stack)
    obtain rfl := eq_nil_of_loadOperand hfinal he.numeric.2.1 hrole hright htouch
    cases hw
    rw [hlhs, hv] at hload
    rw [hlhs, List.append_nil]
    exact ⟨he.ordered hrole, hload⟩

/-- The code for an expression leaves its value on the operand stack, where its stack temporary was
before. -/
theorem exec_lowerExpr (hfinal : Slots.Apart m b final) (henv : env.Typed) {rhs : Expr}
    (hrhs : rhs.Reachable) (h : lowerExpr rhs p = .ok (code, p'))
    (htouch : Slots.Touches Local.Numeric p'.slots final)
    (hagree : ∀ l ∈ rhs.uses, final.Agrees f env l) (stack : List Value) :
    exec code ⟨(temporaries rhs.uses).map env ++ stack, f⟩ =
      (rhs.eval env).map fun v => ⟨v :: stack, f⟩ := by
  have hnumeric := hrhs.numeric
  cases rhs with
  | operand op => exact exec_loadNumeric hfinal henv hnumeric h htouch hagree stack
  | binary op lhs rhs =>
    obtain ⟨hlhs, hright, hcategory⟩ := hnumeric
    obtain ⟨left, q, right, o, hleftRun, hrightRun, ho, rfl⟩ := lowerBinary_run_iff.1 h
    obtain ⟨v, hv, hvcategory⟩ := henv.exists_eval hlhs.ty
    obtain ⟨w, hw, hwcategory⟩ := henv.exists_eval hright.ty
    -- The operator is chosen by the category of the first operand.
    have hknown : operatorCategory op lhs.ty rhs.ty = lhs.ty.category := by
      rcases hlhs.ty with hty | hty <;> rw [hty] <;> rfl
    rw [hknown] at ho
    have hsecond : w.category = if op.isShift then .int else lhs.ty.category := by
      rw [hwcategory]
      split <;> simp_all
    rw [exec_append, Expr.eval, hv, hw, Outcome.done_bind, Outcome.done_bind, Expr.uses]
    -- A stack temporary that is the second operand comes below the first one, which only a
    -- commutative operator bears.
    rcases exec_operands_of_reachable hfinal henv hrhs hleftRun hrightRun htouch hagree hv hw with
      hexec | ⟨hop, hexec⟩ <;>
      rw [hexec, Outcome.done_bind, exec_singleton, Insn.perform]
    · rw [compute_binaryOp ho hlhs.ty.category hvcategory hsecond, Outcome.map_map]
    · rw [compute_binaryOp_swapped ho hop hlhs.ty.category hvcategory hsecond, Outcome.map_map]
  | neg op =>
    obtain ⟨value, o, hvalue, ho, rfl⟩ := lowerNeg_run_iff.1 h
    obtain ⟨v, hv, hcategory⟩ := henv.exists_eval (Operand.Numeric.ty hnumeric)
    rw [exec_append, Expr.uses, exec_loadNumeric hfinal henv hnumeric hvalue htouch hagree stack,
      Expr.eval, hv]
    simp only [Outcome.map_done, Outcome.done_bind, exec_singleton, Insn.perform,
      compute_negOp ho (Operand.Numeric.ty hnumeric).category hcategory]
  | cast op t =>
    obtain ⟨hop, ht⟩ := hnumeric
    have hreference : t.isReference = false := by
      rcases ht with rfl | rfl <;> rfl
    obtain ⟨convert, value, hconvert, hvalue, rfl⟩ :=
      (lowerCast_run_iff_of_not_isReference hreference).1 h
    obtain ⟨v, hv, hcategory⟩ := henv.exists_eval hop.ty
    rw [exec_append, Expr.uses, exec_loadNumeric hfinal henv hop hvalue htouch hagree stack,
      Expr.eval, hv]
    simp only [Outcome.map_done, Outcome.done_bind, exec_castCode hop.ty ht hconvert hcategory]
  | _ => cases hnumeric

/-- What the store of an assigned value leaves: the value is in the slot of its local, or it stays
on the operand stack. -/
def Binding.put (f : Frame) (v : Value) : Binding → Store
  | .slot n => ⟨[], f.set n v⟩
  | .stack => ⟨[v], f⟩

/-- The code that stores a computed value puts it where its local is. -/
theorem exec_append_store (hl : l.Numeric) {x : Store} {z : Result Value} {store : List Insn}
    (hcode : exec code x = z.map fun v => ⟨[v], f⟩)
    (hz : ∀ v, z = .done v → v.category = l.ty.category) (h : storeLocal l p = .ok (store, p'))
    (htouch : Slots.Touches Local.Numeric p'.slots final) :
    ∃ y, final.binding? l = some y ∧ exec (code ++ store) x = z.map fun v => y.put f v := by
  obtain ⟨y, hplace, hstore⟩ := storeLocal_run_iff.1 h
  refine ⟨y, binding?_of_place hl hplace htouch, ?_⟩
  rw [exec_append, hcode, Outcome.bind_map]
  refine Outcome.bind_congr fun v hv => ?_
  obtain ⟨rfl, rfl⟩ | ⟨n, o, rfl, ho, rfl⟩ := moveCode_eq_ok_iff.1 hstore
  · rfl
  · rw [exec_singleton, Insn.perform, access_storeOp ho (hz v hv)]
    rfl

/-- The code that copies a numeric local to another one puts its value where that one is. -/
theorem exec_copyLocal (hfinal : Slots.Apart m b final) (henv : env.Typed) {source : Local}
    (hl : l.Numeric) (hsource : (Operand.var source).Numeric)
    (hcategory : source.ty.category = l.ty.category)
    (h : copyLocal l source p = .ok (code, p'))
    (htouch : Slots.Touches Local.Numeric p'.slots final)
    (hagree : ∀ l ∈ Ir.localsOf [.var source], final.Agrees f env l) :
    l = source ∧ code = [] ∨ ∃ x, final.binding? l = some x ∧
      exec code ⟨(temporaries (Ir.localsOf [.var source])).map env, f⟩ =
        ((Operand.var source).eval env).map fun v => x.put f v := by
  have hrole : l.role ≠ .handlerRef := by
    rcases hl.role with hrole | hrole <;> simp [hrole]
  rcases copyLocal_run_iff.1 h with ⟨hsame, rfl, -⟩ | ⟨hne, origin, q, horigin, h⟩
  · exact .inl ⟨hsame, rfl⟩
  rcases h with ⟨hmoved, -⟩ | ⟨-, destination, q', hdestination, h⟩
  · exact absurd hmoved hrole
  right
  rcases h with ⟨hslot, rfl, -, rfl⟩ | ⟨-, load, q'', store, hload, hstore, rfl⟩
  · -- Different locals are not in one slot.
    have hn := binding?_of_place hl hdestination htouch
    have hn' := binding?_of_place hsource horigin
      ((touches_of_place hl hdestination).trans htouch)
    cases origin with
    | stack => exact absurd rfl hslot
    | slot n =>
      have hslots : 1 ≤ l.slots ∧ 1 ≤ source.slots := ⟨Nat.le_max_right _ _, Nat.le_max_right _ _⟩
      have happart := hfinal.disjoint l source n n hne hn hn'
      omega
  · -- The load or the store may be empty, where one of the locals is a stack temporary.
    have hbetween : Slots.Touches Local.Numeric q''.slots final :=
      (straight_of_storeLocal hl hstore).touches.trans htouch
    have hexec := exec_loadNumeric hfinal henv hsource hload hbetween hagree []
    rw [List.append_nil] at hexec
    refine exec_append_store hl hexec (fun v hv => ?_) hstore htouch
    have hnumeric : (Expr.operand (.var source)).Numeric := hsource
    exact (Expr.category_eval henv hnumeric hv).trans hcategory

/-- The code that assigns a value to a numeric local puts it where the local is. There is no code
for the assignment of a local to itself. -/
theorem exec_assignLocal (hfinal : Slots.Apart m b final) (henv : env.Typed) {isStatic : Bool}
    {rhs : Expr} (hl : l.Numeric) (hrhs : rhs.Reachable) (hcategory : rhs.category = l.ty.category)
    (h : assignLocal isStatic l rhs p = .ok (code, p'))
    (htouch : Slots.Touches Local.Numeric p'.slots final)
    (hagree : ∀ l ∈ rhs.uses, final.Agrees f env l) :
    rhs = .operand (.var l) ∧ code = [] ∨ ∃ x, final.binding? l = some x ∧
      exec code ⟨(temporaries rhs.uses).map env, f⟩ =
        (rhs.eval env).map fun v => x.put f v := by
  cases assigns_of_run h with
  | @copy source _ _ _ hcopy =>
    refine (exec_copyLocal hfinal henv hl hrhs.numeric hcategory hcopy htouch hagree).imp_left ?_
    rintro ⟨rfl, rfl⟩
    exact ⟨rfl, rfl⟩
  | rebind hmoved =>
    rcases hl.role with hrole | hrole <;> rw [hrole] at hmoved <;> cases hmoved
  | value hcall hq hassign =>
    right
    obtain ⟨value, q', store, hvalue, hstore, rfl⟩ := assignValue_run_iff.1 hassign
    have hbetween : Slots.Touches Local.Numeric q'.slots final :=
      (straight_of_storeLocal hl hstore).touches.trans htouch
    have hexec := exec_lowerExpr hfinal henv hrhs hvalue hbetween hagree []
    rw [List.append_nil] at hexec
    refine exec_append_store hl hexec (fun v hv => ?_) hstore htouch
    exact (Expr.category_eval henv hrhs.numeric hv).trans hcategory
  | _ => cases hrhs.numeric

/-- The code for an integral operand jumps nowhere. -/
theorem targets_of_loadOperand {op : Operand} (h : loadOperand op p = .ok (code, p')) :
    ∀ i ∈ code, i.targets = [] :=
  fun i hi => Insn.targets_of_isPlain
    ((straight_of_loadOperand (P := fun _ => True) (by simp) h).plain i hi)

/-- The code of a return jumps nowhere. -/
theorem targets_of_lowerReturn (op : Option Operand) (h : lowerReturn m op p = .ok (code, p')) :
    ∀ i ∈ code, i.targets = [] := by
  cases op with
  | none =>
    obtain ⟨rfl, -⟩ := pure_run_iff.1 h
    simp [Insn.targets]
  | some op =>
    obtain ⟨value, -, hvalue, rfl⟩ := lowerReturn_run_iff.1 h
    intro i hi
    rcases List.mem_append.1 hi with hi | hi
    · exact targets_of_loadOperand hvalue i hi
    · rw [List.mem_singleton.1 hi]
      rfl

/-- The code that returns a numeric operand leaves the method with its value. -/
theorem exec_lowerReturn (hfinal : Slots.Apart m b final) (henv : env.Typed) {op : Operand}
    (hop : op.Numeric) (hcategory : op.ty.category = m.ret.category)
    (h : lowerReturn m (some op) p = .ok (code, p'))
    (htouch : Slots.Touches Local.Numeric p'.slots final)
    (hagree : ∀ l ∈ Ir.localsOf [op], final.Agrees f env l) (stack : List Value) :
    exec code ⟨(temporaries (Ir.localsOf [op])).map env ++ stack, f⟩ =
      (op.eval env).bind fun v => .ends (.returned (some v)) := by
  obtain ⟨value, -, hvalue, rfl⟩ := lowerReturn_run_iff.1 h
  obtain ⟨a, ha, hacategory⟩ := henv.exists_eval hop.ty
  rw [exec_append, exec_loadNumeric hfinal henv hop hvalue htouch hagree stack, ha,
    Outcome.map_done, Outcome.done_bind, Outcome.done_bind, exec_singleton, Insn.perform,
    compute_returnOp (hcategory ▸ hop.ty.category) (hacategory.trans hcategory)]
  rfl

end Operands

section Branches

variable {m : Method} {b : Body} {final : Slots} {p p' : Progress} {code : List Insn} {env : Env}
  {f : Frame} {c : MethodContext}

/-- A conditional branch by integers of one category compares them. -/
theorem chooses_lowerBranch (hfinal : Slots.Apart m b final) (henv : env.Typed) {cond : Condition}
    (hlhs : cond.lhs.Integral) (hrhs : cond.rhs.Integral)
    (hcategory : cond.lhs.ty.category = cond.rhs.ty.category) {target : StmtId}
    (h : lowerBranch c cond target p = .ok (code, p'))
    (htouch : Slots.Touches Local.Numeric p'.slots final)
    (hagree : ∀ l ∈ cond.uses, final.Agrees f env l) :
    ∃ label holds, targetLabel c target = .ok label ∧ cond.eval env = .done holds ∧
      Chooses code f (if holds then some label else none) := by
  obtain ⟨label, left, q, right, jump, hlabel, hleft, hright, hjump, rfl⟩ :=
    lowerBranch_run_iff.1 h
  obtain ⟨a, ha, hacategory⟩ := henv.exists_eval hlhs.ty
  obtain ⟨b, hb, hbcategory⟩ := henv.exists_eval hrhs.ty
  have hexec := exec_operands hfinal henv hlhs.numeric hrhs hleft hright htouch hagree []
  rw [temporaries_eq_nil (integral_of_mem_localsOf hlhs), ha, hb] at hexec
  have hexec : exec (left ++ right) ⟨[], f⟩ = .done ⟨[b, a], f⟩ := hexec
  have hcode : ∀ i ∈ left ++ right, i.targets = [] := by
    intro i hi
    rcases List.mem_append.1 hi with hi | hi
    · exact targets_of_loadOperand hleft i hi
    · exact targets_of_loadOperand hright i hi
  rw [Condition.eval, ha, Outcome.done_bind, hb, Outcome.done_bind]
  have hsame := hlhs.ty.eq_of_category hrhs.ty hcategory
  rw [← hsame] at hbcategory hjump
  rcases hlhs.ty with hty | hty
  · -- Integers of 32 bits are compared by the jump itself.
    rw [hty] at hacategory hbcategory hjump
    obtain ⟨a, rfl⟩ := Value.exists_int hacategory
    obtain ⟨b, rfl⟩ := Value.exists_int hbcategory
    cases hjump
    exact ⟨label, _, hlabel, rfl, left ++ right, .jump (ifIntOp cond.op) label, [.int b, .int a],
      rfl, hcode, by simp [Insn.targets], hexec, choose_ifIntOp⟩
  · -- Integers of 64 bits are compared in front of it.
    rw [hty] at hacategory hbcategory hjump
    obtain ⟨a, rfl⟩ := Value.exists_long hacategory
    obtain ⟨b, rfl⟩ := Value.exists_long hbcategory
    cases hjump
    refine ⟨label, _, hlabel, rfl, left ++ right ++ [.simple .lcmp],
      .jump (ifZeroOp cond.op) label, [.int (compareLong a b)], by simp, ?_, by simp [Insn.targets],
      ?_, ?_⟩
    · intro i hi
      rcases List.mem_append.1 hi with hi | hi
      · exact hcode i hi
      · rw [List.mem_singleton.1 hi]
        rfl
    · rw [exec_append, hexec]
      rfl
    · rw [choose_ifZeroOp, holds_compareLong]

/-- A switch goes to the target for the key. -/
theorem chooses_lowerSwitch (hfinal : Slots.Apart m b final) (henv : env.Typed) {key : Operand}
    (hkey : key.Integral) (hcategory : key.ty.category = .int) {values : List Int32}
    {targets : List StmtId} {default : StmtId}
    (h : lowerSwitch c key values targets default p = .ok (code, p'))
    (htouch : Slots.Touches Local.Numeric p'.slots final)
    (hagree : ∀ l ∈ Ir.localsOf [key], final.Agrees f env l) :
    ∃ k label, key.eval env = .done (.int k) ∧
      targetLabel c (switchTarget values targets default k) = .ok label ∧
      Chooses code f (some label) := by
  obtain ⟨label, cases, value, hlabel, hcases, htwin, hvalue, rfl⟩ := lowerSwitch_run_iff.1 h
  obtain ⟨v, hv, hvcategory⟩ := henv.exists_eval hkey.ty
  obtain ⟨k, rfl⟩ := Value.exists_int (hvcategory.trans hcategory)
  have hnodup := nodup_ascending htwin
  refine ⟨k, _, hv, targetLabel_switchTarget hlabel hcases hnodup, value, _, [.int k], rfl,
    targets_of_loadOperand hvalue, ?_, ?_, choose_switchInsn hnodup⟩
  · rw [(targets_switchInsn _ _).1]
    simp
  · rw [exec_loadOperand hfinal henv hkey hvalue htouch hagree, hv]
    rfl

end Branches

end BytecodeLowering.Lowering
