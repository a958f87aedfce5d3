import BytecodeLowering.Proofs.Lowering.Step

/-!
# Parts of lowered code

What the code of an operand, an expression or a statement is made of, if there is any: the code of
its operands, in the order in which it is lowered, and the instruction behind it.

* `loadOperands_run_iff`, `storeLocal_run_iff`, `pushes_of_constantCode` and the like: operands.
* `lowerBinary_run_iff`, `lowerField_run_iff`, `callOn_run_iff` and the like: expressions.
* `copyLocal_run_iff`, `lowerParameter_run_iff`, `lowerBranch_run_iff` and the like: statements.
-/

namespace BytecodeLowering.Lowering

open Ir Machine

variable {p p' : Progress} {code : List Insn}

section Operands

/-- The place of a local is the binding that the slots resolve it to. -/
theorem place_run_iff {l : Local} {b : Binding} :
    place l p = .ok (b, p') ↔
      ∃ slots, p.slots.resolve l = .ok (b, slots) ∧ { p with slots := slots } = p' :=
  onSlots_run_iff

/-- A local that is moved is bound anew. -/
theorem rebind_run_iff {l : Local} {b : Binding} {u : Unit} :
    rebind l b p = .ok (u, p') ↔
      ∃ slots, p.slots.bind l b = .ok slots ∧ { p with slots := slots } = p' := by
  simp [rebind, onSlots_run_iff, map_eq_ok_iff]

/-- A value is moved by one instruction, or by none if it is on the stack. -/
theorem moveCode_eq_ok_iff {op : Lowered Opcode} {b : Binding} :
    moveCode op b = .ok code ↔
      b = .stack ∧ code = [] ∨ ∃ n o, b = .slot n ∧ op = .ok o ∧ code = [.var o n] := by
  cases b with
  | stack => simp [moveCode, eq_comm]
  | slot n => simp [moveCode, map_eq_ok_iff, eq_comm (b := code)]

/-- A local is loaded from its place. -/
theorem loadLocal_run_iff {l : Local} :
    loadLocal l p = .ok (code, p') ↔
      ∃ b, place l p = .ok (b, p') ∧ moveCode (loadOp l.ty.category) b = .ok code := by
  simp [loadLocal, bind_run_iff, lift_run_iff]

/-- A local is stored to its place. -/
theorem storeLocal_run_iff {l : Local} :
    storeLocal l p = .ok (code, p') ↔
      ∃ b, place l p = .ok (b, p') ∧ moveCode (storeOp l.ty.category) b = .ok code := by
  simp [storeLocal, bind_run_iff, lift_run_iff]

/-- A constant operand is one instruction. -/
theorem loadConst_run_iff {c : Constant} :
    loadOperand (.const c) p = .ok (code, p') ↔
      ∃ i, constantCode c = .ok i ∧ [i] = code ∧ p = p' := by
  simp only [loadOperand, bind_run_iff, lift_run_iff, pure_run_iff]
  grind

/-- The instructions that push a constant. -/
inductive Pushes : Insn → Prop
  /-- An operation for the constant. -/
  | simple {o : Opcode} : o.endsFlow = false → Pushes (.simple o)
  /-- A small integer. -/
  | int {o : Opcode} {v : Int32} : o = .bipush ∨ o = .sipush → Pushes (.int o v)
  /-- A constant of the class. -/
  | load {c : Loadable} : Pushes (.ldc c)
  /-- The class literal of a primitive type. -/
  | wrapper {name : String} : Pushes (wrapperLiteral name)

/-- An integer is pushed by one instruction for constants. -/
theorem pushes_intCode (v : Int32) : Pushes (intCode v) := by
  unfold intCode
  split
  case h_8 =>
    split
    · exact .int (.inl rfl)
    · split
      · exact .int (.inr rfl)
      · exact .load
  all_goals exact .simple rfl

/-- So is any other constant. -/
theorem pushes_of_constantCode {c : Constant} {i : Insn} (h : constantCode c = .ok i) :
    Pushes i := by
  cases c with
  | int v => cases h; exact pushes_intCode v
  | boolean v => cases h; exact pushes_intCode _
  | long v =>
    cases h
    unfold longCode
    repeat' split
    · exact .simple rfl
    · exact .simple rfl
    · exact .load
  | float v =>
    cases h
    unfold floatCode
    repeat' split
    · exact .simple rfl
    · exact .simple rfl
    · exact .simple rfl
    · exact .load
  | double v =>
    cases h
    unfold doubleCode
    repeat' split
    · exact .simple rfl
    · exact .simple rfl
    · exact .load
  | string v => cases h; exact .load
  | classOf t =>
    cases t with
    | prim p => cases h; exact .wrapper
    | void => cases h; exact .wrapper
    | object n => cases h; exact .load
    | array base dims => obtain ⟨_, -, rfl⟩ := map_eq_ok_iff.1 h; exact .load
    | null => cases h
    | unknown => cases h
  | null => cases h; exact .simple rfl
  | methodHandle _ => obtain ⟨_, -, rfl⟩ := map_eq_ok_iff.1 h; exact .load
  | methodType _ => obtain ⟨_, -, rfl⟩ := map_eq_ok_iff.1 h; exact .load

/-- Operands are loaded one after the other. -/
theorem loadOperands_run_iff {ops : List Operand} :
    loadOperands ops p = .ok (code, p') ↔
      ∃ codes, Lowers loadOperand p ops codes p' ∧ codes.flatten = code := by
  simp only [loadOperands, bind_run_iff, mapM_run_iff, pure_run_iff]
  grind

end Operands

section Expressions

/-- A new array is its size and the instruction that makes it. -/
theorem lowerNewArray_run_iff {element : Ty} {size : Operand} :
    lowerNewArray element size p = .ok (code, p') ↔
      ∃ value i, loadOperand size p = .ok (value, p') ∧ newArrayInsn element = .ok i ∧
        value ++ [i] = code := by
  simp only [lowerNewArray, bind_run_iff, lift_run_iff, pure_run_iff]
  grind

/-- A conversion to a class or an array type is a check of the operand. -/
theorem lowerCast_run_iff_of_isReference {op : Operand} {target : Ty} (h : target.isReference) :
    lowerCast op target p = .ok (code, p') ↔
      ∃ value n, op.ty.prim? = none ∧ loadOperand op p = .ok (value, p') ∧
        internalName target = .ok n ∧ value ++ [.type .checkcast n] = code := by
  simp only [lowerCast, h, if_true, bind_run_iff, ite_run_iff, lift_run_iff, pure_run_iff,
    not_unsupported]
  cases hp : op.ty.prim? <;> grind

/-- A conversion to a primitive type is the operand and the operations that convert it. -/
theorem lowerCast_run_iff_of_not_isReference {op : Operand} {target : Ty}
    (h : target.isReference = false) :
    lowerCast op target p = .ok (code, p') ↔
      ∃ convert value, castCode op.ty target = .ok convert ∧ loadOperand op p = .ok (value, p') ∧
        value ++ convert = code := by
  simp only [lowerCast, h, bind_run_iff, lift_run_iff, pure_run_iff, Bool.false_eq_true, if_false]
  grind

/-- The object of a field access is loaded, if there is one. -/
theorem loadBase_run_iff {f : FieldRef} :
    loadBase f p = .ok (code, p') ↔
      match f.base? with
      | some base => loadLocal base p = .ok (code, p')
      | none => code = [] ∧ p = p' := by
  rw [loadBase]
  cases f.base? with
  | some base => exact Iff.rfl
  | none => exact pure_run_iff.trans (by rw [eq_comm])

/-- The read of a field is its object, if there is one, and the access. -/
theorem lowerField_run_iff {f : FieldRef} :
    lowerField f p = .ok (code, p') ↔
      ∃ n base, fieldName f.field = .ok n ∧ loadBase f p = .ok (base, p') ∧
        base ++ [fieldInsn (getOp f) n] = code := by
  simp only [lowerField, bind_run_iff, lift_run_iff, pure_run_iff]
  grind

/-- The place of an array element is the array and the index. -/
theorem loadElementPlace_run_iff {a : ArrayRef} :
    loadElementPlace a p = .ok (code, p') ↔
      ∃ base q index, loadLocal a.base p = .ok (base, q) ∧
        loadOperand a.index q = .ok (index, p') ∧ base ++ index = code := by
  simp only [loadElementPlace, bind_run_iff, pure_run_iff]
  grind

/-- The object that a type test is about is loaded from its place. -/
theorem loadTested_run_iff {op : Operand} :
    loadTested op p = .ok (code, p') ↔
      ∃ l b, op = .var l ∧ place l p = .ok (b, p') ∧ moveCode (.ok .aload) b = .ok code := by
  cases op with
  | const c => simp [loadTested, bind_run_iff, onSlots_run_iff, Slots.resolveOperand]
  | var l =>
    have hplace : (onSlots fun s => s.resolveOperand (.var l)) = place l := rfl
    rw [loadTested, hplace, bind_run_iff]
    constructor
    · rintro ⟨b, q, hb, hcode⟩
      cases b with
      | stack =>
        obtain ⟨rfl, rfl⟩ := pure_run_iff.1 hcode
        exact ⟨l, .stack, rfl, hb, rfl⟩
      | slot n =>
        obtain ⟨rfl, rfl⟩ := pure_run_iff.1 hcode
        exact ⟨l, .slot n, rfl, hb, rfl⟩
    · rintro ⟨l', b, heq, hb, hcode⟩
      cases heq
      cases b with
      | stack =>
        cases hcode
        exact ⟨.stack, p', hb, pure_run_iff.2 ⟨rfl, rfl⟩⟩
      | slot n =>
        cases hcode
        exact ⟨.slot n, p', hb, pure_run_iff.2 ⟨rfl, rfl⟩⟩

/-- A binary operation is its operands and the operation. -/
theorem lowerBinary_run_iff {op : BinOp} {lhs rhs : Operand} :
    lowerExpr (.binary op lhs rhs) p = .ok (code, p') ↔
      ∃ left q right o, loadOperand lhs p = .ok (left, q) ∧ loadOperand rhs q = .ok (right, p') ∧
        binaryOp op (operatorCategory op lhs.ty rhs.ty) = .ok o ∧
        left ++ right ++ [.simple o] = code := by
  simp only [lowerExpr, bind_run_iff, lift_run_iff, pure_run_iff]
  grind

/-- A negation is its operand and the operation. -/
theorem lowerNeg_run_iff {op : Operand} :
    lowerExpr (.neg op) p = .ok (code, p') ↔
      ∃ value o, loadOperand op p = .ok (value, p') ∧ negOp op.ty.category = .ok o ∧
        value ++ [.simple o] = code := by
  simp only [lowerExpr, bind_run_iff, lift_run_iff, pure_run_iff]
  grind

/-- A type test is the object and the test. -/
theorem lowerInstanceOf_run_iff {op : Operand} {check : Ty} :
    lowerExpr (.instanceOf op check) p = .ok (code, p') ↔
      ∃ object n, loadTested op p = .ok (object, p') ∧ internalName check = .ok n ∧
        object ++ [.type .instanceof n] = code := by
  simp only [lowerExpr, bind_run_iff, lift_run_iff, pure_run_iff]
  grind

/-- A new array of several dimensions is its sizes, between 1 and 255, and the instruction that
makes it. -/
theorem lowerNewMultiArray_run_iff {t : Ty} {sizes : List Operand} :
    lowerExpr (.newMultiArray t sizes) p = .ok (code, p') ↔
      ∃ values desc, sizes ≠ [] ∧ sizes.length ≤ 255 ∧ loadOperands sizes p = .ok (values, p') ∧
        descriptor t = .ok desc ∧ values ++ [.multiNewArray desc sizes.length] = code := by
  simp only [lowerExpr, bind_run_iff, ite_run_iff, lift_run_iff, pure_run_iff, not_unsupported]
  grind

/-- The length of an array is the array and the operation. -/
theorem lowerLength_run_iff {op : Operand} :
    lowerExpr (.length op) p = .ok (code, p') ↔
      ∃ value, loadOperand op p = .ok (value, p') ∧ value ++ [.simple .arraylength] = code := by
  simp only [lowerExpr, bind_run_iff, pure_run_iff]
  grind

/-- The read of an array element is its place and the access. -/
theorem lowerElement_run_iff {a : ArrayRef} :
    lowerExpr (.element a) p = .ok (code, p') ↔
      ∃ element place, elementOf a = .ok element ∧ loadElementPlace a p = .ok (place, p') ∧
        place ++ [.simple (arrayLoadOp element)] = code := by
  simp only [lowerExpr, bind_run_iff, lift_run_iff, pure_run_iff]
  grind

end Expressions

section Calls

/-- A constructor call completes the latest pending object that it fits, and no other call
completes one. -/
theorem takePending_run_iff {base : Local} {m : MethodSignature} {done : Option Pending} :
    takePending base m p = .ok (done, p') ↔
      m.isConstructor = false ∧ done = none ∧ p = p' ∨
        m.isConstructor ∧ p.pending.find? (completes p.slots base) = done ∧
          { p with pending := p.pending.eraseP (completes p.slots base) } = p' := by
  simp only [takePending, bind_run_iff, ite_run_iff, get_run_iff, set_run_iff, pure_run_iff]
  cases m.isConstructor <;> grind

/-- Behind objects that it does not fit, a constructor call completes the first one that it fits. -/
theorem takePending_of_append {base : Local} {m : MethodSignature} {done : Option Pending}
    {inner outer : List Pending} {w : Pending} (hm : m.isConstructor)
    (hpending : p.pending = inner ++ w :: outer)
    (hinner : ∀ w ∈ inner, completes p.slots base w = false) (hw : completes p.slots base w)
    (h : takePending base m p = .ok (done, p')) :
    done = some w ∧ ⟨p.slots, inner ++ outer⟩ = p' := by
  have hnot : ∀ w ∈ inner, ¬completes p.slots base w := fun w hw => by simp [hinner w hw]
  rcases takePending_run_iff.1 h with ⟨hno, -⟩ | ⟨-, rfl, rfl⟩
  · rw [hm] at hno
    cases hno
  · rw [hpending, List.find?_append, List.find?_eq_none.2 hnot, List.find?_cons_of_pos hw,
      Option.none_or, List.eraseP_append_right _ hnot, List.eraseP_cons_of_pos hw]
    exact ⟨rfl, rfl⟩

/-- An object that is taken leaves the places of the locals as they are. If it is a new one, it is
for the local that the constructor is called on. -/
theorem eq_of_takePending {base : Local} {m : MethodSignature} {done : Option Pending}
    (h : takePending base m p = .ok (done, p')) :
    p.slots = p'.slots ∧ ∀ target, done = some (.allocation target) → target = base := by
  rcases takePending_run_iff.1 h with ⟨-, rfl, rfl⟩ | ⟨-, hfind, rfl⟩
  · exact ⟨rfl, nofun⟩
  · refine ⟨rfl, fun target heq => ?_⟩
    simpa [completes] using List.find?_some (hfind.trans heq)

/-- The argument of a bootstrap method is a constant, or the number of the slot of a local. -/
theorem bootstrapArgument_run_iff {op : Operand} {x : Loadable} :
    bootstrapArgument op p = .ok (x, p') ↔
      (∃ c, op = .const c ∧ bootstrapConstant c = .ok x ∧ p = p') ∨
        ∃ l n, op = .var l ∧ place l p = .ok (.slot n, p') ∧ .int (Int32.ofNat n) = x := by
  cases op with
  | const c => simp [bootstrapArgument, lift_run_iff]
  | var l =>
    rw [bootstrapArgument, bind_run_iff]
    constructor
    · rintro ⟨b, q, hb, h⟩
      cases b with
      | slot n =>
        obtain ⟨rfl, rfl⟩ := pure_run_iff.1 h
        exact .inr ⟨l, n, rfl, hb, rfl⟩
      | stack => cases (lift_run_iff.1 h).1
    · rintro (⟨_, ⟨⟩, -⟩ | ⟨_, n, ⟨⟩, hb, rfl⟩)
      exact ⟨.slot n, p', hb, pure_run_iff.2 ⟨rfl, rfl⟩⟩

/-- A call on a receiver is the receiver, the arguments and the call. -/
theorem callOn_run_iff {op : Opcode} {base : Local} {m : MethodSignature} {args : List Operand}
    {interface : Bool} :
    callOn op base m args interface p = .ok (code, p') ↔
      ∃ receiver q values call, loadLocal base p = .ok (receiver, q) ∧
        loadOperands args q = .ok (values, p') ∧ callInsn op m interface = .ok call ∧
        receiver ++ values ++ [call] = code := by
  simp only [callOn, bind_run_iff, lift_run_iff, pure_run_iff]
  grind

/-- A static call is the arguments and the call. -/
theorem lowerStatic_run_iff {m : MethodSignature} {args : List Operand} :
    lowerCall (.static m args) p = .ok (code, p') ↔
      ∃ values call, loadOperands args p = .ok (values, p') ∧
        callInsn .invokestatic m false = .ok call ∧ values ++ [call] = code := by
  simp only [lowerCall, bind_run_iff, lift_run_iff, pure_run_iff]
  grind

/-- A special call either is made on its receiver, or completes an object on the stack. -/
theorem lowerSpecial_run_iff {base : Local} {m : MethodSignature} {args : List Operand} :
    lowerCall (.special base m args) p = .ok (code, p') ↔
      ∃ done q, takePending base m p = .ok (done, q) ∧
        match done with
        | none => callOn .invokespecial base m args false q = .ok (code, p')
        | some (.allocation target) => ∃ values q' call store,
            loadOperands args q = .ok (values, q') ∧ callInsn .invokespecial m false = .ok call ∧
            storeLocal target q' = .ok (store, p') ∧ values ++ [call] ++ store = code
        | some .receiver => ∃ values call, loadOperands args q = .ok (values, p') ∧
            callInsn .invokespecial m false = .ok call ∧ values ++ [call] = code := by
  -- Both sides differ in what is done with the outcome of the search only.
  rw [lowerCall, bind_run_iff]
  refine exists_congr fun done => exists_congr fun q => and_congr_right fun _ => ?_
  cases done with
  | none => exact Iff.rfl
  | some pending =>
    cases pending with
    | allocation target =>
      simp only [bind_run_iff, lift_run_iff, pure_run_iff]
      grind
    | receiver =>
      simp only [bind_run_iff, lift_run_iff, pure_run_iff]
      grind

/-- A dynamic call is the arguments and the call. -/
theorem lowerDynamic_run_iff {bootstrap m : MethodSignature} {bootstrapArgs args : List Operand} :
    lowerCall (.dynamic bootstrap bootstrapArgs m args) p = .ok (code, p') ↔
      ∃ values q handle constants desc, loadOperands args p = .ok (values, q) ∧
        bootstrapHandle bootstrap = .ok handle ∧
        Lowers bootstrapArgument q bootstrapArgs constants p' ∧
        methodDescriptor m.proto = .ok desc ∧
        values ++ [.invokeDynamic m.name desc handle constants] = code := by
  simp only [lowerCall, bind_run_iff, lift_run_iff, mapM_run_iff, pure_run_iff]
  grind

end Calls

section Statements

/-- A copy is a load and a store, unless the two locals are one, are at one place, or the target
moves to the place of the source. -/
theorem copyLocal_run_iff {target source : Local} :
    copyLocal target source p = .ok (code, p') ↔
      target = source ∧ code = [] ∧ p = p' ∨
      target ≠ source ∧ ∃ origin q, place source p = .ok (origin, q) ∧
        (target.role = .handlerRef ∧ code = [] ∧ rebind target origin q = .ok ((), p') ∨
          target.role ≠ .handlerRef ∧ ∃ destination q', place target q = .ok (destination, q') ∧
            (origin ≠ .stack ∧ origin = destination ∧ code = [] ∧ q' = p' ∨
              (origin = .stack ∨ origin ≠ destination) ∧ ∃ load q'' store,
                loadLocal source q' = .ok (load, q'') ∧ storeLocal target q'' = .ok (store, p') ∧
                load ++ store = code)) := by
  simp only [copyLocal, bind_run_iff, ite_run_iff, pure_run_iff]
  grind

/-- The value of an expression is assigned by its code and a store. -/
theorem assignValue_run_iff {target : Local} {rhs : Expr} :
    assignValue target rhs p = .ok (code, p') ↔
      ∃ value q store, lowerExpr rhs p = .ok (value, q) ∧ storeLocal target q = .ok (store, p') ∧
        value ++ store = code := by
  simp only [assignValue, bind_run_iff, pure_run_iff]
  grind

/-- The result of a call is assigned like any other value, if there is one. -/
theorem assignCall_run_iff {isStatic : Bool} {target : Local} {call : Invocation} :
    assignLocal isStatic target (.invoke call) p = .ok (code, p') ↔
      call.method.ret ≠ .void ∧ assignValue target (.invoke call) p = .ok (code, p') := by
  simp only [assignLocal, bind_run_iff, ite_run_iff, lift_run_iff, not_inconsistent]
  grind

/-- How an expression is assigned to a local. -/
inductive Assigns (isStatic : Bool) (target : Local) :
    Expr → Progress → List Insn → Progress → Prop
  | copy {source : Local} {p p' : Progress} {code : List Insn} :
      copyLocal target source p = .ok (code, p') →
      Assigns isStatic target (.operand (.var source)) p code p'
  | rebind {source : Local} {t : Ty} {b : Binding} {p q p' : Progress} :
      target.role = .handlerRef → place source p = .ok (b, q) →
      Lowering.rebind target b q = .ok ((), p') →
      Assigns isStatic target (.cast (.var source) t) p [] p'
  | new {n : ClassName} {p : Progress} :
      Assigns isStatic target (.new n) p [.type .new n.internalName, .simple .dup]
        { p with pending := .allocation target :: p.pending }
  | newArray {element : Ty} {size : Operand} {p q q' p' : Progress} {array store : List Insn}
      {b : Binding} :
      lowerNewArray element size p = .ok (array, q) →
      (element.prim? = none ∧ q = q' ∨
        element.prim?.isSome ∧ b ≠ .stack ∧ place target q = .ok (b, q')) →
      storeLocal target q' = .ok (store, p') →
      Assigns isStatic target (.newArray element size) p (array ++ store) p'
  | newStackArray {element : Ty} {size : Operand} {p q q' p' : Progress}
      {array store : List Insn} :
      lowerNewArray element size p = .ok (array, q) → element.prim?.isSome →
      place target q = .ok (.stack, q') → storeLocal target q' = .ok (store, p') →
      Assigns isStatic target (.newArray element size) p (array ++ [.simple .dup] ++ store) p'
  | value {rhs : Expr} {p q p' : Progress} {code : List Insn} {b : Binding} :
      (∀ call, rhs = .invoke call → call.method.ret ≠ .void) →
      (p = q ∨ onSlots (fun s => s.resolveDeclared target) p = .ok (b, q)) →
      assignValue target rhs q = .ok (code, p') → Assigns isStatic target rhs p code p'

/-- An expression that is assigned to a local is assigned in one of these ways. -/
theorem assigns_of_run {isStatic : Bool} {target : Local} {rhs : Expr}
    (h : assignLocal isStatic target rhs p = .ok (code, p')) :
    Assigns isStatic target rhs p code p' := by
  have hvalue : (∀ call, rhs ≠ .invoke call) → assignValue target rhs p = .ok (code, p') →
      Assigns isStatic target rhs p code p' :=
    fun hcall h => .value (b := .stack) (fun call heq => absurd heq (hcall call)) (.inl rfl) h
  unfold assignLocal at h
  split at h
  · exact .copy h
  · rcases ite_run_iff.1 h with ⟨hrole, h⟩ | ⟨-, h⟩
    · obtain ⟨b, q, hb, h⟩ := bind_run_iff.1 h
      obtain ⟨_, q', hq, h⟩ := bind_run_iff.1 h
      obtain ⟨rfl, rfl⟩ := pure_run_iff.1 h
      exact .rebind hrole hb hq
    · exact hvalue nofun h
  · obtain ⟨_, q, hq, h⟩ := bind_run_iff.1 h
    obtain ⟨rfl, rfl⟩ := pure_run_iff.1 h
    obtain rfl := modify_run_iff.1 hq
    exact .new
  · obtain ⟨array, q, harray, h⟩ := bind_run_iff.1 h
    rcases ite_run_iff.1 h with ⟨hprim, h⟩ | ⟨hprim, h⟩
    · obtain ⟨b, q', hb, h⟩ := bind_run_iff.1 h
      cases b with
      | stack =>
        obtain ⟨store, q'', hstore, h⟩ := bind_run_iff.1 h
        obtain ⟨rfl, rfl⟩ := pure_run_iff.1 h
        exact .newStackArray harray hprim hb hstore
      | slot n =>
        obtain ⟨store, q'', hstore, h⟩ := bind_run_iff.1 h
        obtain ⟨rfl, rfl⟩ := pure_run_iff.1 h
        exact .newArray harray (.inr ⟨hprim, by simp, hb⟩) hstore
    · obtain ⟨store, q'', hstore, h⟩ := bind_run_iff.1 h
      obtain ⟨rfl, rfl⟩ := pure_run_iff.1 h
      exact .newArray (b := .stack) harray (.inl ⟨by simpa using hprim, rfl⟩) hstore
  · rename_i call
    rcases ite_run_iff.1 h with ⟨-, h⟩ | ⟨hret, h⟩
    · obtain ⟨_, _, h, -⟩ := bind_run_iff.1 h
      cases (lift_run_iff.1 h).1
    · refine .value (b := .stack) ?_ (.inl rfl) h
      rintro call' ⟨⟩
      exact hret
  · rcases ite_run_iff.1 h with ⟨-, h⟩ | ⟨-, h⟩
    · obtain ⟨b, q, hq, h⟩ := bind_run_iff.1 h
      exact .value nofun (.inr hq) h
    · exact hvalue nofun h
  · rename_i hnot _
    exact hvalue (by grind) h

/-- A store to a field is its object, if there is one, the value and the access. -/
theorem lowerFieldStore_run_iff {isStatic : Bool} {f : FieldRef} {rhs : Expr} :
    lowerAssign isStatic (.field f) rhs p = .ok (code, p') ↔
      ∃ op n base q value, rhs = .operand op ∧ fieldName f.field = .ok n ∧
        loadBase f p = .ok (base, q) ∧ loadOperand op q = .ok (value, p') ∧
        base ++ value ++ [fieldInsn (putOp f) n] = code := by
  simp only [lowerAssign, bind_run_iff, lift_run_iff, pure_run_iff]
  cases rhs <;> simp only [asOperand, not_unsupported] <;> grind

/-- A store to an array element is its place, the value and the access. -/
theorem lowerElementStore_run_iff {isStatic : Bool} {a : ArrayRef} {rhs : Expr} :
    lowerAssign isStatic (.element a) rhs p = .ok (code, p') ↔
      ∃ op element place q value, rhs = .operand op ∧ elementOf a = .ok element ∧
        loadElementPlace a p = .ok (place, q) ∧ loadOperand op q = .ok (value, p') ∧
        place ++ value ++ [.simple (arrayStoreOp element)] = code := by
  simp only [lowerAssign, bind_run_iff, lift_run_iff, pure_run_iff]
  cases rhs <;> simp only [asOperand, not_unsupported] <;> grind

/-- A parameter is copied to its local by a load and a store, unless the local is not read or is at
the place of the parameter. -/
theorem lowerParameter_run_iff {m : Method} {b : Body} {l : Local} {index : Nat} :
    lowerParameter m b l index p = .ok (code, p') ↔
      ∃ slot t, p.slots.param? index = some slot ∧ m.params[index]? = some t ∧
        (b.usesLocal l = false ∧ code = [] ∧ p = p' ∨
          b.usesLocal l ∧ ∃ binding, place l p = .ok (binding, p') ∧
            (binding = .slot slot ∧ code = [] ∨
              binding ≠ .slot slot ∧ ∃ load store, loadOp t.category = .ok load ∧
                moveCode (storeOp l.ty.category) binding = .ok store ∧
                .var load slot :: store = code)) := by
  rw [lowerParameter, bind_run_iff]
  simp only [get_run_iff]
  cases hslot : p.slots.param? index with
  | none => simp [hslot, lift_run_iff, not_inconsistent]
  | some slot =>
    cases ht : m.params[index]? with
    | none => simp [hslot, lift_run_iff, not_inconsistent]
    | some t =>
      have hread : ∀ x : Progress → Lower (List Insn),
          (∃ a q, (p = a ∧ p = q) ∧ x a q = .ok (code, p')) ↔ x p p = .ok (code, p') := by
        grind
      rw [hread]
      simp only [hslot, ite_run_iff, bind_run_iff, lift_run_iff, pure_run_iff]
      cases b.usesLocal l <;> grind

/-- The block of a statement is the one that owns it. -/
theorem blockOf_eq_ok_iff {g : Flow} {s : StmtId} {b : BlockId} :
    blockOf g s = .ok b ↔ g.owner? s = some b := by
  cases h : g.owner? s <;> simp [blockOf, h, inconsistent]

/-- The label of a branch target is that of the block that owns it. -/
theorem targetLabel_eq_ok_iff {c : MethodContext} {s : StmtId} {l : Label} :
    targetLabel c s = .ok l ↔ ∃ b, c.body.flow.owner? s = some b ∧ c.labels.get? b = some l := by
  simp only [targetLabel, bind_eq_ok_iff, blockOf_eq_ok_iff]
  refine exists_congr fun b => and_congr_right fun _ => ?_
  cases h : c.labels.get? b <;> simp [inconsistent, pure, Except.pure]

/-- A conditional branch is its operands and the jump, which compares them. -/
theorem lowerBranch_run_iff {c : MethodContext} {cond : Condition} {target : StmtId} :
    lowerBranch c cond target p = .ok (code, p') ↔
      ∃ label left q right jump, targetLabel c target = .ok label ∧
        loadOperand cond.lhs p = .ok (left, q) ∧ loadOperand cond.rhs q = .ok (right, p') ∧
        branchCode cond.op cond.lhs.ty cond.rhs.ty label = .ok jump ∧
        left ++ right ++ jump = code := by
  simp only [lowerBranch, bind_run_iff, lift_run_iff, pure_run_iff]
  grind

/-- A return with a value is the value and the operation. -/
theorem lowerReturn_run_iff {m : Method} {op : Operand} :
    lowerReturn m (some op) p = .ok (code, p') ↔
      ∃ value, m.ret ≠ .void ∧ loadOperand op p = .ok (value, p') ∧
        value ++ [.simple (returnOp m.ret.category)] = code := by
  simp only [lowerReturn, bind_run_iff, ite_run_iff, lift_run_iff, not_inconsistent, pure_run_iff]
  grind

/-- A branch that is always taken is a jump to the label of its block, or else the return there. -/
theorem lowerGoto_run_iff {c : MethodContext} {target : StmtId} :
    lowerGoto c target p = .ok (code, p') ↔
      ∃ b, c.body.flow.owner? target = some b ∧
        ((∃ l, c.labels.get? b = some l ∧ [.jump .goto l] = code ∧ p = p') ∨
          c.labels.get? b = none ∧ ∃ s, c.body.stmt? target = some s ∧
            ((∃ op, s.kind = .return op ∧ lowerReturn c.method (some op) p = .ok (code, p')) ∨
              s.kind = .returnVoid ∧ lowerReturn c.method none p = .ok (code, p'))) := by
  simp only [lowerGoto, bind_run_iff, lift_run_iff, blockOf_eq_ok_iff]
  constructor
  · rintro ⟨b, q, ⟨hb, rfl⟩, h⟩
    refine ⟨b, hb, ?_⟩
    cases hl : c.labels.get? b with
    | some l => exact .inl ⟨l, rfl, pure_run_iff.1 (by simpa only [hl] using h)⟩
    | none =>
      simp only [hl] at h
      refine .inr ⟨rfl, ?_⟩
      cases hs : c.body.stmt? target with
      | none =>
        simp only [hs, Option.map_none] at h
        cases (lift_run_iff.1 h).1
      | some s =>
        simp only [hs, Option.map_some] at h
        cases hkind : s.kind with
        | «return» op => exact ⟨s, rfl, .inl ⟨op, hkind, by simpa only [hkind] using h⟩⟩
        | returnVoid => exact ⟨s, rfl, .inr ⟨hkind, by simpa only [hkind] using h⟩⟩
        | _ =>
          simp only [hkind] at h
          cases (lift_run_iff.1 h).1
  · rintro ⟨b, hb, h⟩
    refine ⟨b, p, ⟨hb, rfl⟩, ?_⟩
    rcases h with ⟨l, hl, h⟩ | ⟨hnone, s, hs, ⟨op, hkind, h⟩ | ⟨hkind, h⟩⟩
    · simpa only [hl] using pure_run_iff.2 h
    · simpa only [hnone, hs, Option.map_some, hkind] using h
    · simpa only [hnone, hs, Option.map_some, hkind] using h

/-- A branch by a key is the key and the switch, whose cases are in ascending order. -/
theorem lowerSwitch_run_iff {c : MethodContext} {key : Operand} {values : List Int32}
    {targets : List StmtId} {default : StmtId} :
    lowerSwitch c key values targets default p = .ok (code, p') ↔
      ∃ label cases value, targetLabel c default = .ok label ∧
        List.Forall₂ (fun x y => x.1 = y.1 ∧ targetLabel c x.2 = .ok y.2)
          (values.zip targets) cases ∧
        firstTwin? ((cases.mergeSort fun a b => a.1.toInt ≤ b.1.toInt).map Prod.fst) = none ∧
        loadOperand key p = .ok (value, p') ∧
        value ++ [switchInsn (cases.mergeSort fun a b => a.1.toInt ≤ b.1.toInt) label] = code := by
  have hcase : ∀ (x : Int32 × StmtId) (y : Int32 × Label),
      (targetLabel c x.2).map (fun l => (x.1, l)) = .ok y ↔
        x.1 = y.1 ∧ targetLabel c x.2 = .ok y.2 := by
    rintro ⟨v, s⟩ ⟨v', l⟩
    simp only [map_eq_ok_iff]
    grind
  simp only [lowerSwitch, bind_run_iff, mapM_run_iff, Lowers.lift_iff, lift_run_iff, hcase]
  constructor
  · rintro ⟨label, q, ⟨hlabel, rfl⟩, cases, q', ⟨hcases, rfl⟩, h⟩
    cases htwin : firstTwin? ((cases.mergeSort fun a b => a.1.toInt ≤ b.1.toInt).map Prod.fst) with
    | some v =>
      simp only [htwin, bind_run_iff] at h
      obtain ⟨_, _, h, -⟩ := h
      cases (lift_run_iff.1 h).1
    | none =>
      simp only [htwin, bind_run_iff] at h
      obtain ⟨value, q, hvalue, h⟩ := h
      obtain ⟨rfl, rfl⟩ := pure_run_iff.1 h
      exact ⟨label, cases, value, hlabel, hcases, htwin, hvalue, rfl⟩
  · rintro ⟨label, cases, value, hlabel, hcases, htwin, hvalue, rfl⟩
    refine ⟨label, p, ⟨hlabel, rfl⟩, cases, p, ⟨hcases, rfl⟩, ?_⟩
    simp only [htwin]
    exact bind_run_iff.2 ⟨value, p', hvalue, pure_run_iff.2 ⟨rfl, rfl⟩⟩

/-- An operation on one operand is the operand and the operation. -/
theorem consume_run_iff {op : Operand} {o : Opcode} :
    consume op o p = .ok (code, p') ↔
      ∃ value, loadOperand op p = .ok (value, p') ∧ value ++ [.simple o] = code := by
  simp only [consume, bind_run_iff, pure_run_iff]
  grind

/-- A call whose result is dropped is the call and the operation that drops it, if there is one. -/
theorem lowerInvoke_run_iff {c : MethodContext} {call : Invocation} :
    lowerStmt c (.invoke call) p = .ok (code, p') ↔
      ∃ value, lowerCall call p = .ok (value, p') ∧
        value ++ ((popOp call.method.ret.width).map Insn.simple).toList = code := by
  simp only [lowerStmt, bind_run_iff, pure_run_iff]
  grind

end Statements

end BytecodeLowering.Lowering
