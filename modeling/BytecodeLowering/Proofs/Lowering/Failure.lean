import BytecodeLowering.Proofs.Lowering.Step

/-!
# Failures of the lowering

Only the check of the finished code finds code that cannot run. Everything in front of it fails
for reasons of its own, and the place of a failure is told once, by the method around it.

* `FailsWith`, `FailsWithStep`: results and steps all of whose errors are of a given kind, with
  `FailsWith.bind`, `FailsWithStep.bind` and the like for the steps that others are made of.
* `Inconsistency.IsMissing`: a label, a block or a statement is asked for that is not there.
* `Own`, `OwnStep`: results and steps that fail for any other reason and do not tell the place;
  `own_lowerExpr` and the like for the parts of the lowering that ask for no labels.
* `Direct`, `DirectStep`: those that fail for a reason of either kind; `direct_lowerStmt` and the
  like for the parts that ask for labels, and `fails_lowerStmt`, in view of what these fail with.
* `Structural`: those that fail only where parts do not fit together; `structural_ofBody`.
* `LowerError.IsReasonIn`, `LowerError.IsPlaced`: errors that name the method at most once, and
  exactly once; `isReasonIn_lowerBlocks`, `isPlaced_lowerMethod`.
* `CodeFree`: results that do not fail for code that cannot run; `codeFree_lowerBlocks`.
-/

namespace BytecodeLowering.Lowering

open Ir Machine

variable {α β : Type}

/-- The error is not, at its root, that some code cannot run. -/
def LowerError.CodeFree (e : LowerError) : Prop :=
  ∀ ce, e.root ≠ .code ce

/-- A result that is no failure for code that cannot run. -/
def CodeFree (x : Lowered α) : Prop :=
  ∀ e, x = .error e → e.CodeFree

/-- What does not fit together is that a label, a block or a statement is asked for that is not
there. -/
def Inconsistency.IsMissing : Inconsistency → Prop
  | .outsideFlow _ | .unlabelled _ | .unlabelledEnd | .unlabelledTarget _ | .unlabelledGoto _ |
    .unknownBlock _ | .unknownStmt _ => True
  | .noBody | .emptyBlock _ | .undefinedStmt .. | .strayStmt _ | .undefinedHandler .. |
    .undefinedSuccessor .. | .switchLength .. | .repeatedCase _ | .valueFromVoid | .voidResult .. |
    .noParameter .. => False

/-- The error tells a reason other than something missing, and not the place where it happened. -/
def LowerError.IsOwn : LowerError → Prop
  | .unsupported _ | .slots _ => True
  | .inconsistent e => ¬e.IsMissing
  | .code _ | .inMethod .. => False

/-- The error tells a reason, and neither the place where it happened nor that some code cannot
run. -/
def LowerError.IsDirect : LowerError → Prop
  | .unsupported _ | .inconsistent _ | .slots _ => True
  | .code _ | .inMethod .. => False

/-- The error tells that parts do not fit together. -/
def LowerError.IsStructural (e : LowerError) : Prop :=
  ∃ reason, e = .inconsistent reason

/-- The error does not tell the place where it happened. -/
def LowerError.IsBare (e : LowerError) : Prop :=
  ∀ method stmt source, e ≠ .inMethod method stmt source

/-- The error tells a reason, possibly with a place in the given method. -/
def LowerError.IsReasonIn (method : String) (e : LowerError) : Prop :=
  e.IsDirect ∨ ∃ stmt source, e = .inMethod method stmt source ∧ source.IsDirect

/-- The error tells that it happened in the given method, and tells it once. -/
def LowerError.IsPlaced (method : String) (e : LowerError) : Prop :=
  ∃ stmt source, e = .inMethod method stmt source ∧ source.IsBare

/-- A result whose errors are all of a given kind. -/
def FailsWith (P : LowerError → Prop) (x : Lowered α) : Prop :=
  ∀ e, x = .error e → P e

/-- A step whose errors are all of a given kind. -/
def FailsWithStep (P : LowerError → Prop) (x : Lower α) : Prop :=
  ∀ p, FailsWith P (x p)

/-- A result that fails for a reason of its own, and not because something is missing. -/
abbrev Own (x : Lowered α) : Prop :=
  FailsWith LowerError.IsOwn x

/-- A result that fails for a reason of its own, without the place where it happened. -/
abbrev Direct (x : Lowered α) : Prop :=
  FailsWith LowerError.IsDirect x

/-- A result that fails only where parts do not fit together. -/
abbrev Structural (x : Lowered α) : Prop :=
  FailsWith LowerError.IsStructural x

/-- A step that fails for a reason of its own, and not because something is missing. -/
abbrev OwnStep (x : Lower α) : Prop :=
  FailsWithStep LowerError.IsOwn x

/-- A step that fails for a reason of its own, without the place where it happened. -/
abbrev DirectStep (x : Lower α) : Prop :=
  FailsWithStep LowerError.IsDirect x

/-- A place does not change what an error is at its root. -/
theorem LowerError.root_within (method : String) (stmt : Option String) (e : LowerError) :
    (e.within method stmt).root = e.root := by
  cases e <;> rfl

/-- A reason other than something missing is a reason. -/
theorem LowerError.IsOwn.isDirect {e : LowerError} (h : e.IsOwn) : e.IsDirect := by
  cases e with
  | unsupported | inconsistent | slots => trivial
  | code | inMethod => cases h

/-- That parts do not fit together is a reason. -/
theorem LowerError.IsStructural.isDirect {e : LowerError} (h : e.IsStructural) : e.IsDirect := by
  obtain ⟨reason, rfl⟩ := h
  trivial

/-- An error with a reason of its own does not tell the place. -/
theorem LowerError.IsDirect.isBare {e : LowerError} (h : e.IsDirect) : e.IsBare := by
  rintro _ _ _ rfl
  exact h

/-- An error with a reason of its own is not that some code cannot run. -/
theorem LowerError.IsDirect.codeFree {e : LowerError} (h : e.IsDirect) : e.CodeFree := by
  cases e with
  | unsupported | inconsistent | slots => rintro _ ⟨⟩
  | code | inMethod => cases h

/-- Naming the place of a reason. -/
theorem LowerError.IsDirect.isReasonIn_within {e : LowerError} (h : e.IsDirect) (method : String)
    (stmt : Option String) : (e.within method stmt).IsReasonIn method := by
  cases e with
  | inMethod => cases h
  | _ => exact .inr ⟨stmt, _, rfl, h⟩

/-- A reason is not that some code cannot run, wherever it is found. -/
theorem LowerError.IsReasonIn.codeFree {e : LowerError} {method : String}
    (h : e.IsReasonIn method) : e.CodeFree := by
  rcases h with h | ⟨stmt, source, rfl, h⟩
  · exact h.codeFree
  · exact h.codeFree

/-- A reason has no place, or one place. -/
theorem LowerError.IsReasonIn.isBare_or_isPlaced {e : LowerError} {method : String}
    (h : e.IsReasonIn method) : e.IsBare ∨ e.IsPlaced method := by
  rcases h with h | ⟨stmt, source, rfl, h⟩
  · exact .inl h.isBare
  · exact .inr ⟨stmt, source, rfl, h.isBare⟩

/-- Naming the place makes an error without a place one with a place. -/
theorem LowerError.IsBare.isPlaced_within {e : LowerError} (h : e.IsBare) (method : String)
    (stmt : Option String) : (e.within method stmt).IsPlaced method := by
  cases e with
  | inMethod m s source => exact absurd rfl (h m s source)
  | _ => exact ⟨stmt, _, rfl, h⟩

/-- Naming the place of an error that tells it already changes nothing. -/
theorem LowerError.IsPlaced.within_eq {e : LowerError} {method : String} (h : e.IsPlaced method)
    (method' : String) (stmt : Option String) : e.within method' stmt = e := by
  obtain ⟨stmt', source, rfl, -⟩ := h
  rfl

namespace FailsWith

variable {P Q : LowerError → Prop}

/-- A success is no failure. -/
theorem ok (a : α) : FailsWith P (.ok a) :=
  nofun

/-- Errors of one kind are errors of a wider one. -/
theorem mono {x : Lowered α} (hPQ : ∀ e, P e → Q e) (h : FailsWith P x) : FailsWith Q x :=
  fun e he => hPQ e (h e he)

/-- A sequence fails where its first step does, or its second one behind what the first gives. -/
theorem bind_of_ok {x : Lowered α} {f : α → Lowered β} (hx : FailsWith P x)
    (hf : ∀ a, x = .ok a → FailsWith P (f a)) : FailsWith P (x >>= f) := by
  intro e he
  rcases bind_eq_error_iff.1 he with he | ⟨a, ha, he⟩
  · exact hx e he
  · exact hf a ha e he

/-- A sequence fails where one of its steps does. -/
theorem bind {x : Lowered α} {f : α → Lowered β} (hx : FailsWith P x)
    (hf : ∀ a, FailsWith P (f a)) : FailsWith P (x >>= f) :=
  bind_of_ok hx fun a _ => hf a

/-- A step with a changed result fails where the step does. -/
theorem map {x : Lowered α} (f : α → β) (hx : FailsWith P x) : FailsWith P (x.map f) := by
  intro e he
  cases x with
  | error e' =>
    cases he
    exact hx _ rfl
  | ok a => cases he

/-- A step with changed errors fails with these. -/
theorem mapError {ε : Type} {x : Except ε α} {f : ε → LowerError}
    (h : ∀ e, x = .error e → P (f e)) : FailsWith P (x.mapError f) := by
  intro e he
  obtain ⟨e', he', rfl⟩ := mapError_eq_error_iff.1 he
  exact h e' he'

/-- A choice of results fails where the chosen one does. -/
theorem ite {c : Prop} [Decidable c] {x y : Lowered α} (hx : FailsWith P x) (hy : FailsWith P y) :
    FailsWith P (if c then x else y) := by
  split
  · exact hx
  · exact hy

/-- A step on each element of a list fails where it does on one of them. -/
theorem mapM {f : α → Lowered β} (h : ∀ x, FailsWith P (f x)) (xs : List α) :
    FailsWith P (xs.mapM f) := by
  intro e he
  obtain ⟨x, -, he⟩ := exists_of_mapM_eq_error he
  exact h x e he

/-- A step on each element of a list, done for its failures alone. -/
theorem forM {f : α → Lowered Unit} (h : ∀ x, FailsWith P (f x)) (xs : List α) :
    FailsWith P (xs.forM f) := by
  intro e he
  obtain ⟨x, -, he⟩ := exists_of_forM_eq_error he
  exact h x e he

/-- A step taken for each element of a list, from the result of the one before. -/
theorem foldlM {f : β → α → Lowered β} (h : ∀ b x, FailsWith P (f b x)) (xs : List α) (b : β) :
    FailsWith P (xs.foldlM f b) := by
  induction xs generalizing b with
  | nil => exact ok b
  | cons x xs ih => exact bind (h b x) ih

/-- That there is no code for something is a reason. -/
theorem unsupported (e : Unsupported) : Own (unsupported e : Lowered α) := by
  rintro _ ⟨⟩
  trivial

/-- That parts do not fit together is told as such. -/
theorem structural (e : Inconsistency) : Structural (Lowering.inconsistent e : Lowered α) := by
  rintro _ ⟨⟩
  exact ⟨e, rfl⟩

/-- Failing only where parts do not fit together is failing for a reason. -/
theorem direct {x : Lowered α} (h : Structural x) : Direct x :=
  h.mono fun _ => LowerError.IsStructural.isDirect

/-- That parts do not fit together is a reason. -/
theorem inconsistent (e : Inconsistency) : Direct (inconsistent e : Lowered α) :=
  direct (structural e)

/-- That parts do not fit together is a reason of its own unless one of them is missing. -/
theorem own_inconsistent {e : Inconsistency} (h : ¬e.IsMissing) :
    Own (Lowering.inconsistent e : Lowered α) := by
  rintro _ ⟨⟩
  exact h

/-- That a local has no place is a reason. -/
theorem slots (e : SlotError) : Own (.error (.slots e) : Lowered α) := by
  rintro _ ⟨⟩
  trivial

end FailsWith

namespace FailsWithStep

variable {P : LowerError → Prop}

/-- Errors of one kind are errors of a wider one. -/
theorem mono {Q : LowerError → Prop} {x : Lower α} (hPQ : ∀ e, P e → Q e)
    (h : FailsWithStep P x) : FailsWithStep Q x :=
  fun p => (h p).mono hPQ

/-- Doing nothing does not fail. -/
theorem pure (a : α) : FailsWithStep P (pure a) :=
  fun _ => .ok _

/-- A sequence fails where one of its steps does. -/
theorem bind {x : Lower α} {f : α → Lower β} (hx : FailsWithStep P x)
    (hf : ∀ a, FailsWithStep P (f a)) : FailsWithStep P (x >>= f) :=
  fun p => FailsWith.bind (hx p) fun (a, p') => hf a p'

/-- A step without a state fails where its result does. -/
theorem lift {x : Lowered α} (hx : FailsWith P x) : FailsWithStep P (liftM x : Lower α) :=
  fun _ => FailsWith.bind hx fun _ => .ok _

/-- Reading the state does not fail. -/
theorem get : FailsWithStep P get :=
  fun _ => .ok _

/-- Writing the state does not fail. -/
theorem set (q : Progress) : FailsWithStep P (set q) :=
  fun _ => .ok _

/-- Changing the state does not fail. -/
theorem modify (f : Progress → Progress) : FailsWithStep P (modify f) :=
  fun _ => .ok _

/-- A step on the places of the locals fails where its result does. -/
theorem onSlots {f : Slots → Lowered (α × Slots)} (h : ∀ s, FailsWith P (f s)) :
    FailsWithStep P (onSlots f) :=
  fun p => (h p.slots).map _

/-- A choice of steps fails where the chosen one does. -/
theorem ite {c : Prop} [Decidable c] {x y : Lower α} (hx : FailsWithStep P x)
    (hy : FailsWithStep P y) : FailsWithStep P (if c then x else y) := by
  split
  · exact hx
  · exact hy

/-- A step on each element of a list fails where it does on one of them. -/
theorem mapM_of_mem {f : α → Lower β} {xs : List α} (h : ∀ x ∈ xs, FailsWithStep P (f x)) :
    FailsWithStep P (xs.mapM f) := by
  induction xs with
  | nil => exact pure []
  | cons x xs ih =>
    obtain ⟨hx, hxs⟩ := List.forall_mem_cons.1 h
    rw [List.mapM_cons]
    exact bind hx fun _ => bind (ih hxs) fun _ => pure _

/-- A step that fails in one way wherever it is taken fails so on the elements of a list. -/
theorem mapM {f : α → Lower β} (h : ∀ x, FailsWithStep P (f x)) (xs : List α) :
    FailsWithStep P (xs.mapM f) :=
  mapM_of_mem fun x _ => h x

end FailsWithStep

section Names

theorem own_descriptor (t : Ty) : Own (descriptor t) := by
  induction t with
  | prim p => exact .ok _
  | void => exact .ok _
  | object n => exact .ok _
  | array base dims ih => exact ih.map _
  | null => exact .unsupported _
  | unknown => exact .unsupported _

theorem own_methodDescriptor (proto : MethodProto) : Own (methodDescriptor proto) :=
  .bind (.mapM own_descriptor _) fun _ => .bind (own_descriptor _) fun _ => .ok _

theorem own_internalName (t : Ty) : Own (internalName t) := by
  cases t with
  | object n => exact .ok _
  | array base dims => exact own_descriptor _
  | _ => exact .unsupported _

theorem own_fieldName (f : FieldSignature) : Own (fieldName f) :=
  (own_descriptor _).map _

theorem own_methodName (m : MethodSignature) : Own (methodName m) :=
  (own_methodDescriptor _).map _

theorem own_handle (h : MethodHandle) : Own (handle h) := by
  refine .map _ ?_
  cases h.target with
  | field f => exact own_fieldName f
  | method m => exact own_methodName m

theorem own_bootstrapHandle (m : MethodSignature) : Own (bootstrapHandle m) :=
  (own_methodName m).map _

end Names

section Places

theorem own_slotBehind (slot width : Nat) (owner : String) :
    Own (slotBehind slot width owner) :=
  .ite (.ok _) (.slots _)

theorem own_paramSlots (owner : String) (slot : Nat) (ts : List Ty) :
    Own (paramSlots owner slot ts) := by
  induction ts generalizing slot with
  | nil => exact .ok _
  | cons t ts ih => exact .bind (own_slotBehind _ _ _) fun _ => .bind (ih _) fun _ => .ok _

theorem own_bind (s : Slots) (l : Local) (b : Binding) : Own (s.bind l b) := by
  cases b with
  | slot n => exact .bind ((own_slotBehind _ _ _).map _) fun _ => .ok _
  | stack => exact .ok _

theorem own_resolve (s : Slots) (l : Local) : Own (s.resolve l) := by
  unfold Slots.resolve
  split
  · exact .ok _
  · exact (own_bind _ _ _).map _

theorem own_resolveOperand (s : Slots) (op : Operand) : Own (s.resolveOperand op) := by
  cases op with
  | var l => exact own_resolve s l
  | const c => exact .slots _

theorem own_resolveDeclared (s : Slots) (l : Local) : Own (s.resolveDeclared l) := by
  unfold Slots.resolveDeclared
  split
  · exact (own_bind _ _ _).map _
  · exact own_resolve s l

theorem own_seed (isStatic : Bool) (slots : Slots) (s : Stmt) :
    Own (slots.seed isStatic s) := by
  unfold Slots.seed
  split
  · split
    · exact own_bind _ _ _
    · exact .ok _
  · exact .ok _

/-- The slots of a method at its start. -/
theorem own_ofMethod (m : Method) (b : Body) : Own (Slots.ofMethod m b) :=
  .bind (own_paramSlots _ _ _) fun _ => .foldlM (own_seed m.isStatic) _ _

end Places

section Operands

theorem own_loadOp (c : Category) : Own (loadOp c) := by
  cases c <;> first | exact .ok _ | exact .unsupported _

theorem own_storeOp (c : Category) : Own (storeOp c) := by
  cases c <;> first | exact .ok _ | exact .unsupported _

theorem own_classLiteralCode (t : Ty) : Own (classLiteralCode t) := by
  cases t with
  | array base dims => exact (own_internalName _).map _
  | _ => first | exact .ok _ | exact .unsupported _

theorem own_constantCode (c : Constant) : Own (constantCode c) := by
  cases c with
  | classOf t => exact own_classLiteralCode t
  | methodHandle h => exact (own_handle h).map _
  | methodType p => exact (own_methodDescriptor p).map _
  | _ => exact .ok _

theorem own_place (l : Local) : OwnStep (place l) :=
  .onSlots fun s => own_resolve s l

theorem own_rebind (l : Local) (b : Binding) : OwnStep (rebind l b) :=
  .onSlots fun s => (own_bind s l b).map _

theorem own_moveCode {op : Lowered Opcode} (h : Own op) (b : Binding) :
    Own (moveCode op b) := by
  cases b with
  | stack => exact .ok _
  | slot n => exact h.map _

theorem own_loadLocal (l : Local) : OwnStep (loadLocal l) :=
  .bind (own_place l) fun _ => .lift (own_moveCode (own_loadOp _) _)

theorem own_storeLocal (l : Local) : OwnStep (storeLocal l) :=
  .bind (own_place l) fun _ => .lift (own_moveCode (own_storeOp _) _)

theorem own_loadOperand (op : Operand) : OwnStep (loadOperand op) := by
  cases op with
  | var l => exact own_loadLocal l
  | const c => exact .bind (.lift (own_constantCode c)) fun _ => .pure _

theorem own_loadOperands (ops : List Operand) : OwnStep (loadOperands ops) :=
  .bind (.mapM own_loadOperand ops) fun _ => .pure _

end Operands

section Calls

theorem own_takePending (base : Local) (m : MethodSignature) :
    OwnStep (takePending base m) :=
  .ite (.pure _) (.bind .get fun _ => .bind (.set _) fun _ => .pure _)

theorem own_callInsn (op : Opcode) (m : MethodSignature) (interface : Bool) :
    Own (callInsn op m interface) :=
  (own_methodName m).map _

theorem own_bootstrapConstant (c : Constant) : Own (bootstrapConstant c) := by
  cases c with
  | classOf t => exact (own_descriptor t).map _
  | methodType p => exact (own_methodDescriptor p).map _
  | methodHandle h => exact (own_handle h).map _
  | _ => first | exact .ok _ | exact .unsupported _

theorem own_bootstrapArgument (op : Operand) : OwnStep (bootstrapArgument op) := by
  cases op with
  | const c => exact .lift (own_bootstrapConstant c)
  | var l =>
    refine .bind (own_place l) fun b => ?_
    cases b with
    | slot n => exact .pure _
    | stack => exact .lift (.unsupported _)

theorem own_callOn (op : Opcode) (base : Local) (m : MethodSignature) (args : List Operand)
    (interface : Bool) : OwnStep (callOn op base m args interface) :=
  .bind (own_loadLocal base) fun _ => .bind (own_loadOperands args) fun _ =>
    .bind (.lift (own_callInsn _ _ _)) fun _ => .pure _

theorem own_lowerCall (call : Invocation) : OwnStep (lowerCall call) := by
  cases call with
  | static m args =>
    exact .bind (own_loadOperands args) fun _ =>
      .bind (.lift (own_callInsn _ _ _)) fun _ => .pure _
  | special base m args =>
    -- The receiver may be an object under construction, which is not loaded.
    refine .bind (own_takePending base m) fun done => ?_
    cases done with
    | none => exact own_callOn _ _ _ _ _
    | some pending =>
      refine .bind (own_loadOperands args) fun _ =>
        .bind (.lift (own_callInsn _ _ _)) fun _ => ?_
      cases pending with
      | allocation target => exact .bind (own_storeLocal target) fun _ => .pure _
      | receiver => exact .pure _
  | virtual base m args => exact own_callOn _ _ _ _ _
  | interface base m args => exact own_callOn _ _ _ _ _
  | dynamic bootstrap bootstrapArgs m args =>
    exact .bind (own_loadOperands args) fun _ =>
      .bind (.lift (own_bootstrapHandle bootstrap)) fun _ =>
        .bind (.mapM own_bootstrapArgument _) fun _ =>
          .bind (.lift (own_methodDescriptor _)) fun _ => .pure _

end Calls

section Expressions

theorem own_binaryOp (op : BinOp) (c : Category) : Own (binaryOp op c) := by
  cases op <;> cases c <;> first | exact .ok _ | exact .unsupported _

theorem own_negOp (c : Category) : Own (negOp c) := by
  cases c <;> first | exact .ok _ | exact .unsupported _

theorem own_castCode (source target : Ty) : Own (castCode source target) := by
  unfold castCode
  split
  · exact .ok _
  · exact .unsupported _

theorem own_lowerCast (op : Operand) (target : Ty) : OwnStep (lowerCast op target) := by
  have hcheck : OwnStep (do
      let value ← loadOperand op
      return value ++ [.type .checkcast (← internalName target)]) :=
    .bind (own_loadOperand op) fun _ =>
      .bind (.lift (own_internalName _)) fun _ => .pure _
  exact .ite (.ite (.bind (.lift (.unsupported _)) fun _ => hcheck) hcheck)
    (.bind (.lift (own_castCode _ _)) fun _ =>
      .bind (own_loadOperand op) fun _ => .pure _)

theorem own_newArrayInsn (element : Ty) : Own (newArrayInsn element) := by
  unfold newArrayInsn
  split
  · exact .ok _
  · exact (own_internalName _).map _

theorem own_lowerNewArray (element : Ty) (size : Operand) :
    OwnStep (lowerNewArray element size) :=
  .bind (own_loadOperand size) fun _ =>
    .bind (.lift (own_newArrayInsn _)) fun _ => .pure _

theorem own_loadBase (f : FieldRef) : OwnStep (loadBase f) := by
  cases f with
  | ofObject base field => exact own_loadLocal base
  | ofClass field => exact .pure _

theorem own_lowerField (f : FieldRef) : OwnStep (lowerField f) :=
  .bind (.lift (own_fieldName _)) fun _ => .bind (own_loadBase f) fun _ => .pure _

theorem own_elementOf (a : ArrayRef) : Own (elementOf a) := by
  unfold elementOf
  split
  · exact .ok _
  · exact .unsupported _

theorem own_loadElementPlace (a : ArrayRef) : OwnStep (loadElementPlace a) :=
  .bind (own_loadLocal a.base) fun _ => .bind (own_loadOperand a.index) fun _ => .pure _

theorem own_loadTested (op : Operand) : OwnStep (loadTested op) := by
  refine .bind (.onSlots fun s => own_resolveOperand s op) fun b => ?_
  cases b with
  | slot n => exact .pure _
  | stack => exact .pure _

theorem own_lowerExpr (e : Expr) : OwnStep (lowerExpr e) := by
  cases e with
  | operand op => exact own_loadOperand op
  | binary op lhs rhs =>
    exact .bind (own_loadOperand lhs) fun _ => .bind (own_loadOperand rhs) fun _ =>
      .bind (.lift (own_binaryOp _ _)) fun _ => .pure _
  | neg op =>
    exact .bind (own_loadOperand op) fun _ => .bind (.lift (own_negOp _)) fun _ => .pure _
  | cast op target => exact own_lowerCast op target
  | instanceOf op check =>
    exact .bind (own_loadTested op) fun _ =>
      .bind (.lift (own_internalName _)) fun _ => .pure _
  | new n => exact .lift (.unsupported _)
  | newArray element size => exact own_lowerNewArray element size
  | newMultiArray t sizes =>
    have hmake : OwnStep (do
        let code ← loadOperands sizes
        return code ++ [.multiNewArray (← descriptor t) sizes.length]) :=
      .bind (own_loadOperands sizes) fun _ => .bind (.lift (own_descriptor t)) fun _ =>
        .pure _
    exact .ite (.bind (.lift (.unsupported _)) fun _ => hmake) hmake
  | length op => exact .bind (own_loadOperand op) fun _ => .pure _
  | invoke call => exact own_lowerCall call
  | field f => exact own_lowerField f
  | element a =>
    exact .bind (.lift (own_elementOf a)) fun _ =>
      .bind (own_loadElementPlace a) fun _ => .pure _
  | phi locals => exact .lift (.unsupported _)

end Expressions

section Statements

theorem own_copyLocal (target source : Local) : OwnStep (copyLocal target source) := by
  refine .ite (.pure _) (.bind (own_place source) fun origin => .ite ?_ ?_)
  · exact .bind (own_rebind target origin) fun _ => .pure _
  · refine .bind (own_place target) fun _ => .ite (.pure _) ?_
    exact .bind (own_loadLocal source) fun _ => .bind (own_storeLocal target) fun _ =>
      .pure _

theorem own_assignValue (target : Local) (rhs : Expr) :
    OwnStep (assignValue target rhs) :=
  .bind (own_lowerExpr rhs) fun _ => .bind (own_storeLocal target) fun _ => .pure _

theorem own_assignLocal (isStatic : Bool) (target : Local) (rhs : Expr) :
    OwnStep (assignLocal isStatic target rhs) := by
  have hvalue := own_assignValue target rhs
  unfold assignLocal
  split
  · exact own_copyLocal target _
  · refine .ite (.bind (own_place _) fun b => ?_) hvalue
    exact .bind (own_rebind target b) fun _ => .pure _
  · exact .bind (.modify _) fun _ => .pure _
  · refine .bind (own_lowerNewArray _ _) fun array => .ite ?_ ?_
    · refine .bind (own_place target) fun b => ?_
      cases b with
      | stack => exact .bind (own_storeLocal target) fun _ => .pure _
      | slot n => exact .bind (own_storeLocal target) fun _ => .pure _
    · exact .bind (own_storeLocal target) fun _ => .pure _
  · exact .ite (.bind (.lift (.own_inconsistent id)) fun _ => hvalue) hvalue
  · exact .ite (.bind (.onSlots fun s => own_resolveDeclared s target) fun _ => hvalue) hvalue
  · exact hvalue

theorem own_asOperand (rhs : Expr) (e : String → Unsupported) :
    Own (asOperand rhs e) := by
  cases rhs with
  | operand op => exact .ok _
  | _ => exact .unsupported _

theorem own_lowerAssign (isStatic : Bool) (lhs : Place) (rhs : Expr) :
    OwnStep (lowerAssign isStatic lhs rhs) := by
  cases lhs with
  | var l => exact own_assignLocal isStatic l rhs
  | field f =>
    exact .bind (.lift (own_asOperand _ _)) fun _ =>
      .bind (.lift (own_fieldName _)) fun _ =>
      .bind (own_loadBase f) fun _ => .bind (own_loadOperand _) fun _ => .pure _
  | element a =>
    exact .bind (.lift (own_asOperand _ _)) fun _ =>
      .bind (.lift (own_elementOf a)) fun _ =>
      .bind (own_loadElementPlace a) fun _ => .bind (own_loadOperand _) fun _ => .pure _

theorem own_lowerParameter (m : Method) (b : Body) (l : Local) (index : Nat) :
    OwnStep (lowerParameter m b l index) := by
  refine .bind .get fun p => ?_
  split
  · refine .ite (.pure _) (.bind (own_place l) fun _ => .ite (.pure _) ?_)
    exact .bind (.lift (own_loadOp _)) fun _ =>
      .bind (.lift (own_moveCode (own_storeOp _) _)) fun _ => .pure _
  · exact .lift (.own_inconsistent id)

theorem own_lowerIdentity (m : Method) (b : Body) (l : Local) (source : Source) :
    OwnStep (lowerIdentity m b l source) := by
  cases source with
  | this => exact .ite (.pure _) (.bind (.modify _) fun _ => .pure _)
  | parameter index t => exact own_lowerParameter m b l index
  | caughtException => exact own_storeLocal l

theorem structural_blockOf (g : Flow) (s : StmtId) : Structural (blockOf g s) := by
  unfold blockOf
  split
  · exact .ok _
  · exact .structural _

theorem direct_targetLabel (c : MethodContext) (s : StmtId) : Direct (targetLabel c s) := by
  refine .bind (structural_blockOf _ s).direct fun b => ?_
  split
  · exact .ok _
  · exact .inconsistent _

theorem own_branchCode (op : CmpOp) (lhs rhs : Ty) (target : Label) :
    Own (branchCode op lhs rhs target) := by
  refine .ite (.map _ ?_) ?_
  · cases op <;> first | exact .ok _ | exact .unsupported _
  · split
    · exact .ok _
    · exact .ite (.ok _) (.unsupported _)

theorem own_lowerReturn (m : Method) (op : Option Operand) : OwnStep (lowerReturn m op) := by
  cases op with
  | none => exact .pure _
  | some op =>
    have hvalue : OwnStep (do
        return (← loadOperand op) ++ [.simple (returnOp m.ret.category)]) :=
      .bind (own_loadOperand op) fun _ => .pure _
    exact .ite (.bind (.lift (.own_inconsistent id)) fun _ => hvalue) hvalue

theorem direct_lowerGoto (c : MethodContext) (target : StmtId) :
    DirectStep (lowerGoto c target) := by
  have hreturn : ∀ op, DirectStep (lowerReturn c.method op) := fun op =>
    (own_lowerReturn c.method op).mono fun _ => LowerError.IsOwn.isDirect
  refine .bind (.lift (structural_blockOf _ target).direct) fun b => ?_
  split
  · exact .pure _
  · split
    · exact hreturn _
    · exact hreturn _
    · exact .lift (.inconsistent _)

theorem own_consume (op : Operand) (code : Opcode) : OwnStep (consume op code) :=
  .bind (own_loadOperand op) fun _ => .pure _

section Targets

variable {P : LowerError → Prop} {c : MethodContext}

theorem fails_lowerBranch (hP : ∀ e : LowerError, e.IsOwn → P e) {target : StmtId}
    (htarget : FailsWith P (targetLabel c target)) (cond : Condition) :
    FailsWithStep P (lowerBranch c cond target) :=
  .bind (.lift htarget) fun _ => .bind ((own_loadOperand _).mono hP) fun _ =>
    .bind ((own_loadOperand _).mono hP) fun _ =>
      .bind (.lift ((own_branchCode _ _ _ _).mono hP)) fun _ => .pure _

theorem fails_lowerSwitch (hP : ∀ e : LowerError, e.IsOwn → P e) {targets : List StmtId}
    {default : StmtId} (htargets : ∀ t ∈ targets, FailsWith P (targetLabel c t))
    (hdefault : FailsWith P (targetLabel c default)) (key : Operand) (values : List Int32) :
    FailsWithStep P (lowerSwitch c key values targets default) := by
  refine .bind (.lift hdefault) fun label => ?_
  refine .bind (.mapM_of_mem fun x hx => ?_) fun cases => ?_
  · exact .lift ((htargets x.2 (List.of_mem_zip hx).2).map _)
  have hvalue : ∀ i, FailsWithStep P (do return (← loadOperand key) ++ [i]) :=
    fun _ => .bind ((own_loadOperand key).mono hP) fun _ => .pure _
  dsimp only
  split
  · exact .bind (.lift ((FailsWith.own_inconsistent id).mono hP)) fun _ => hvalue _
  · exact hvalue _

/-- Statements fail for reasons of their own, apart from what the labels of their targets fail
with. -/
theorem fails_lowerStmt (hP : ∀ e : LowerError, e.IsOwn → P e) {k : StmtKind}
    (htargets : ∀ t ∈ k.targets, k ≠ .goto t → FailsWith P (targetLabel c t))
    (hgoto : ∀ t, k = .goto t → FailsWithStep P (lowerGoto c t)) :
    FailsWithStep P (lowerStmt c k) := by
  cases k with
  | assign lhs rhs => exact (own_lowerAssign _ lhs rhs).mono hP
  | identity l rhs => exact (own_lowerIdentity _ _ l rhs).mono hP
  | invoke call => exact .bind ((own_lowerCall call).mono hP) fun _ => .pure _
  | branch cond target =>
    exact fails_lowerBranch hP (htargets target (by simp [StmtKind.targets]) (by simp)) cond
  | goto target => exact hgoto target rfl
  | switch key values targets default =>
    refine fails_lowerSwitch hP (fun t ht => ?_) ?_ key values
    · exact htargets t (by simp [StmtKind.targets, ht]) (by simp)
    · exact htargets default (by simp [StmtKind.targets]) (by simp)
  | «return» op => exact (own_lowerReturn c.method (some op)).mono hP
  | returnVoid => exact (own_lowerReturn c.method none).mono hP
  | throw op => exact (own_consume op _).mono hP
  | enterMonitor op => exact (own_consume op _).mono hP
  | exitMonitor op => exact (own_consume op _).mono hP
  | nop => exact .pure _
  | breakpoint => exact .lift ((FailsWith.unsupported _).mono hP)

end Targets

/-- Statements fail for reasons of their own. -/
theorem direct_lowerStmt (c : MethodContext) (k : StmtKind) : DirectStep (lowerStmt c k) :=
  fails_lowerStmt (fun _ => LowerError.IsOwn.isDirect) (fun t _ _ => direct_targetLabel c t)
    fun t _ => direct_lowerGoto c t

end Statements

section Layouts

theorem structural_checkBlocks (b : Body) : Structural (checkBlocks b) := by
  refine .forM (fun block => ?_) _
  have hstmts : Structural (block.stmts.forM fun s =>
      if (b.stmt? s).isNone then inconsistent (.undefinedStmt block.id s) else pure ()) :=
    .forM (fun s => .ite (.structural _) (.ok _)) _
  exact .ite (.bind (.structural _) fun _ => hstmts) hstmts

theorem structural_ownerOf (g : Flow) (s : Stmt) : Structural (ownerOf g s) := by
  unfold ownerOf
  split
  · exact .ok _
  · exact .structural _

theorem structural_getBlock (g : Flow) (id : BlockId) : Structural (getBlock g id) := by
  unfold getBlock
  split
  · exact .ok _
  · exact .structural _

theorem structural_handlersOf (g : Flow) (b : Block) : Structural (handlersOf g b) := by
  refine .mapM (fun e => ?_) _
  split
  · exact .ok _
  · exact .structural _

theorem structural_stopOf (g : Flow) (b : Block) (last : StmtId) :
    Structural (stopOf g b last) := by
  unfold stopOf
  split
  · exact .ok _
  · split
    · exact .ok _
    · exact .structural _

theorem structural_trapsOf (g : Flow) (b : Block) : Structural (trapsOf g b) := by
  refine .bind (structural_handlersOf g b) fun _ => ?_
  split
  · exact .bind (structural_stopOf g b _) fun _ => .ok _
  · exact .ok _

theorem structural_rangeOf (g : Flow) (order : List BlockId) (t : Trap) :
    Structural (rangeOf g order t) :=
  .bind (structural_blockOf g _) fun _ => .bind (structural_blockOf g _) fun _ =>
    .bind (structural_blockOf g _) fun _ => .ok _

theorem structural_jumpTargets (b : Body) (s : Stmt) : Structural (jumpTargets b s) := by
  unfold jumpTargets
  split
  · exact .bind (structural_blockOf _ _) fun _ => .ok _
  · exact .bind (structural_blockOf _ _) fun _ => .bind (structural_getBlock _ _) fun _ => .ok _
  · refine .ite (.bind (.structural _) fun _ => ?_) ?_
    all_goals exact .mapM (structural_blockOf _) _
  · exact .ok _

/-- Layouts fail only where the parts of a body do not fit together. -/
theorem structural_ofBody (b : Body) (lines : Bool) : Structural (Layout.ofBody b lines) :=
  .bind (structural_checkBlocks b) fun _ =>
    .bind ((FailsWith.mapM (structural_ownerOf b.flow) _).map _) fun _ =>
      .bind (.mapM (structural_getBlock _) _) fun _ =>
        .bind (.mapM (structural_trapsOf _) _) fun _ =>
          .bind (.mapM (structural_rangeOf _ _) _) fun _ =>
            .bind (.mapM (structural_jumpTargets b) _) fun _ => .ok _

theorem direct_get (labels : Labels) (b : BlockId) : Direct (labels.get b) := by
  unfold Labels.get
  split
  · exact .ok _
  · exact .inconsistent _

theorem direct_boundary (labels : Labels) (b : Boundary) : Direct (labels.boundary b) := by
  cases b with
  | block b => exact direct_get labels b
  | methodEnd =>
    rw [Labels.boundary]
    cases labels.stop with
    | some l => exact .ok _
    | none => exact .inconsistent _

/-- Exception tables fail for reasons of their own. -/
theorem direct_guards (layout : Layout) : Direct layout.guards := by
  refine .mapM (fun r => ?_) _
  exact .bind (direct_get _ _) fun _ => .bind (direct_boundary _ _) fun _ =>
    .bind (direct_get _ _) fun _ => .ok _

end Layouts

section Blocks

variable (c : MethodContext) (title : String) (lines : Bool)

theorem isReasonIn_lowerStmts (ids : List StmtId) :
    FailsWithStep (LowerError.IsReasonIn title) (lowerStmts c title ids) := by
  refine .bind (.mapM (fun id => ?_) ids) fun _ => .pure _
  split
  · -- The statement is named where the reason is found.
    rename_i s _
    refine fun p => .mapError fun e he => ?_
    exact (direct_lowerStmt c s.kind p e he).isReasonIn_within title _
  · exact .lift ((FailsWith.inconsistent _).mono fun _ => .inl)

theorem direct_blockEnd (block : Block) (id : BlockId) : Direct (blockEnd c block id) := by
  unfold blockEnd
  split
  · exact .ok _
  · exact .ite (.ok _) ((direct_get _ _).map _)

theorem isReasonIn_lowerBlock (id : BlockId) :
    FailsWithStep (LowerError.IsReasonIn title) (lowerBlock c title lines id) := by
  unfold lowerBlock
  split
  · exact .lift ((FailsWith.inconsistent _).mono fun _ => .inl)
  · exact .bind (isReasonIn_lowerStmts c title _) fun _ =>
      .bind (.lift ((direct_blockEnd c _ _).mono fun _ => .inl)) fun _ => .pure _

/-- Blocks fail for reasons of their own, in a statement of the method or outside of any. -/
theorem isReasonIn_lowerBlocks :
    FailsWith (LowerError.IsReasonIn title) (lowerBlocks c title lines) :=
  .bind ((own_ofMethod _ _).mono fun _ h => .inl h.isDirect) fun _ =>
    .bind (FailsWithStep.mapM (isReasonIn_lowerBlock c title lines) _ _) fun _ => .ok _

end Blocks

section Methods

/-- No layout fails for code that cannot run. -/
theorem codeFree_ofBody (b : Body) (lines : Bool) : CodeFree (Layout.ofBody b lines) :=
  (structural_ofBody b lines).mono fun _ h => h.isDirect.codeFree

/-- No exception table fails for code that cannot run. -/
theorem codeFree_guards (layout : Layout) : CodeFree layout.guards :=
  (direct_guards layout).mono fun _ h => h.codeFree

/-- No block fails for code that cannot run. -/
theorem codeFree_lowerBlocks (c : MethodContext) (title : String) (lines : Bool) :
    CodeFree (lowerBlocks c title lines) :=
  (isReasonIn_lowerBlocks c title lines).mono fun _ h => h.codeFree

/-- A sequence fails for code that cannot run only where one of its steps does. -/
theorem CodeFree.bind_of_ok {x : Lowered α} {f : α → Lowered β} (hx : CodeFree x)
    (hf : ∀ a, x = .ok a → CodeFree (f a)) : CodeFree (x >>= f) :=
  FailsWith.bind_of_ok hx hf

/-- A success is no failure. -/
theorem CodeFree.ok (a : α) : CodeFree (.ok a) :=
  FailsWith.ok a

/-- Naming the place of an error keeps its root. -/
theorem CodeFree.within {x : Lowered α} (method : String) (stmt : Option String)
    (hx : CodeFree x) : CodeFree (x.mapError (.within method stmt)) := by
  refine FailsWith.mapError fun e he ce => ?_
  rw [LowerError.root_within]
  exact hx e he ce

/-- A method that fails names itself, once. -/
theorem isPlaced_lowerMethod (owner : ClassName) (m : Method) (options : Options)
    (argSlots : Nat) :
    FailsWith (LowerError.IsPlaced (methodTitle owner m))
      (lowerMethod owner m options argSlots) := by
  have hdirect {e : LowerError} (he : e.IsDirect) :
      e.IsBare ∨ e.IsPlaced (methodTitle owner m) := .inl he.isBare
  have hbody (b : Body) : FailsWith (fun e => e.IsBare ∨ e.IsPlaced (methodTitle owner m))
      (lowerBody (methodTitle owner m) m b options.lineNumbers argSlots) := by
    refine .bind ((structural_ofBody _ _).direct.mono fun _ => hdirect) fun layout => ?_
    refine .bind ((direct_guards layout).mono fun _ => hdirect) fun guards => ?_
    refine .bind ((isReasonIn_lowerBlocks _ _ _).mono fun _ h => h.isBare_or_isPlaced) fun r => ?_
    -- The check of the finished code does not know where it is.
    exact .bind (.mapError fun _ _ => .inl nofun) fun _ => .ok _
  refine .mapError fun e he => ?_
  have hresult : e.IsBare ∨ e.IsPlaced (methodTitle owner m) := by
    cases hb : m.body with
    | some b =>
      rw [hb] at he
      exact hbody b e he
    | none =>
      rw [hb] at he
      exact (FailsWith.inconsistent _).mono (fun _ => hdirect) e he
  rcases hresult with hbare | hplaced
  · exact hbare.isPlaced_within _ _
  · rw [hplaced.within_eq]
    exact hplaced

end Methods

end BytecodeLowering.Lowering
