import BytecodeLowering.Proofs.Ir.Run
import BytecodeLowering.Proofs.Ir.Width

/-!
# Bodies that compute with integers

Three-address code over `int` and `long`.

* `Ty.IsIntegral`, `Local.Integral`, `Operand.Integral`, `Expr.Integral`, `StmtKind.Integral`:
  types, locals, operands, expressions and statements that are integral. Operands have the
  categories that are asked for, and a value has the category of the place that it goes to.
* `Local.Numeric`, `Operand.Numeric`, `Expr.Numeric`: the same where a local may also be a stack
  temporary.
* `Body.Integral`: a body of such statements that binds its parameters first.
* `Body.Parameters`: a body that binds its parameters first, whatever its other statements are.
* `Body.BindsOnce`: no branch leads back to where the parameters are bound.
* `Env.Typed`, `Expr.category_eval`: a value has the category that its expression says.
-/

namespace BytecodeLowering.Ir

/-- The types of integers that are computed with. -/
def Ty.IsIntegral (t : Ty) : Prop :=
  t = .prim .int ∨ t = .prim .long

/-- The category of an integral type is that of 32-bit or of 64-bit integers. -/
theorem Ty.IsIntegral.category {t : Ty} (h : t.IsIntegral) :
    t.category = .int ∨ t.category = .long := by
  rcases h with rfl | rfl
  · exact .inl rfl
  · exact .inr rfl

/-- Integral types of one category are the same. -/
theorem Ty.IsIntegral.eq_of_category {t t' : Ty} (h : t.IsIntegral) (h' : t'.IsIntegral)
    (heq : t.category = t'.category) : t = t' := by
  rcases h with rfl | rfl <;> rcases h' with rfl | rfl <;> first | rfl | cases heq

/-- A variable of the program of an integral type. -/
structure Local.Integral (l : Local) : Prop where
  /-- It is a variable of the program. -/
  role : l.role = .ordinary
  /-- It holds integers. -/
  ty : l.ty.IsIntegral

/-- A variable of the program or a stack temporary of an integral type. -/
structure Local.Numeric (l : Local) : Prop where
  /-- It is in a slot or on the operand stack. -/
  role : l.role = .ordinary ∨ l.role = .stackTemp
  /-- It holds integers. -/
  ty : l.ty.IsIntegral

/-- Integral variables of the program are such locals. -/
theorem Local.Integral.numeric {l : Local} (h : l.Integral) : l.Numeric :=
  ⟨.inl h.role, h.ty⟩

/-- A stack temporary is no variable of the program. -/
theorem Local.Numeric.integral_or_stackTemp {l : Local} (h : l.Numeric) :
    l.Integral ∨ l.role = .stackTemp :=
  h.role.imp_left fun hrole => ⟨hrole, h.ty⟩

/-- An integral local or constant. -/
def Operand.Integral : Operand → Prop
  | var l => l.Integral
  | const (.int _) | const (.long _) => True
  | const _ => False

/-- A numeric local or an integral constant. -/
def Operand.Numeric : Operand → Prop
  | var l => l.Numeric
  | const c => (Operand.const c).Integral

/-- An integral operand is numeric. -/
theorem Operand.Integral.numeric {op : Operand} (h : op.Integral) : op.Numeric := by
  cases op with
  | var l => exact Local.Integral.numeric h
  | const c => exact h

/-- A numeric operand is integral or a stack temporary. -/
theorem Operand.Numeric.integral_or_stackTemp {op : Operand} (h : op.Numeric) :
    op.Integral ∨ ∃ l, op = .var l ∧ l.role = .stackTemp := by
  cases op with
  | var l => exact (Local.Numeric.integral_or_stackTemp h).imp_right fun hl => ⟨l, rfl, hl⟩
  | const c => exact .inl h

/-- The type of a numeric operand is integral. -/
theorem Operand.Numeric.ty {op : Operand} (h : op.Numeric) : op.ty.IsIntegral := by
  cases op with
  | var l => exact Local.Numeric.ty h
  | const c =>
    cases c with
    | int => exact .inl rfl
    | long => exact .inr rfl
    | _ => cases h

/-- The type of an integral operand is integral. -/
theorem Operand.Integral.ty {op : Operand} (h : op.Integral) : op.ty.IsIntegral :=
  h.numeric.ty

namespace Expr

/-- The category of the value of an integral expression. -/
def category : Expr → Category
  | operand op | neg op => op.ty.category
  | binary op lhs _ => if op.isComparison then .int else lhs.ty.category
  | cast _ t => t.category
  | _ => .void

/-- An integral operand, operation, negation or conversion. The distance of a shift is a 32-bit
integer, and the operands of any other operation have one category. -/
def Integral : Expr → Prop
  | operand op | neg op => op.Integral
  | binary op lhs rhs => lhs.Integral ∧ rhs.Integral ∧
      if op.isShift then rhs.ty.category = .int else lhs.ty.category = rhs.ty.category
  | cast op t => op.Integral ∧ t.IsIntegral
  | _ => False

/-- The same with numeric operands. -/
def Numeric : Expr → Prop
  | operand op | neg op => op.Numeric
  | binary op lhs rhs => lhs.Numeric ∧ rhs.Numeric ∧
      if op.isShift then rhs.ty.category = .int else lhs.ty.category = rhs.ty.category
  | cast op t => op.Numeric ∧ t.IsIntegral
  | _ => False

/-- An integral expression has numeric operands. -/
theorem Integral.numeric {rhs : Expr} (h : rhs.Integral) : rhs.Numeric := by
  cases rhs with
  | operand op | neg op => exact Operand.Integral.numeric h
  | binary op lhs rhs => exact ⟨h.1.numeric, h.2.1.numeric, h.2.2⟩
  | cast op t => exact ⟨h.1.numeric, h.2⟩
  | _ => cases h

end Expr

namespace StmtKind

/-- Whether the statement binds a local to what the method was entered with. -/
def isIdentity : StmtKind → Bool
  | identity .. => true
  | _ => false

/-- The parameter that the statement binds a local to, if it does. -/
def parameter? : StmtKind → Option Nat
  | identity _ (.parameter index _) => some index
  | _ => none

/-- A statement of a method that computes with integers. A parameter is bound to a local of its
type. -/
def Integral (m : Method) : StmtKind → Prop
  | assign (.var l) rhs => l.Integral ∧ rhs.Integral ∧ rhs.category = l.ty.category
  | identity l (.parameter index _) => l.Integral ∧ ∀ t, m.params[index]? = some t → l.ty = t
  | branch cond _ =>
    cond.lhs.Integral ∧ cond.rhs.Integral ∧ cond.lhs.ty.category = cond.rhs.ty.category
  | switch key _ _ _ => key.Integral ∧ key.ty.category = .int
  | .return op => op.Integral ∧ op.ty.category = m.ret.category
  | goto _ | returnVoid | nop => True
  | _ => False

variable {m : Method} {k : StmtKind}

/-- A statement that binds a local to a parameter is no other statement. -/
theorem Integral.eq_of_isIdentity (h : k.Integral m) (hk : k.isIdentity) :
    ∃ l index t, k = .identity l (.parameter index t) := by
  cases k with
  | identity l source =>
    cases source with
    | parameter index t => exact ⟨l, index, t, rfl⟩
    | this => cases h
    | caughtException => cases h
  | _ => cases hk

end StmtKind

/-- A body for a method that computes with integers, and binds its parameters before anything
else. -/
structure Body.Integral (m : Method) (b : Body) : Prop where
  /-- The statements compute with integers. -/
  stmts : ∀ s ∈ b.stmts, s.kind.Integral m
  /-- Only such statements as bind parameters stand in front of one. -/
  first : b.stmts.Pairwise fun s s' => s'.kind.isIdentity → s.kind.isIdentity
  /-- No parameter is bound twice. -/
  nodup : (b.stmts.filterMap fun s => s.kind.parameter?).Nodup

/-- A body that binds parameters to integral locals of their types, before anything else. -/
structure Body.Parameters (m : Method) (b : Body) : Prop where
  /-- What is bound is a parameter, to a local of its type. -/
  bound : ∀ s ∈ b.stmts, ∀ l source, s.kind = .identity l source →
    ∃ index t, source = .parameter index t ∧ l.Integral ∧
      ∀ t', m.params[index]? = some t' → l.ty = t'
  /-- Only such statements as bind parameters stand in front of one. -/
  first : b.stmts.Pairwise fun s s' => s'.kind.isIdentity → s.kind.isIdentity
  /-- No parameter is bound twice. -/
  nodup : (b.stmts.filterMap fun s => s.kind.parameter?).Nodup

/-- A body that computes with integers binds its parameters first. -/
theorem Body.Integral.parameters {m : Method} {b : Body} (h : b.Integral m) : b.Parameters m where
  bound s hs l source hkind := by
    have hint := h.stmts s hs
    obtain ⟨_, index, t, heq⟩ := hint.eq_of_isIdentity (by rw [hkind]; rfl)
    rw [heq] at hint
    cases hkind.symm.trans heq
    exact ⟨index, t, rfl, hint.1, hint.2⟩
  first := h.first
  nodup := h.nodup

/-- A body without branches to statements that bind parameters. -/
def Body.BindsOnce (b : Body) : Prop :=
  ∀ s ∈ b.stmts, ∀ t ∈ s.kind.targets, ∀ s' ∈ b.stmts, s'.id = t → s'.kind.isIdentity = false

instance (b : Body) : Decidable b.BindsOnce :=
  inferInstanceAs (Decidable (∀ s ∈ b.stmts, ∀ t ∈ s.kind.targets, ∀ s' ∈ b.stmts, s'.id = t →
    s'.kind.isIdentity = false))

/-- The statement at a place binds a local to a parameter. -/
def Body.Binds (b : Body) (j : Nat) (l : Local) (index : Nat) : Prop :=
  ∃ s t, b.stmts[j]? = some s ∧ s.kind = .identity l (.parameter index t)

/-- A statement binds one local to one parameter. -/
theorem Body.Binds.unique {b : Body} {j : Nat} {l l' : Local} {index index' : Nat}
    (h : b.Binds j l index) (h' : b.Binds j l' index') : l' = l ∧ index' = index := by
  obtain ⟨s, t, hs, hkind⟩ := h
  obtain ⟨s', t', hs', hkind'⟩ := h'
  obtain rfl := Option.some.inj (hs.symm.trans hs')
  cases hkind.symm.trans hkind'
  exact ⟨rfl, rfl⟩

namespace Body.Parameters

variable {m : Method} {b : Body} {j k : Nat} {s s' : Stmt}

/-- In front of a statement that binds a parameter there are only such statements. -/
theorem isIdentity_of_le (h : b.Parameters m) (hle : j ≤ k) (hj : b.stmts[j]? = some s)
    (hk : b.stmts[k]? = some s') (hs' : s'.kind.isIdentity) : s.kind.isIdentity := by
  rcases Nat.eq_or_lt_of_le hle with rfl | hlt
  · obtain rfl := Option.some.inj (hj.symm.trans hk)
    exact hs'
  · obtain ⟨hjlt, rfl⟩ := List.getElem?_eq_some_iff.1 hj
    obtain ⟨hklt, rfl⟩ := List.getElem?_eq_some_iff.1 hk
    exact List.pairwise_iff_getElem.1 h.first j k hjlt hklt hlt hs'

/-- A parameter is bound at one place only. -/
theorem binds_inj (h : b.Parameters m) {l l' : Local} {index : Nat} (hj : b.Binds j l index)
    (hk : b.Binds k l' index) : j = k := by
  -- Of two places with the parameter, one is in front, and the list of parameters would repeat it.
  have hne : ∀ (i i' : Nat) (x x' : Local), i < i' → b.Binds i x index → ¬b.Binds i' x' index := by
    rintro i i' x x' hlt ⟨s, t, hs, hkind⟩ ⟨s', t', hs', hkind'⟩
    obtain ⟨hilt, rfl⟩ := List.getElem?_eq_some_iff.1 hs
    obtain ⟨hilt', rfl⟩ := List.getElem?_eq_some_iff.1 hs'
    have hpair := List.pairwise_filterMap.1 h.nodup
    have hpair := List.pairwise_iff_getElem.1 hpair i i' hilt hilt' hlt
    exact hpair index (by rw [hkind]; rfl) index (by rw [hkind']; rfl) rfl
  rcases Nat.lt_trichotomy j k with hlt | heq | hlt
  · exact absurd hk (hne j k l l' hlt hj)
  · exact heq
  · exact absurd hj (hne k j l' l hlt hk)

/-- A local has the type of the parameter that it is bound to. -/
theorem ty_eq_of_binds (h : b.Parameters m) {l : Local} {index : Nat} (hj : b.Binds j l index)
    {t : Ty} (ht : m.params[index]? = some t) : l.Integral ∧ l.ty = t := by
  obtain ⟨s, t', hs, hkind⟩ := hj
  obtain ⟨_, _, heq, hl, hty⟩ := h.bound s (List.mem_of_getElem? hs) l _ hkind
  cases heq
  exact ⟨hl, hty t ht⟩

/-- Nothing is bound behind a statement that binds nothing. -/
theorem not_binds_of_le (h : b.Parameters m) (hj : b.stmts[j]? = some s)
    (hs : s.kind.isIdentity = false) (hle : j ≤ k) {l : Local} {index : Nat} :
    ¬b.Binds k l index := by
  rintro ⟨s', t, hk, hkind⟩
  have hidentity := h.isIdentity_of_le hle hj hk (by rw [hkind]; rfl)
  rw [hs] at hidentity
  cases hidentity

end Body.Parameters

/-- Locals of integral types have values of their categories. -/
def Env.Typed (env : Env) : Prop :=
  ∀ l : Local, l.ty.IsIntegral → (env l).category = l.ty.category

namespace Env.Typed

variable {env : Env} {l : Local} {v : Value}

/-- Zeros have the categories of their locals. -/
theorem start : Env.Typed State.start.env :=
  fun _ hl => Value.category_zero hl.category

/-- A local that is assigned a value of its category keeps its category. -/
theorem update (henv : env.Typed) (hv : v.category = l.ty.category) :
    Env.Typed (Function.update env l v) := by
  intro l' hl'
  by_cases heq : l' = l
  · rw [heq, Function.update_self, hv]
  · rw [Function.update_of_ne heq, henv l' hl']

/-- An operand of an integral type has a value of its category. -/
theorem exists_eval (henv : env.Typed) {op : Operand} (h : op.ty.IsIntegral) :
    ∃ v, op.eval env = .done v ∧ v.category = op.ty.category := by
  cases op with
  | var l => exact ⟨env l, rfl, henv l h⟩
  | const c =>
    cases c with
    | int a => exact ⟨.int a, rfl, rfl⟩
    | long a => exact ⟨.long a, rfl, rfl⟩
    | _ => rcases h with h | h <;> cases h

end Env.Typed

/-- The value of an operation has the category of the first operand, unless it tells how two values
compare. -/
theorem BinOp.category_apply {op : BinOp} {a b v : Value} (h : op.apply a b = .done v) :
    v.category = if op.isComparison then .int else a.category := by
  cases a with
  -- int a|Shifts apart, an operation has a meaning only for two operands of one category.
  | int a =>
    cases b with
    | int b =>
      obtain ⟨c, -, rfl⟩ := Outcome.map_eq_done_iff.1 h
      split <;> rfl
    | long b => cases h
  | long a =>
    cases b with
    | int n => cases op <;> cases h <;> rfl
    | long b =>
      cases op with
      | div | rem =>
        obtain ⟨c, -, rfl⟩ := Outcome.map_eq_done_iff.1 h
        rfl
      | _ => cases h <;> rfl

/-- The negative of a value has its category. -/
theorem category_negate (v : Value) : (negate v).category = v.category := by
  cases v <;> rfl

/-- A converted value has the category of the type. -/
theorem category_convert {v w : Value} {t : Ty} (h : convert v t = .done w) :
    w.category = t.category := by
  unfold convert at h
  split at h <;> cases h <;> rfl

/-- The value of an expression with numeric operands has its category. -/
theorem Expr.category_eval {env : Env} (henv : env.Typed) {rhs : Expr} (h : rhs.Numeric)
    {v : Value} (hv : rhs.eval env = .done v) : v.category = rhs.category := by
  cases rhs with
  | operand op =>
    obtain ⟨a, ha, hcategory⟩ := henv.exists_eval (Operand.Numeric.ty h)
    cases ha.symm.trans hv
    exact hcategory
  | binary op lhs rhs =>
    obtain ⟨a, ha, hcategory⟩ := henv.exists_eval h.1.ty
    obtain ⟨b, hb, -⟩ := henv.exists_eval h.2.1.ty
    rw [eval, ha, hb, Outcome.done_bind, Outcome.done_bind] at hv
    rw [BinOp.category_apply hv, category, hcategory]
  | neg op =>
    obtain ⟨a, ha, hcategory⟩ := henv.exists_eval (Operand.Numeric.ty h)
    rw [eval, ha] at hv
    cases hv
    rw [category_negate, hcategory, category]
  | cast op t =>
    obtain ⟨a, ha, -⟩ := henv.exists_eval h.1.ty
    rw [eval, ha, Outcome.done_bind] at hv
    exact category_convert hv
  | _ => cases h

end BytecodeLowering.Ir
