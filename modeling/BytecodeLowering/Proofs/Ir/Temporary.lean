import BytecodeLowering.Proofs.Ir.Integral

/-!
# Stack temporaries

Straight-line code over integers, some of which stay on the operand stack from the statement that
assigns them to the next one.

* `temporaries`: the stack temporaries among some locals.
* `Expr.Ordered`, `BinOp.apply_comm`: the second operand of an operation is a stack temporary only
  if the operands may be swapped.
* `Expr.Reachable`: an expression whose operands are where they are looked for.
* `StmtKind.Straight`, `Body.Straight`: statements without branches, and bodies of them that bind
  their parameters first.
* `Body.Passes`, `Body.Temporaries`: a stack temporary is assigned once and read once, by the next
  statement.
* `Body.held`, `Body.Temporaries.temporaries_eq`: a statement reads what the one in front of it has
  left on the operand stack.
-/

namespace BytecodeLowering.Ir

/-- The stack temporaries among some locals. -/
def temporaries (ls : List Local) : List Local :=
  ls.filter fun l => l.role = .stackTemp

/-- A stack temporary among some locals is one of them. -/
theorem mem_temporaries {ls : List Local} {l : Local} :
    l ∈ temporaries ls ↔ l ∈ ls ∧ l.role = .stackTemp := by
  simp [temporaries]

/-- Integral locals are no stack temporaries. -/
theorem temporaries_eq_nil {ls : List Local} (h : ∀ l ∈ ls, l.Integral) : temporaries ls = [] :=
  List.filter_eq_nil_iff.2 fun l hl => by simp [(h l hl).role]

/-- The stack temporary of an operand that is one. -/
theorem temporaries_localsOf {l : Local} (h : l.role = .stackTemp) :
    temporaries (localsOf [.var l]) = [l] := by
  simp [temporaries, localsOf, Operand.local?, h]

/-- The stack temporaries of two operands. -/
theorem temporaries_operands (lhs rhs : Operand) :
    temporaries (localsOf [lhs, rhs]) =
      temporaries (localsOf [lhs]) ++ temporaries (localsOf [rhs]) := by
  have hsplit : localsOf [lhs, rhs] = localsOf [lhs] ++ localsOf [rhs] :=
    List.filterMap_append (l := [lhs])
  rw [hsplit, temporaries, List.filter_append, temporaries, temporaries]

namespace BinOp

/-- Whether the operands may be swapped. -/
def isCommutative : BinOp → Bool
  | add | mul | and | or | xor => true
  | _ => false

/-- The value of a commutative operation does not depend on the order of the operands. -/
theorem apply_comm {op : BinOp} (h : op.isCommutative) (a b : Value) :
    op.apply a b = op.apply b a := by
  cases a <;> cases b <;> cases op <;> cases h <;>
    simp only [apply, int, long, shiftLong, Int32.add_comm, Int32.mul_comm, Int32.and_comm,
      Int32.or_comm, Int32.xor_comm, Int64.add_comm, Int64.mul_comm, Int64.and_comm,
      Int64.or_comm, Int64.xor_comm]

end BinOp

namespace Expr

/-- The second operand of an operation is a stack temporary only if the operands may be swapped: its
value is below that of the first one, which is pushed later. -/
def Ordered : Expr → Prop
  | binary op _ (.var l) => l.role = .stackTemp → op.isCommutative
  | _ => True

/-- An expression that finds its stack temporaries, of which it has one at most. -/
structure Reachable (e : Expr) : Prop where
  /-- The operands are integers. -/
  numeric : e.Numeric
  /-- A stack temporary is found below what is pushed for the other operand. -/
  ordered : e.Ordered
  /-- There is one stack temporary at most. -/
  single : (temporaries e.uses).length ≤ 1

/-- An integral expression has no stack temporaries. -/
theorem Integral.reachable {e : Expr} (h : e.Integral) (huses : ∀ l ∈ e.uses, l.Integral) :
    e.Reachable where
  numeric := h.numeric
  ordered := by
    cases e with
    | binary op lhs rhs =>
      -- var l|A local of an integral operation is in a slot, so that it need not be on the stack in
      -- time.
      cases rhs with
      | var l =>
        intro hl
        rw [(h.2.1 : l.Integral).role] at hl
        cases hl
      | const c => trivial
    | _ => trivial
  single := by
    rw [temporaries_eq_nil huses]
    exact Nat.zero_le 1

end Expr

namespace StmtKind

/-- A statement without a branch of a method over integers. A parameter is bound to a variable of
its type. -/
def Straight (m : Method) : StmtKind → Prop
  | assign (.var l) rhs => l.Numeric ∧ rhs.Numeric ∧ rhs.category = l.ty.category
  | identity l (.parameter index _) => l.Integral ∧ ∀ t, m.params[index]? = some t → l.ty = t
  | .return op => op.Numeric ∧ op.ty.category = m.ret.category
  | returnVoid => True
  | _ => False

/-- The operands of the expression that is assigned are in an order that its code computes with. -/
def Ordered : StmtKind → Prop
  | assign _ rhs => rhs.Ordered
  | _ => True

end StmtKind

namespace Body

/-- A body of statements without branches that binds its parameters before anything else. -/
structure Straight (m : Method) (b : Body) : Prop where
  /-- The statements compute with integers and have no branches. -/
  stmts : ∀ s ∈ b.stmts, s.kind.Straight m
  /-- Only such statements as bind parameters stand in front of one. -/
  first : b.stmts.Pairwise fun s s' => s'.kind.isIdentity → s.kind.isIdentity
  /-- No parameter is bound twice. -/
  nodup : (b.stmts.filterMap fun s => s.kind.parameter?).Nodup

/-- A body without branches binds its parameters first. -/
theorem Straight.parameters {m : Method} {b : Body} (h : b.Straight m) : b.Parameters m where
  bound s hs l source hkind := by
    have hstraight := h.stmts s hs
    rw [hkind] at hstraight
    cases source with
    | parameter index t => exact ⟨index, t, rfl, hstraight⟩
    | this => cases hstraight
    | caughtException => cases hstraight
  first := h.first
  nodup := h.nodup

/-- A local is assigned by one statement, and read once, by the next statement. -/
def Passes (b : Body) (l : Local) : Prop :=
  ∃ k < b.stmts.length - 1, ∀ j (h : j < b.stmts.length),
    (b.stmts[j].kind.def? = some l ↔ j = k) ∧
      b.stmts[j].kind.uses.count l = if j = k + 1 then 1 else 0

instance (b : Body) (l : Local) : Decidable (b.Passes l) :=
  inferInstanceAs (Decidable (∃ k < b.stmts.length - 1, ∀ j (h : j < b.stmts.length),
    (b.stmts[j].kind.def? = some l ↔ j = k) ∧
      b.stmts[j].kind.uses.count l = if j = k + 1 then 1 else 0))

/-- The stack temporaries of a body are passed from one statement to the next. -/
def Temporaries (b : Body) : Prop :=
  ∀ s ∈ b.stmts, ∀ l ∈ temporaries (s.kind.def?.toList ++ s.kind.uses), b.Passes l

instance (b : Body) : Decidable b.Temporaries :=
  inferInstanceAs (Decidable (∀ s ∈ b.stmts,
    ∀ l ∈ temporaries (s.kind.def?.toList ++ s.kind.uses), b.Passes l))

/-- The stack temporaries that are on the operand stack in front of the statement at a place: what
the statement in front of it has assigned. -/
def held (b : Body) : Nat → List Local
  | 0 => []
  | j + 1 => (b.stmts[j]?.map fun s => temporaries s.kind.def?.toList).getD []

/-- Behind a statement there is on the operand stack what it has assigned. -/
theorem held_succ {b : Body} {j : Nat} {s : Stmt} (h : b.stmts[j]? = some s) :
    b.held (j + 1) = temporaries s.kind.def?.toList := by
  rw [held, h, Option.map_some, Option.getD_some]

/-- Without stack temporaries there is nothing on the operand stack. -/
theorem held_eq_nil {b : Body} (h : ∀ s ∈ b.stmts, ∀ l, s.kind.def? = some l → l.Integral)
    (j : Nat) : b.held j = [] := by
  cases j with
  | zero => rfl
  | succ j =>
    cases hj : b.stmts[j]? with
    | none => simp [held, hj]
    | some s =>
      rw [held_succ hj]
      exact temporaries_eq_nil fun l hl => h s (List.mem_of_getElem? hj) l (by simpa using hl)

/-- There is one stack temporary at most on the operand stack. -/
theorem length_held_le (b : Body) (j : Nat) : (b.held j).length ≤ 1 := by
  cases j with
  | zero => exact Nat.zero_le 1
  | succ j =>
    cases hj : b.stmts[j]? with
    | none => simp [held, hj]
    | some s =>
      rw [held_succ hj]
      refine Nat.le_trans (List.length_filter_le _ _) ?_
      cases s.kind.def? <;> simp

namespace Temporaries

variable {b : Body} {j : Nat} {s : Stmt} {l : Local}

/-- A stack temporary that is read was assigned by the statement in front. -/
theorem exists_def_of_mem (h : b.Temporaries) (hj : b.stmts[j]? = some s)
    (hl : l ∈ temporaries s.kind.uses) :
    ∃ k s', j = k + 1 ∧ b.stmts[k]? = some s' ∧ s'.kind.def? = some l := by
  obtain ⟨hlt, rfl⟩ := List.getElem?_eq_some_iff.1 hj
  obtain ⟨hl, hrole⟩ := mem_temporaries.1 hl
  obtain ⟨k, hk, hpass⟩ := h _ (List.getElem_mem hlt) l
    (mem_temporaries.2 ⟨List.mem_append_right _ hl, hrole⟩)
  have hcount := (hpass j hlt).2
  -- At any other place it would be read zero times.
  have hjk : j = k + 1 := by
    by_contra hne
    rw [if_neg hne] at hcount
    exact absurd hl (List.count_eq_zero.1 hcount)
  have hk : k < b.stmts.length := by omega
  exact ⟨k, b.stmts[k], hjk, List.getElem?_eq_getElem hk, ((hpass k hk).1).2 rfl⟩

/-- A stack temporary that is assigned is what the next statement reads. -/
theorem temporaries_of_def (h : b.Temporaries) {s' : Stmt} (hj : b.stmts[j]? = some s)
    (hs : s.kind.def? = some l) (hrole : l.role = .stackTemp) (hj' : b.stmts[j + 1]? = some s') :
    temporaries s'.kind.uses = [l] := by
  have honly : ∀ l' ∈ temporaries s'.kind.uses, l' = l := by
    intro l' hl'
    obtain ⟨k, x, heq, hx, hdef⟩ := h.exists_def_of_mem hj' hl'
    cases heq
    obtain rfl := Option.some.inj (hj.symm.trans hx)
    exact Option.some.inj (hdef.symm.trans hs)
  obtain ⟨k, -, hpass⟩ := h s (List.mem_of_getElem? hj) l
    (mem_temporaries.2 ⟨by simp [hs], hrole⟩)
  obtain ⟨hlt, rfl⟩ := List.getElem?_eq_some_iff.1 hj
  obtain ⟨hlt', rfl⟩ := List.getElem?_eq_some_iff.1 hj'
  obtain rfl := (hpass j hlt).1.1 hs
  -- It is read once, and nothing else is.
  have hcount : (temporaries b.stmts[j + 1].kind.uses).count l = 1 := by
    rw [temporaries, List.count_filter (by simpa using hrole), (hpass (j + 1) hlt').2, if_pos rfl]
  have hlength := List.count_eq_length.2 fun l' hl' => (honly l' hl').symm
  rw [List.eq_replicate_of_mem honly, ← hlength, hcount, List.replicate_one]

/-- A statement reads the stack temporaries that the one in front of it has assigned. -/
theorem temporaries_eq (h : b.Temporaries) (hj : b.stmts[j]? = some s) :
    temporaries s.kind.uses = b.held j := by
  -- Where nothing was left there is nothing to read.
  have hnil : (∀ k s', j = k + 1 → b.stmts[k]? = some s' → temporaries s'.kind.def?.toList = []) →
      temporaries s.kind.uses = [] := by
    refine fun hnone => List.eq_nil_iff_forall_not_mem.2 fun l hl => ?_
    obtain ⟨k, s', hk, hs', hdef⟩ := h.exists_def_of_mem hj hl
    have hmem : l ∈ temporaries s'.kind.def?.toList :=
      mem_temporaries.2 ⟨by simp [hdef], (mem_temporaries.1 hl).2⟩
    rw [hnone k s' hk hs'] at hmem
    cases hmem
  cases j with
  | zero => exact hnil fun k _ heq => absurd heq (Nat.zero_ne_add_one k)
  | succ k =>
    have hk : k < b.stmts.length := Nat.lt_of_succ_lt (List.getElem?_eq_some_iff.1 hj).1
    have hget := List.getElem?_eq_getElem hk
    rw [held_succ hget]
    -- Either the statement in front has left nothing, or the one temporary that it assigns.
    rcases hleft : temporaries b.stmts[k].kind.def?.toList with _ | ⟨l, ls⟩
    · refine hnil fun k' s' heq hs' => ?_
      cases heq
      rw [← Option.some.inj (hget.symm.trans hs'), hleft]
    · have hl : l ∈ temporaries b.stmts[k].kind.def?.toList := hleft ▸ List.mem_cons_self
      obtain ⟨hdef, hrole⟩ := mem_temporaries.1 hl
      have hdef : b.stmts[k].kind.def? = some l := by simpa using hdef
      rw [h.temporaries_of_def hget hdef hrole hj, ← hleft, hdef]
      simp [temporaries, hrole]

end Temporaries

end Body

end BytecodeLowering.Ir
