import BytecodeLowering.Proofs.Lowering.Preservation

/-!
# Stack temporaries keep their meaning

The code of a static method without branches ends as its statements do, also where integers stay on
the operand stack between two statements.

* `Allocated.matched`: what a statement comes to is matched by its code.
* `lowerMethod_preserves_straight`: the code ends as the statements do.
* `not_preserved_of_unordered`: it does not where a stack temporary is subtracted.
-/

namespace BytecodeLowering.Lowering

open Ir Machine

/-- What a statement without a branch comes to is matched by its code. -/
theorem Allocated.matched {c : MethodContext} {insns : List Insn} {items : List (List Insn)}
    {start final : Slots} {args : Nat → Value} (hc : Allocated c insns items start final)
    (hstraight : c.body.Straight c.method) (htemps : c.body.Temporaries)
    (hordered : ∀ s ∈ c.body.stmts, s.kind.Ordered) (hargs : Fits c.method.params args) :
    Simulates (c.body.step args) (Machine.step insns) (Related c insns items start final args)
      (rank c.body) := by
  rintro ⟨j, env⟩ ⟨pc, ⟨stack, f⟩⟩ ⟨hstands, hstack, hagree⟩
  dsimp only at hstands hstack hagree
  unfold Body.step
  dsimp only
  cases hj : c.body.stmts[j]? with
  | none => exact matched_end hstands hj
  | some s =>
  rw [Stands, hj] at hstands
  obtain ⟨front, code, rest, p, p', hplaced, hnext⟩ := hstands
  have hmem := List.mem_of_getElem? hj
  have hkind := hstraight.stmts s hmem
  have horder := hordered s hmem
  -- What the statement before has left on the operand stack is what this one reads.
  have hheld := htemps.temporaries_eq hj
  rw [← hheld] at hstack
  have hsingle : (temporaries s.kind.uses).length ≤ 1 := hheld ▸ c.body.length_held_le j
  have hnext : s.kind.fallsThrough → pc + (front ++ code).length = startOf items (j + 1) := hnext
  dsimp only
  obtain ⟨id, line, kind⟩ := s
  cases kind with
  | assign lhs rhs =>
    cases lhs with
    | var l =>
      obtain ⟨hl, hrhs, hcategory⟩ := hkind
      exact hc.matched_assign hagree hj rfl hplaced (hnext rfl) hl ⟨hrhs, horder, hsingle⟩ hcategory
        hstack
    | _ => cases hkind
  | identity l source =>
    cases source with
    | parameter index t =>
      obtain rfl : stack = [] := hstack
      exact hc.matched_identity hargs hagree hj rfl hplaced (hnext rfl)
    | _ => cases hkind
  | «return» op => exact hc.matched_return hagree hj rfl hplaced hkind.1 hkind.2 hstack
  | returnVoid => exact matched_returnVoid rfl hplaced
  | _ => cases hkind

/-- A static method without branches keeps its meaning, where each stack temporary is assigned once
and read once, by the next statement, and is the second operand of commutative operations only: from
local variables that carry the arguments, its code ends as its statements do. -/
theorem lowerMethod_preserves_straight {m : Method} {b : Body} {locals : List Local}
    {stmts : List Stmt} {traps : List Trap} {owner : ClassName} {options : Options}
    {argSlots : Nat} {r : LoweredMethod} {args : Nat → Value} {f : Frame}
    (hb : Body.ofStmts locals stmts traps = .ok b) (hm : m.body = some b) (hstatic : m.isStatic)
    (hstraight : b.Straight m) (htemps : b.Temporaries)
    (hordered : ∀ s ∈ b.stmts, s.kind.Ordered)
    (h : lowerMethod owner m options argSlots = .ok r) (hf : Carries f m.params args)
    (e : Ending) :
    Halts (b.step args) Ir.State.start e ↔
      Halts (Machine.step r.code.insns) ⟨0, ⟨[], f⟩⟩ e := by
  have hnumeric : ∀ s ∈ b.stmts, ∀ l, s.kind.Mentions l → l.Numeric :=
    fun s hs l hl => numeric_of_mentions (hstraight.stmts s hs) hl
  obtain ⟨c, items, start, rfl, rfl, hc⟩ :=
    Allocated.of_lowerMethod hb hm hstatic hnumeric hstraight.parameters h
  exact (hc.matched hstraight htemps hordered hf.category).halts_iff (hc.related_start hf) e

section Chain

/-- The parameter of `chain`. -/
def chainInput : Local := ⟨"x", .prim .int, .ordinary⟩

/-- The variable that `chain` assigns twice. -/
def chainValue : Local := ⟨"y", .prim .int, .ordinary⟩

/-- The stack temporaries of `chain`. -/
def chainTemporary (name : String) : Local := ⟨name, .prim .int, .stackTemp⟩

/-- The statements of `chain`. One stack temporary is the first operand of a subtraction, another
one the second operand of an addition, and the last one is returned. -/
def chainStmts : List Stmt :=
  [⟨⟨0⟩, none, .identity chainInput (.parameter 0 (.prim .int))⟩,
    ⟨⟨1⟩, none, .assign (.var (chainTemporary "$stack0"))
      (.binary .mul (.var chainInput) (.const (.int 3)))⟩,
    ⟨⟨2⟩, none, .assign (.var chainValue)
      (.binary .sub (.var (chainTemporary "$stack0")) (.const (.int 1)))⟩,
    ⟨⟨3⟩, none, .assign (.var (chainTemporary "$stack1")) (.operand (.var chainValue))⟩,
    ⟨⟨4⟩, none, .assign (.var chainValue)
      (.binary .add (.var chainInput) (.var (chainTemporary "$stack1")))⟩,
    ⟨⟨5⟩, none, .assign (.var (chainTemporary "$stack2")) (.neg (.var chainValue))⟩,
    ⟨⟨6⟩, none, .return (.var (chainTemporary "$stack2"))⟩]

/-- The body of `chain`. -/
def chainBody : Body where
  locals := []
  stmts := chainStmts
  flow := ⟨[⟨⟨0⟩, [⟨0⟩, ⟨1⟩, ⟨2⟩, ⟨3⟩, ⟨4⟩, ⟨5⟩, ⟨6⟩], [], []⟩]⟩

/-- A method that passes three values on the operand stack. -/
def chain : Method :=
  ⟨"chain", [.static], [.prim .int], .prim .int, [], some chainBody, none⟩

/-- The code of `chain`. -/
def chainCode : LoweredMethod where
  code :=
    { insns := [.var .iload 0, .simple .iconst3, .simple .imul, .simple .iconst1, .simple .isub,
        .var .istore 1, .var .iload 1, .var .iload 0, .simple .iadd, .var .istore 1, .var .iload 1,
        .simple .ineg, .simple .ireturn]
      guards := []
      sizes := ⟨2, 2⟩ }
  slots :=
    { bindings := [(chainTemporary "$stack2", .stack), (chainTemporary "$stack1", .stack),
        (chainValue, .slot 1), (chainTemporary "$stack0", .stack), (chainInput, .slot 0)]
      next := 2, params := [0], first := 1,
      declared := [chainTemporary "$stack2", chainTemporary "$stack1", chainValue,
        chainTemporary "$stack0", chainInput] }
  labels := 0
  traps := 0

/-- The locals of `chain` are numeric. -/
theorem numeric_chain : chainInput.Integral ∧ chainInput.Numeric ∧ chainValue.Numeric ∧
    ∀ name, (chainTemporary name).Numeric :=
  ⟨⟨rfl, .inl rfl⟩, ⟨.inl rfl, .inl rfl⟩, ⟨.inl rfl, .inl rfl⟩, fun _ => ⟨.inr rfl, .inl rfl⟩⟩

/-- The body of `chain` has no branches. -/
theorem straight_chainBody : chainBody.Straight chain where
  stmts := by
    obtain ⟨hinput, hinput', hvalue, htemporary⟩ := numeric_chain
    intro s hs
    simp only [chainBody, chainStmts, List.mem_cons, List.not_mem_nil, or_false] at hs
    rcases hs with rfl | rfl | rfl | rfl | rfl | rfl | rfl
    · refine ⟨hinput, fun t ht => ?_⟩
      cases ht
      rfl
    · exact ⟨htemporary _, ⟨hinput', trivial, rfl⟩, rfl⟩
    · exact ⟨hvalue, ⟨htemporary _, trivial, rfl⟩, rfl⟩
    · exact ⟨htemporary _, hvalue, rfl⟩
    · exact ⟨hvalue, ⟨hinput', htemporary _, rfl⟩, rfl⟩
    · exact ⟨htemporary _, hvalue, rfl⟩
    · exact ⟨htemporary _, rfl⟩
  first := by decide
  nodup := by decide

/-- `lowerMethod_preserves_straight` at a method with stack temporaries in all positions: its code
returns what its statements do. -/
theorem chain_preserved :
    lowerMethod ⟨"A"⟩ chain {} 1 = .ok chainCode ∧
      Halts (Machine.step chainCode.code.insns) ⟨0, ⟨[], fun n => if n = 0 then 5 else 0⟩⟩
        (.returned (some (.int (-19)))) := by
  have hb : Body.ofStmts [] chainStmts [] = .ok chainBody := by cbv
  have h : lowerMethod ⟨"A"⟩ chain {} 1 = .ok chainCode := by cbv
  have hf : Carries (fun n => if n = 0 then 5 else 0) chain.params fun _ => .int 5 :=
    .single rfl rfl fun n hn => if_neg (Nat.ne_of_gt hn)
  have htemps : chainBody.Temporaries := by decide
  have hordered : ∀ s ∈ chainBody.stmts, s.kind.Ordered := by
    intro s hs
    simp only [chainBody, chainStmts, List.mem_cons, List.not_mem_nil, or_false] at hs
    rcases hs with rfl | rfl | rfl | rfl | rfl | rfl | rfl <;>
      simp [StmtKind.Ordered, Expr.Ordered, BinOp.isCommutative]
  have hstmts : Halts (chainBody.step fun _ => .int 5) Ir.State.start
      (.returned (some (.int (-19)))) := ⟨7, rfl⟩
  exact ⟨h, (lowerMethod_preserves_straight hb rfl rfl straight_chainBody htemps hordered h hf _).1
    hstmts⟩

end Chain

section Unordered

/-- The statements of `unordered`. The stack temporary is subtracted, so that its value is expected
on top of that of the parameter. -/
def unorderedStmts : List Stmt :=
  [⟨⟨0⟩, none, .identity chainInput (.parameter 0 (.prim .int))⟩,
    ⟨⟨1⟩, none, .assign (.var (chainTemporary "$stack0")) (.operand (.const (.int 1)))⟩,
    ⟨⟨2⟩, none, .assign (.var chainValue)
      (.binary .sub (.var chainInput) (.var (chainTemporary "$stack0")))⟩,
    ⟨⟨3⟩, none, .return (.var chainValue)⟩]

/-- The body of `unordered`. -/
def unorderedBody : Body where
  locals := []
  stmts := unorderedStmts
  flow := ⟨[⟨⟨0⟩, [⟨0⟩, ⟨1⟩, ⟨2⟩, ⟨3⟩], [], []⟩]⟩

/-- A method that subtracts one from its argument. -/
def unordered : Method :=
  ⟨"unordered", [.static], [.prim .int], .prim .int, [], some unorderedBody, none⟩

/-- The code of `unordered`. The argument is pushed on top of what it is to be subtracted from. -/
def unorderedCode : LoweredMethod where
  code :=
    { insns := [.simple .iconst1, .var .iload 0, .simple .isub, .var .istore 1, .var .iload 1,
        .simple .ireturn]
      guards := []
      sizes := ⟨2, 2⟩ }
  slots :=
    { bindings := [(chainValue, .slot 1), (chainTemporary "$stack0", .stack),
        (chainInput, .slot 0)]
      next := 2, params := [0], first := 1,
      declared := [chainValue, chainTemporary "$stack0", chainInput] }
  labels := 0
  traps := 0

/-- The body of `unordered` has no branches. -/
theorem straight_unorderedBody : unorderedBody.Straight unordered where
  stmts := by
    obtain ⟨hinput, hinput', hvalue, htemporary⟩ := numeric_chain
    intro s hs
    simp only [unorderedBody, unorderedStmts, List.mem_cons, List.not_mem_nil, or_false] at hs
    rcases hs with rfl | rfl | rfl | rfl
    · refine ⟨hinput, fun t ht => ?_⟩
      cases ht
      rfl
    · exact ⟨htemporary _, trivial, rfl⟩
    · exact ⟨hvalue, ⟨hinput', htemporary _, rfl⟩, rfl⟩
    · exact ⟨hvalue, rfl⟩
  first := by decide
  nodup := by decide

/-- A method without branches may lose its meaning, although no statement reads and assigns stack
temporaries: the statements of `unordered` return one less than the argument, but its code returns
the negative of that. -/
theorem not_preserved_of_unordered :
    ¬∀ (m : Method) (b : Body) (locals : List Local) (stmts : List Stmt) (traps : List Trap)
      (owner : ClassName) (options : Options) (argSlots : Nat) (r : LoweredMethod)
      (args : Nat → Value) (f : Frame),
      Body.ofStmts locals stmts traps = .ok b → m.body = some b → m.isStatic → b.Straight m →
        b.Temporaries →
        (∀ s ∈ b.stmts, temporaries s.kind.uses = [] ∨ temporaries s.kind.def?.toList = []) →
        lowerMethod owner m options argSlots = .ok r → Carries f m.params args →
          ∀ e : Ending, Halts (b.step args) Ir.State.start e ↔
            Halts (Machine.step r.code.insns) ⟨0, ⟨[], f⟩⟩ e := by
  intro hall
  have hb : Body.ofStmts [] unorderedStmts [] = .ok unorderedBody := by cbv
  have h : lowerMethod ⟨"A"⟩ unordered {} 1 = .ok unorderedCode := by cbv
  have hf : Carries (fun _ => 0) unordered.params fun _ => .int 0 :=
    .single rfl rfl fun _ _ => rfl
  have htemps : unorderedBody.Temporaries := by decide
  have hapart : ∀ s ∈ unorderedBody.stmts,
      temporaries s.kind.uses = [] ∨ temporaries s.kind.def?.toList = [] := by decide
  have hstmts : Halts (unorderedBody.step fun _ => .int 0) Ir.State.start
      (.returned (some (.int (-1)))) := ⟨4, rfl⟩
  have hcode : Halts (Machine.step unorderedCode.code.insns) ⟨0, ⟨[], fun _ => 0⟩⟩
      (.returned (some (.int 1))) := ⟨6, rfl⟩
  have hsame := (hall _ _ _ _ _ _ _ _ _ _ _ hb rfl rfl straight_unorderedBody htemps hapart h
    hf _).1 hstmts
  exact absurd (hcode.unique hsame) (by decide)

end Unordered

end BytecodeLowering.Lowering
