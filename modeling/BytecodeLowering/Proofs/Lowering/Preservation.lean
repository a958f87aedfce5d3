import BytecodeLowering.Proofs.Lowering.Agreement
import Mathlib

/-!
# Integer methods keep their meaning

The code of a static method that computes with integers ends as its statements do.

* `Placed`, `Stands`: the places in the code where a statement is run.
* `Related`: the state of the code belongs to that of the statements.
* `Allocated.matched_assign`, `Allocated.matched_identity`, `Allocated.matched_return`: statements
  without branches are matched by their code, also where they pass values on the operand stack.
* `Compiled.matched`: what a statement of a method without stack temporaries comes to is matched by
  its code.
* `lowerMethod_preserves`: the code ends as the statements do, by a value or by a division by zero.
-/

namespace BytecodeLowering.Lowering

open Ir Machine

/-- The code of a statement is at a place, behind labels. -/
structure Placed (c : MethodContext) (insns : List Insn) (start final : Slots) (kind : StmtKind)
    (pc : Nat) (front code rest : List Insn) (p p' : Progress) : Prop where
  /-- The labels and the code are there. -/
  drop : insns.drop pc = (front ++ code) ++ rest
  /-- There are labels in front of the code. -/
  front : ∀ i ∈ front, i.isMark
  /-- It is what the statement is lowered to. -/
  code : lowerStmt c kind p = .ok (code, p')
  /-- What came before has kept the slots. -/
  before : Slots.Touches Local.Numeric start p.slots
  /-- What comes behind keeps the slots. -/
  behind : Slots.Touches Local.Numeric p'.slots final

/-- The statement at a place is run by the instructions at another place. Behind the code of a
statement that falls through comes that of the next one. -/
def Stands (c : MethodContext) (insns : List Insn) (items : List (List Insn)) (start final : Slots)
    (j pc : Nat) : Prop :=
  match c.body.stmts[j]? with
  | some s => ∃ front code rest p p', Placed c insns start final s.kind pc front code rest p p' ∧
      (s.kind.fallsThrough → pc + (front ++ code).length = startOf items (j + 1))
  | none => ∀ i ∈ insns.drop pc, i.isMark

variable {c : MethodContext} {insns : List Insn} {items : List (List Insn)} {start final : Slots}
  {args : Nat → Value} {j k index pc : Nat} {env : Env} {f : Frame} {l : Local} {s : Stmt}
  {full front code rest : List Insn} {p p' : Progress} {stack : List Value}

/-- A state of the code that stands at a statement, with the values of the locals. -/
structure Related (c : MethodContext) (insns : List Insn) (items : List (List Insn))
    (start final : Slots) (args : Nat → Value) (s : Ir.State) (t : Machine.State) : Prop where
  /-- The code stands at the statement. -/
  stands : Stands c insns items start final s.position t.pc
  /-- The values of the stack temporaries are on the operand stack. -/
  stack : t.store.stack = (c.body.held s.position).map s.env
  /-- The local variables hold the values of the locals. -/
  agreement : Agreement c final args s.position s.env t.store.frame

/-- A number that decreases where a statement has no code: the statements that are left, or zero at
a return. -/
def rank (b : Body) (s : Ir.State) : Nat :=
  match b.stmts[s.position]? with
  | some x => if x.kind.isReturn then 0 else b.stmts.length - s.position + 1
  | none => 0

/-- The rank decreases from a statement to the next one, unless it is a return. -/
theorem rank_next_lt {b : Body} {env' : Env} (hj : b.stmts[j]? = some s)
    (hs : s.kind.isReturn = false) : rank b ⟨j + 1, env'⟩ < rank b ⟨j, env⟩ := by
  have hlt := (List.getElem?_eq_some_iff.1 hj).1
  unfold rank
  dsimp only
  rw [hj]
  simp only [hs]
  split
  · split
    · simp
    · simp only [Bool.false_eq_true, if_false]
      omega
  · simp

/-- The rank decreases to a return. -/
theorem rank_return_lt {b : Body} {env' : Env} {s' : Stmt} (hj : b.stmts[j]? = some s)
    (hs : s.kind.isReturn = false) (hk : b.stmts[k]? = some s') (hs' : s'.kind.isReturn) :
    rank b ⟨k, env'⟩ < rank b ⟨j, env⟩ := by
  unfold rank
  dsimp only
  rw [hj, hk]
  simp [hs, hs']

namespace Placed

variable {kind : StmtKind}

/-- The labels in front of the code of a statement do nothing. -/
theorem exec_eq (h : Placed c insns start final kind pc front code rest p p') {x : Store} :
    exec (front ++ code) x = exec code x := by
  rw [exec_append, exec_of_isMark h.front, Outcome.done_bind]

/-- Neither the labels nor a code without jumps lead anywhere else. -/
theorem targets (h : Placed c insns start final kind pc front code rest p p')
    (hcode : ∀ i ∈ code, i.targets = []) : ∀ i ∈ front ++ code, i.targets = [] := by
  intro i hi
  rcases List.mem_append.1 hi with hi | hi
  · exact Insn.targets_of_isMark (h.front i hi)
  · exact hcode i hi

/-- The code of a statement that ends no block has no jumps. -/
theorem targets_of_straight (h : Placed c insns start final kind pc front code rest p p')
    (hkind : kind.endsBlock = false) : ∀ i ∈ front ++ code, i.targets = [] :=
  h.targets fun i hi => Insn.targets_of_isPlain
    ((straight_of_lowerStmt (P := fun _ => True) hkind (by simp) (by simp) h.code).plain i hi)

end Placed

namespace Allocated

/-- The code of a statement stands behind that of the statements in front of it. -/
theorem stands_startOf (hc : Allocated c insns items start final) (j : Nat) :
    Stands c insns items start final j (startOf items j) := by
  obtain ⟨tail, htail, rfl⟩ := hc.listing.tail
  have hsplit : items.flatten ++ tail =
      (items.take j).flatten ++ ((items.drop j).flatten ++ tail) := by
    rw [← List.append_assoc, ← List.flatten_append, List.take_append_drop]
  have hdrop : (items.flatten ++ tail).drop (startOf items j) = (items.drop j).flatten ++ tail := by
    rw [hsplit, startOf]
    exact List.drop_left
  unfold Stands
  split
  · rename_i s hs
    obtain ⟨front, code, p, p', hitem, hfront, hcode, hbefore, hbehind⟩ := hc.listing.code j s hs
    obtain ⟨hlt, hget⟩ := List.getElem?_eq_some_iff.1 hitem
    refine ⟨front, code, (items.drop (j + 1)).flatten ++ tail, p, p',
      ⟨?_, hfront, hcode, hbefore, hbehind⟩, fun _ => ?_⟩
    · rw [hdrop, List.drop_eq_getElem_cons hlt, hget, List.flatten_cons, List.append_assoc]
    · rw [startOf, startOf, List.take_add_one, hitem]
      simp
  · -- Behind the last statement stands nothing that does anything.
    rename_i hnone
    have hle : items.length ≤ j := by
      rw [hc.listing.length_eq]
      exact List.getElem?_eq_none_iff.1 hnone
    rw [hdrop, List.drop_eq_nil_of_le hle]
    exact htail

/-- A statement without a jump is matched by its code, if that does the same. -/
theorem matched_straight (hc : Allocated c insns items start final)
    (hj : c.body.stmts[j]? = some s) (hs : s.kind.isReturn = false)
    (hdrop : insns.drop pc = full ++ rest) (hfull : ∀ i ∈ full, i.targets = [])
    (hnext : pc + full.length = startOf items (j + 1)) {α : Type} {z : Result α} {x : Store}
    {u : α → Env} {g : α → Store} (hexec : exec full x = z.map g)
    (hafter : ∀ a, z = .done a → (g a).stack = (c.body.held (j + 1)).map (u a) ∧
      Agreement c final args (j + 1) (u a) (g a).frame) :
    Matched (Machine.step insns) (Related c insns items start final args) (rank c.body) ⟨j, env⟩
      ⟨pc, x⟩ (z.map fun a => ⟨j + 1, u a⟩) := by
  have hrun := run_code hfull hdrop (x := x)
  rw [hexec, Outcome.map_map, hnext] at hrun
  cases z with
  | done a =>
    obtain ⟨hstack, hagree⟩ := hafter a rfl
    exact ⟨full.length, _, hrun, ⟨hc.stands_startOf (j + 1), hstack, hagree⟩,
      fun _ => rank_next_lt hj hs⟩
  | ends e => exact ⟨full.length, hrun⟩
  | stuck => exact ⟨full.length, hrun⟩

/-- The code of a statement that binds a local to a parameter copies the argument, if that is not
where the local is and the local is read. -/
theorem exec_identity (hc : Allocated c insns items start final) (hargs : Fits c.method.params args)
    (hagree : Agreement c final args j env f) (hb : c.body.Binds j l index) {t : Ty}
    (hplaced : Placed c insns start final (.identity l (.parameter index t)) pc front code rest p
      p') :
    ∃ f', exec code ⟨[], f⟩ = .done ⟨[], f'⟩ ∧
      Agreement c final args (j + 1) (Function.update env l (args index)) f' := by
  obtain ⟨slot, t', hslot, ht', hcode⟩ := lowerParameter_run_iff.1 hplaced.code
  have hplace : slot = argumentPlace c.method.params index := by
    refine hc.param index slot ?_
    rw [← hslot, Slots.param?, Slots.param?, hplaced.before.fixed.1]
  obtain ⟨hl, rfl⟩ := hc.parameters.ty_eq_of_binds hb ht'
  have hv := hargs index l.ty ht' hl.ty
  rcases hcode with ⟨hunused, rfl, -⟩ | ⟨-, binding, hbinding, hcode⟩
  · -- A local that is not used may differ from its argument.
    refine ⟨f, rfl, hagree.keep hb hv fun hused => ?_⟩
    rw [hunused] at hused
    cases hused
  · obtain ⟨n, rfl, hn⟩ := exists_slot_of_place hc.apart hl hbinding hplaced.behind
    rcases hcode with ⟨heq, rfl⟩ | ⟨-, load, store, hload, hstore, rfl⟩
    · cases heq
      exact ⟨f, rfl, hagree.keep hb hv fun _ => hplace ▸ hn⟩
    · obtain ⟨⟨⟩, -⟩ | ⟨_, o, ⟨⟩, ho, rfl⟩ := moveCode_eq_ok_iff.1 hstore
      have hvalue := hagree.argument j l index (Nat.le_refl j) hb
      refine ⟨f.set n (args index), ?_, hagree.copy hc hargs hb hn⟩
      rw [exec, Insn.perform, hplace, access_loadOp hload hvalue hv, Outcome.done_bind,
        exec_singleton, Insn.perform, access_storeOp ho hv]

/-- An assignment is matched by its code, which finds the stack temporary of the expression on the
operand stack. Where a local is assigned to itself there is none. -/
theorem matched_assign (hc : Allocated c insns items start final)
    (hagree : Agreement c final args j env f) {rhs : Expr}
    (hj : c.body.stmts[j]? = some s) (hkind : s.kind = .assign (.var l) rhs)
    (hplaced : Placed c insns start final s.kind pc front code rest p p')
    (hnext : pc + (front ++ code).length = startOf items (j + 1)) (hl : l.Numeric)
    (hrhs : rhs.Reachable) (hcategory : rhs.category = l.ty.category)
    (hstack : stack = (temporaries rhs.uses).map env) :
    Matched (Machine.step insns) (Related c insns items start final args) (rank c.body) ⟨j, env⟩
      ⟨pc, ⟨stack, f⟩⟩ (s.kind.exec c.body args ⟨j, env⟩) := by
  have hs : s.kind.isIdentity = false ∧ s.kind.isReturn = false ∧ s.kind.endsBlock = false := by
    rw [hkind]
    exact ⟨rfl, rfl, rfl⟩
  have hvalue := hagree.agrees hc hj hs.1
  have hfull := hplaced.targets_of_straight hs.2.2
  have hcode := hplaced.code
  have hheld : c.body.held (j + 1) = temporaries [l] := by
    rw [Body.held_succ hj, hkind]
    rfl
  rw [hkind] at hvalue hcode ⊢
  subst hstack
  rcases exec_assignLocal hc.apart hagree.typed hl hrhs hcategory hcode hplaced.behind
    (fun l hl => hvalue l (by simpa [StmtKind.uses, Place.uses] using hl)) with
    ⟨rfl, rfl⟩ | ⟨x, hx, hexec⟩
  · -- The value is that of the local already.
    have hself : Function.update env l (env l) = env := Function.update_eq_self l env
    refine hc.matched_straight (z := .done (env l)) hj hs.2.1 hplaced.drop hfull hnext
      (g := fun _ => ⟨(temporaries [l]).map env, f⟩) hplaced.exec_eq fun v hv => ?_
    cases hv
    rw [hself, hheld]
    exact ⟨rfl, hagree.pass hc hj hs.1⟩
  · refine hc.matched_straight hj hs.2.1 hplaced.drop hfull hnext (hplaced.exec_eq.trans hexec)
      fun v hv => ?_
    rw [hheld]
    exact hagree.put hc hj hs.1 hl hx
      ((Expr.category_eval hagree.typed hrhs.numeric hv).trans hcategory)

/-- A statement that binds a parameter is matched by its code. -/
theorem matched_identity (hc : Allocated c insns items start final)
    (hargs : Fits c.method.params args) (hagree : Agreement c final args j env f) {t : Ty}
    (hj : c.body.stmts[j]? = some s) (hkind : s.kind = .identity l (.parameter index t))
    (hplaced : Placed c insns start final s.kind pc front code rest p p')
    (hnext : pc + (front ++ code).length = startOf items (j + 1)) :
    Matched (Machine.step insns) (Related c insns items start final args) (rank c.body) ⟨j, env⟩
      ⟨pc, ⟨[], f⟩⟩ (s.kind.exec c.body args ⟨j, env⟩) := by
  have hs : s.kind.isReturn = false ∧ s.kind.endsBlock = false := by
    rw [hkind]
    exact ⟨rfl, rfl⟩
  -- Parameters are bound to variables, so that nothing is left on the operand stack.
  have hheld : c.body.held (j + 1) = [] := by
    obtain ⟨_, _, -, hl, -⟩ := hc.parameters.bound s (List.mem_of_getElem? hj) l _ hkind
    rw [Body.held_succ hj, hkind]
    exact temporaries_eq_nil (by simpa [StmtKind.def?] using hl)
  rw [hkind] at hplaced hs ⊢
  obtain ⟨f', hexec, hagree'⟩ := hc.exec_identity hargs hagree ⟨s, t, hj, hkind⟩ hplaced
  refine hc.matched_straight (z := .done (args index)) (u := Function.update env l)
    (g := fun _ => ⟨[], f'⟩) hj (by rw [hkind]; rfl) hplaced.drop
    (hplaced.targets_of_straight hs.2) hnext (hplaced.exec_eq.trans hexec) fun v hv => ?_
  cases hv
  rw [hheld]
  exact ⟨rfl, hagree'⟩

/-- A return is matched by its code, which finds a stack temporary on the operand stack. -/
theorem matched_return (hc : Allocated c insns items start final)
    (hagree : Agreement c final args j env f) {op : Operand} (hj : c.body.stmts[j]? = some s)
    (hkind : s.kind = .return op)
    (hplaced : Placed c insns start final s.kind pc front code rest p p') (hop : op.Numeric)
    (hcategory : op.ty.category = c.method.ret.category)
    (hstack : stack = (temporaries (localsOf [op])).map env) :
    Matched (Machine.step insns) (Related c insns items start final args) (rank c.body) ⟨j, env⟩
      ⟨pc, ⟨stack, f⟩⟩ (s.kind.exec c.body args ⟨j, env⟩) := by
  have hvalue := hagree.agrees hc hj (by rw [hkind]; rfl)
  have hcode := hplaced.code
  rw [hkind] at hvalue hcode ⊢
  have hexec := exec_lowerReturn hc.apart hagree.typed hop hcategory hcode hplaced.behind hvalue []
  obtain ⟨a, ha, -⟩ := hagree.typed.exists_eval hop.ty
  rw [List.append_nil, ← hstack, ha] at hexec
  rw [StmtKind.exec, ha]
  refine ⟨(front ++ code).length, ?_⟩
  rw [run_code (hplaced.targets (targets_of_lowerReturn (some op) hcode)) hplaced.drop,
    hplaced.exec_eq, hexec]
  rfl

/-- A return without a value is matched by its code. -/
theorem matched_returnVoid (hkind : s.kind = .returnVoid)
    (hplaced : Placed c insns start final s.kind pc front code rest p p') :
    Matched (Machine.step insns) (Related c insns items start final args) (rank c.body) ⟨j, env⟩
      ⟨pc, ⟨stack, f⟩⟩ (s.kind.exec c.body args ⟨j, env⟩) := by
  have hcode := hplaced.code
  rw [hkind] at hcode ⊢
  have htargets := targets_of_lowerReturn (m := c.method) none hcode
  obtain ⟨rfl, -⟩ := pure_run_iff.1 hcode
  refine ⟨(front ++ [Insn.simple .return]).length, ?_⟩
  rw [run_code (hplaced.targets htargets) hplaced.drop, hplaced.exec_eq]
  rfl

/-- Behind the last statement only marks are left, so that the code does not go on. -/
theorem matched_end (hstands : Stands c insns items start final j pc)
    (hj : c.body.stmts[j]? = none) :
    Matched (Machine.step insns) (Related c insns items start final args) (rank c.body) ⟨j, env⟩
      ⟨pc, ⟨stack, f⟩⟩ .stuck := by
  rw [Stands, hj] at hstands
  exact ⟨_, run_off_end (fun i hi => Insn.targets_of_isMark (hstands i hi)) rfl
    (exec_of_isMark hstands)⟩

/-- The code of a method over integers that binds its parameters first. -/
theorem of_lowerMethod {m : Method} {b : Body} {locals : List Local} {stmts : List Stmt}
    {traps : List Trap} {owner : ClassName} {options : Options} {argSlots : Nat}
    {r : LoweredMethod} (hb : Body.ofStmts locals stmts traps = .ok b) (hm : m.body = some b)
    (hstatic : m.isStatic) (hnumeric : ∀ s ∈ b.stmts, ∀ l, s.kind.Mentions l → l.Numeric)
    (hpar : b.Parameters m) (h : lowerMethod owner m options argSlots = .ok r) :
    ∃ c items start, c.method = m ∧ c.body = b ∧ Allocated c r.code.insns items start r.slots := by
  obtain ⟨layout, codes, start, pending, hstart, he, -, hinsns, -⟩ :=
    Emission.of_lowerMethod hb hm h
  obtain ⟨items, hlisting⟩ := he.exists_listing hnumeric
  rw [← hinsns] at hlisting
  -- A statement that binds a parameter was lowered, so that there is such a parameter.
  have hbound : ∀ j l index, b.Binds j l index → ∃ t, m.params[index]? = some t := by
    rintro j l index ⟨s, t, hs, hkind⟩
    obtain ⟨-, code, p, p', -, -, hcode, -, -⟩ := hlisting.code j s hs
    rw [hkind] at hcode
    obtain ⟨-, t', -, ht', -⟩ := lowerParameter_run_iff.1 hcode
    exact ⟨t', ht'⟩
  have hparams : ∀ j l index, b.Binds j l index → index < m.params.length := by
    intro j l index hbinds
    obtain ⟨t, ht⟩ := hbound j l index hbinds
    exact (List.getElem?_eq_some_iff.1 ht).1
  have hseeded := Slots.seeded_of_ofMethod hpar hstatic hparams hstart
  exact ⟨⟨m, b, layout, layout.labels⟩, items, start, rfl, rfl,
    { listing := hlisting
      numeric := hnumeric
      parameters := hpar
      apart := hlisting.touches.apart (hseeded.apart hpar hparams)
      param := fun index n hn => ((hseeded.param index n).1 hn).2
      bound := hbound }⟩

/-- The code is entered at the first statement, with the arguments where they were passed. -/
theorem related_start (hc : Allocated c insns items start final)
    (hf : Carries f c.method.params args) :
    Related c insns items start final args Ir.State.start ⟨0, ⟨[], f⟩⟩ where
  stands := hc.stands_startOf 0
  stack := rfl
  agreement :=
    { typed := Env.Typed.start
      value := by
        intro l hl hnot n hn
        -- A local that is bound to no parameter is behind the arguments, where everything is zero.
        rcases hc.apart.place l n hn with ⟨k, index, hbinds, -⟩ | ⟨-, hle⟩
        · exact absurd hbinds (hnot k index (Nat.zero_le k))
        · exact Frame.holds_zero (fun i hi => hf.zero i (Nat.le_trans hle hi))
      argument := by
        intro k l index _ hbinds
        obtain ⟨t, ht⟩ := hc.bound k l index hbinds
        obtain ⟨hl, hty⟩ := hc.parameters.ty_eq_of_binds hbinds ht
        exact hf.holds index t ht (hty ▸ hl.ty) }

end Allocated

namespace Compiled

/-- There are no stack temporaries. -/
theorem held_eq_nil (hc : Compiled c insns items start final) (j : Nat) : c.body.held j = [] :=
  Body.held_eq_nil
    (fun s hs _ hl => integral_of_mentions (hc.integral.stmts s hs) (.inr hl)) j

/-- Nothing is on the operand stack where the code stands at a statement. -/
theorem related (hc : Compiled c insns items start final)
    (hstands : Stands c insns items start final j pc) (hagree : Agreement c final args j env f) :
    Related c insns items start final args ⟨j, env⟩ ⟨pc, ⟨[], f⟩⟩ :=
  ⟨hstands, by rw [hc.held_eq_nil]; rfl, hagree⟩

/-- A jump is matched by code that chooses its target. -/
theorem matched_jump (hc : Compiled c insns items start final)
    (hdrop : insns.drop pc = full ++ rest) {label : Label} (hchoose : Chooses full f (some label))
    (hplace : place? insns label = some (startOf items k))
    (hagree : Agreement c final args k env f) {s : Ir.State} :
    Matched (Machine.step insns) (Related c insns items start final args) (rank c.body) s
      ⟨pc, ⟨[], f⟩⟩ (.done ⟨k, env⟩) := by
  obtain ⟨n, hrun⟩ := hchoose.run_some hdrop hplace
  exact ⟨n + 1, _, hrun, hc.related (hc.stands_startOf k) hagree, nofun⟩

/-- A jump that is not taken is matched by code that goes on. -/
theorem matched_next (hc : Compiled c insns items start final)
    (hdrop : insns.drop pc = full ++ rest) (hnext : pc + full.length = startOf items k)
    (hchoose : Chooses full f none) (hagree : Agreement c final args k env f) {s : Ir.State} :
    Matched (Machine.step insns) (Related c insns items start final args) (rank c.body) s
      ⟨pc, ⟨[], f⟩⟩ (.done ⟨k, env⟩) := by
  obtain ⟨n, hrun⟩ := hchoose.run_none hdrop
  rw [hnext] at hrun
  exact ⟨n + 1, _, hrun, hc.related (hc.stands_startOf k) hagree, nofun⟩

/-- The target of a jump exists, nothing is bound there, and its label is where its code starts. -/
theorem exists_target (hc : Compiled c insns items start final)
    (hagree : Agreement c final args j env f) (hj : c.body.stmts[j]? = some s)
    (hs : s.kind.isIdentity = false) {t : StmtId} (ht : t ∈ s.kind.targets) :
    ∃ k s', c.body.stmts[k]? = some s' ∧ c.body.stmt? t = some s' ∧
      Ir.State.goto c.body ⟨j, env⟩ t = .done ⟨k, env⟩ ∧ Agreement c final args k env f ∧
      ∀ l, targetLabel c t = .ok l → place? insns l = some (startOf items k) := by
  have hmem := List.mem_of_getElem? hj
  obtain ⟨k, s', hposition, hk, hid, hstmt, hplace⟩ := hc.listing.target s hmem t ht
  have hs' := hc.once s hmem t ht s' (List.mem_of_getElem? hk) hid
  refine ⟨k, s', hk, hstmt, ?_, ?_, hplace⟩
  · rw [Ir.State.goto, hposition]
  · exact hagree.move (fun _ _ _ hi => hc.parameters.not_binds_of_le hj hs hi)
      fun _ _ _ hi => hc.parameters.not_binds_of_le hk hs' hi

/-- A conditional branch is matched by its code, which jumps or goes on. -/
theorem matched_branch (hc : Compiled c insns items start final)
    (hagree : Agreement c final args j env f) {cond : Condition} {t : StmtId}
    (hj : c.body.stmts[j]? = some s) (hkind : s.kind = .branch cond t)
    (hplaced : Placed c insns start final s.kind pc front code rest p p')
    (hnext : pc + (front ++ code).length = startOf items (j + 1)) :
    Matched (Machine.step insns) (Related c insns items start final args) (rank c.body) ⟨j, env⟩
      ⟨pc, ⟨[], f⟩⟩ (s.kind.exec c.body args ⟨j, env⟩) := by
  have hs : s.kind.isIdentity = false ∧ t ∈ s.kind.targets := by
    rw [hkind]
    exact ⟨rfl, List.mem_singleton.2 rfl⟩
  obtain ⟨k, s', -, -, hgoto, htarget, hplace⟩ := hc.exists_target hagree hj hs.1 hs.2
  have hint := hc.integral.stmts s (List.mem_of_getElem? hj)
  have hvalue := hagree.agrees hc.toAllocated hj hs.1
  have hcode := hplaced.code
  rw [hkind] at hint hvalue hcode ⊢
  obtain ⟨hlhs, hrhs, hcategory⟩ := hint
  obtain ⟨label, holds, hlabel, hholds, hchoose⟩ :=
    chooses_lowerBranch hc.apart hagree.typed hlhs hrhs hcategory hcode hplaced.behind hvalue
  rw [StmtKind.exec, hholds, Outcome.done_bind]
  have hjump := hchoose.append_left hplaced.front
  -- The code jumps if the condition holds, and control goes on behind it if not.
  cases holds with
  | true =>
    rw [if_pos rfl, hgoto]
    exact hc.matched_jump hplaced.drop hjump (hplace label hlabel) htarget
  | false => exact hc.matched_next hplaced.drop hnext hjump (hagree.pass hc.toAllocated hj hs.1)

/-- A switch is matched by its code, which jumps to the target for the key. -/
theorem matched_switch (hc : Compiled c insns items start final)
    (hagree : Agreement c final args j env f) {key : Operand} {values : List Int32}
    {targets : List StmtId} {default : StmtId} (hj : c.body.stmts[j]? = some s)
    (hkind : s.kind = .switch key values targets default)
    (hplaced : Placed c insns start final s.kind pc front code rest p p') :
    Matched (Machine.step insns) (Related c insns items start final args) (rank c.body) ⟨j, env⟩
      ⟨pc, ⟨[], f⟩⟩ (s.kind.exec c.body args ⟨j, env⟩) := by
  have hs : s.kind.isIdentity = false ∧
      ∀ v, switchTarget values targets default v ∈ s.kind.targets := by
    rw [hkind]
    exact ⟨rfl, fun _ => switchTarget_mem⟩
  have hint := hc.integral.stmts s (List.mem_of_getElem? hj)
  have hvalue := hagree.agrees hc.toAllocated hj hs.1
  have hcode := hplaced.code
  rw [hkind] at hint hvalue hcode ⊢
  obtain ⟨v, label, hv, hlabel, hchoose⟩ :=
    chooses_lowerSwitch hc.apart hagree.typed hint.1 hint.2 hcode hplaced.behind hvalue
  obtain ⟨k, s', -, -, hgoto, htarget, hplace⟩ := hc.exists_target hagree hj hs.1 (hs.2 v)
  rw [StmtKind.exec, hv, Outcome.done_bind]
  dsimp only
  rw [hgoto]
  have hjump := hchoose.append_left hplaced.front
  exact hc.matched_jump hplaced.drop hjump (hplace label hlabel) htarget

/-- A goto is matched by a jump, or without a step by the return in its place. -/
theorem matched_goto (hc : Compiled c insns items start final)
    (hagree : Agreement c final args j env f) {t : StmtId} (hj : c.body.stmts[j]? = some s)
    (hkind : s.kind = .goto t)
    (hplaced : Placed c insns start final s.kind pc front code rest p p') :
    Matched (Machine.step insns) (Related c insns items start final args) (rank c.body) ⟨j, env⟩
      ⟨pc, ⟨[], f⟩⟩ (s.kind.exec c.body args ⟨j, env⟩) := by
  have hs : s.kind.isIdentity = false ∧ s.kind.isReturn = false ∧ t ∈ s.kind.targets := by
    rw [hkind]
    exact ⟨rfl, rfl, List.mem_singleton.2 rfl⟩
  obtain ⟨k, s', hk, hstmt, hgoto, htarget, hplace⟩ := hc.exists_target hagree hj hs.1 hs.2.2
  rw [hkind] at hplaced ⊢
  rw [StmtKind.exec, hgoto]
  obtain ⟨x, hx, ⟨l, hl, rfl, -⟩ | ⟨-, ret, hret, hreturn⟩⟩ := lowerGoto_run_iff.1 hplaced.code
  · have hchoose : Chooses [.jump .goto l] f (some l) :=
      ⟨[], _, [], rfl, by simp, by simp [Insn.targets], rfl, rfl⟩
    exact hc.matched_jump hplaced.drop (hchoose.append_left hplaced.front)
      (hplace l (targetLabel_eq_ok_iff.2 ⟨x, hx, hl⟩)) htarget
  · -- The code is that of the return, so that no instruction is run for the branch itself.
    obtain rfl := Option.some.inj (hstmt.symm.trans hret)
    obtain ⟨hreturns, hrun⟩ : s'.kind.isReturn ∧ lowerStmt c s'.kind p = .ok (code, p') := by
      rcases hreturn with ⟨op, hkind', hrun⟩ | ⟨hkind', hrun⟩ <;> rw [hkind'] <;> exact ⟨rfl, hrun⟩
    refine ⟨0, _, rfl, hc.related ?_ htarget, fun _ => rank_return_lt hj hs.2.1 hk hreturns⟩
    unfold Stands
    rw [hk]
    refine ⟨front, code, rest, p, p', { hplaced with code := hrun }, fun hfall => ?_⟩
    rw [(StmtKind.leaves_of_isReturn hreturns).1] at hfall
    cases hfall

/-- A statement that does nothing is matched by code that changes neither the operand stack nor the
frame. -/
theorem matched_nop (hc : Compiled c insns items start final)
    (hagree : Agreement c final args j env f) (hj : c.body.stmts[j]? = some s)
    (hkind : s.kind = .nop) (hplaced : Placed c insns start final s.kind pc front code rest p p')
    (hnext : pc + (front ++ code).length = startOf items (j + 1)) :
    Matched (Machine.step insns) (Related c insns items start final args) (rank c.body) ⟨j, env⟩
      ⟨pc, ⟨[], f⟩⟩ (s.kind.exec c.body args ⟨j, env⟩) := by
  have hcode := hplaced.code
  rw [hkind] at hcode ⊢
  obtain ⟨rfl, -⟩ := pure_run_iff.1 hcode
  refine hc.matched_straight (z := .done ()) (u := fun _ => env) (g := fun _ => ⟨[], f⟩) hj
    (by rw [hkind]; rfl) hplaced.drop (hplaced.targets_of_straight (by rw [hkind]; rfl)) hnext
    hplaced.exec_eq fun _ _ => ?_
  exact ⟨by rw [hc.held_eq_nil]; rfl, hagree.pass hc.toAllocated hj (by rw [hkind]; rfl)⟩

/-- What a statement comes to is matched by its code. -/
theorem matched (hc : Compiled c insns items start final) (hargs : Fits c.method.params args) :
    Simulates (c.body.step args) (Machine.step insns) (Related c insns items start final args)
      (rank c.body) := by
  rintro ⟨j, env⟩ ⟨pc, ⟨stack, f⟩⟩ ⟨hstands, hstack, hagree⟩
  rw [hc.held_eq_nil] at hstack
  dsimp only at hstands hstack hagree
  obtain rfl : stack = [] := hstack
  unfold Body.step
  dsimp only
  cases hj : c.body.stmts[j]? with
  | none => exact Allocated.matched_end hstands hj
  | some s =>
  rw [Stands, hj] at hstands
  obtain ⟨front, code, rest, p, p', hplaced, hnext⟩ := hstands
  have hint := hc.integral.stmts s (List.mem_of_getElem? hj)
  have hnext : s.kind.fallsThrough → pc + (front ++ code).length = startOf items (j + 1) := hnext
  dsimp only
  obtain ⟨id, line, kind⟩ := s
  cases kind with
  | assign lhs rhs =>
    cases lhs with
    | var l =>
      obtain ⟨hl, hrhs, hcategory⟩ := hint
      have huses := integral_of_mem_uses hrhs
      exact hc.matched_assign hagree hj rfl hplaced (hnext rfl) hl.numeric (hrhs.reachable huses)
        hcategory (by rw [temporaries_eq_nil huses]; rfl)
    | _ => cases hint
  | identity l source =>
    obtain ⟨l, index, t, heq⟩ := hint.eq_of_isIdentity rfl
    exact hc.matched_identity hargs hagree hj heq hplaced (hnext rfl)
  | branch cond t => exact hc.matched_branch hagree hj rfl hplaced (hnext rfl)
  | switch key values targets default => exact hc.matched_switch hagree hj rfl hplaced
  | goto t => exact hc.matched_goto hagree hj rfl hplaced
  | «return» op =>
    exact hc.matched_return hagree hj rfl hplaced hint.1.numeric hint.2
      (by rw [temporaries_eq_nil (integral_of_mem_localsOf hint.1)]; rfl)
  | returnVoid => exact Allocated.matched_returnVoid rfl hplaced
  | nop => exact hc.matched_nop hagree hj rfl hplaced (hnext rfl)
  | _ => cases hint

/-- The code of a method that computes with integers and binds its parameters once. -/
theorem of_lowerMethod {m : Method} {b : Body} {locals : List Local} {stmts : List Stmt}
    {traps : List Trap} {owner : ClassName} {options : Options} {argSlots : Nat}
    {r : LoweredMethod} (hb : Body.ofStmts locals stmts traps = .ok b) (hm : m.body = some b)
    (hstatic : m.isStatic) (hint : b.Integral m) (honce : b.BindsOnce)
    (h : lowerMethod owner m options argSlots = .ok r) :
    ∃ c items start, c.method = m ∧ c.body = b ∧ Compiled c r.code.insns items start r.slots := by
  obtain ⟨c, items, start, rfl, rfl, hc⟩ := Allocated.of_lowerMethod hb hm hstatic
    (fun s hs l hl => (integral_of_mentions (hint.stmts s hs) hl).numeric) hint.parameters h
  exact ⟨c, items, start, rfl, rfl, { hc with integral := hint, once := honce }⟩

end Compiled

/-- A static method that computes with integers keeps its meaning: from local variables that carry
the arguments, its code ends as its statements do, by the same value or by a division by zero. -/
theorem lowerMethod_preserves {m : Method} {b : Body} {locals : List Local} {stmts : List Stmt}
    {traps : List Trap} {owner : ClassName} {options : Options} {argSlots : Nat}
    {r : LoweredMethod} {args : Nat → Value} {f : Frame}
    (hb : Body.ofStmts locals stmts traps = .ok b) (hm : m.body = some b) (hstatic : m.isStatic)
    (hint : b.Integral m) (honce : b.BindsOnce)
    (h : lowerMethod owner m options argSlots = .ok r) (hf : Carries f m.params args) (e : Ending) :
    Halts (b.step args) Ir.State.start e ↔
      Halts (Machine.step r.code.insns) ⟨0, ⟨[], f⟩⟩ e := by
  obtain ⟨c, items, start, rfl, rfl, hc⟩ := Compiled.of_lowerMethod hb hm hstatic hint honce h
  exact (hc.matched hf.category).halts_iff (hc.related_start hf) e

section Sum

/-- The parameter of `sum`. -/
def sumLimit : Local := ⟨"n", .prim .long, .ordinary⟩

/-- The result of `sum`, which starts as zero. -/
def sumTotal : Local := ⟨"total", .prim .long, .ordinary⟩

/-- The statements of `sum`. -/
def sumStmts : List Stmt :=
  [⟨⟨0⟩, none, .identity sumLimit (.parameter 0 (.prim .long))⟩,
    ⟨⟨1⟩, none, .assign (.var sumTotal) (.binary .add (.var sumTotal) (.var sumLimit))⟩,
    ⟨⟨2⟩, none, .assign (.var sumLimit) (.binary .sub (.var sumLimit) (.const (.long 1)))⟩,
    ⟨⟨3⟩, none, .branch ⟨.gt, .var sumLimit, .const (.long 0)⟩ ⟨1⟩⟩,
    ⟨⟨4⟩, none, .return (.var sumTotal)⟩]

/-- The body of `sum`. -/
def sumBody : Body where
  locals := [sumLimit, sumTotal]
  stmts := sumStmts
  flow := ⟨[⟨⟨0⟩, [⟨0⟩], [⟨1⟩], []⟩, ⟨⟨1⟩, [⟨1⟩, ⟨2⟩, ⟨3⟩], [⟨2⟩, ⟨1⟩], []⟩,
    ⟨⟨2⟩, [⟨4⟩], [], []⟩]⟩

/-- A method that adds up the numbers from its argument down to one. -/
def sum : Method :=
  ⟨"sum", [.static], [.prim .long], .prim .long, [], some sumBody, none⟩

/-- The code of `sum`. -/
def sumCode : LoweredMethod where
  code :=
    { insns := [.label ⟨0⟩, .var .lload 2, .var .lload 0, .simple .ladd, .var .lstore 2,
        .var .lload 0, .simple .lconst1, .simple .lsub, .var .lstore 0, .var .lload 0,
        .simple .lconst0, .simple .lcmp, .jump .ifgt ⟨0⟩, .var .lload 2, .simple .lreturn]
      guards := []
      sizes := ⟨4, 4⟩ }
  slots :=
    { bindings := [(sumTotal, .slot 2), (sumLimit, .slot 0)], next := 4, params := [0], first := 2,
      declared := [sumTotal, sumLimit] }
  labels := 1
  traps := 0

/-- The body of `sum` computes with integers. -/
theorem integral_sumBody : sumBody.Integral sum where
  stmts := by
    have hlimit : sumLimit.Integral := ⟨rfl, .inr rfl⟩
    have htotal : sumTotal.Integral := ⟨rfl, .inr rfl⟩
    intro s hs
    simp only [sumBody, sumStmts, List.mem_cons, List.not_mem_nil, or_false] at hs
    rcases hs with rfl | rfl | rfl | rfl | rfl
    · refine ⟨hlimit, fun t ht => ?_⟩
      cases ht
      rfl
    · exact ⟨htotal, ⟨htotal, hlimit, rfl⟩, rfl⟩
    · exact ⟨hlimit, ⟨hlimit, trivial, rfl⟩, rfl⟩
    · exact ⟨hlimit, trivial, rfl⟩
    · exact ⟨htotal, rfl⟩
  first := by decide
  nodup := by decide

/-- `lowerMethod_preserves` at a method with a loop: its code adds up the numbers from three down to
one, as its statements do. -/
theorem sum_preserved :
    lowerMethod ⟨"A"⟩ sum {} 2 = .ok sumCode ∧
      Halts (Machine.step sumCode.code.insns) ⟨0, ⟨[], fun n => if n = 1 then 3 else 0⟩⟩
        (.returned (some (.long 6))) := by
  have hb : Body.ofStmts [sumLimit, sumTotal] sumStmts [] = .ok sumBody := by cbv
  have h : lowerMethod ⟨"A"⟩ sum {} 2 = .ok sumCode := by cbv
  have hf : Carries (fun n => if n = 1 then 3 else 0) sum.params fun _ => .long 3 := by
    refine ⟨?_, ?_, fun n hn => if_neg (Nat.ne_of_gt hn)⟩
    · rintro (_ | index) t ht hint
      · cases ht
        rfl
      · cases ht
    · rintro (_ | index) t ht hint
      · rfl
      · cases ht
  have honce : sumBody.BindsOnce := by decide
  have hstmts : Halts (sumBody.step fun _ => .long 3) Ir.State.start (.returned (some (.long 6))) :=
    ⟨11, rfl⟩
  exact ⟨h, (lowerMethod_preserves hb rfl rfl integral_sumBody honce h hf _).1 hstmts⟩

end Sum

section Retake

/-- The parameter of `retake`. -/
def retakeValue : Local := ⟨"x", .prim .int, .ordinary⟩

/-- The number of rounds of `retake`. -/
def retakeCount : Local := ⟨"y", .prim .int, .ordinary⟩

/-- The statements of `retake`. The branch leads back to where the parameter is bound. -/
def retakeStmts : List Stmt :=
  [⟨⟨0⟩, none, .identity retakeValue (.parameter 0 (.prim .int))⟩,
    ⟨⟨1⟩, none, .assign (.var retakeCount) (.binary .add (.var retakeCount) (.const (.int 1)))⟩,
    ⟨⟨2⟩, none, .assign (.var retakeValue) (.binary .add (.var retakeValue) (.const (.int 1)))⟩,
    ⟨⟨3⟩, none, .branch ⟨.lt, .var retakeCount, .const (.int 2)⟩ ⟨0⟩⟩,
    ⟨⟨4⟩, none, .return (.var retakeValue)⟩]

/-- The body of `retake`. -/
def retakeBody : Body where
  locals := [retakeValue, retakeCount]
  stmts := retakeStmts
  flow := ⟨[⟨⟨0⟩, [⟨0⟩, ⟨1⟩, ⟨2⟩, ⟨3⟩], [⟨1⟩, ⟨0⟩], []⟩, ⟨⟨1⟩, [⟨4⟩], [], []⟩]⟩

/-- A method with two rounds, each of which takes the argument anew and adds one to it. -/
def retake : Method :=
  ⟨"retake", [.static], [.prim .int], .prim .int, [], some retakeBody, none⟩

/-- The code of `retake`. The parameter is bound by its slot, so that taking it anew is no code. -/
def retakeCode : LoweredMethod where
  code :=
    { insns := [.label ⟨0⟩, .var .iload 1, .simple .iconst1, .simple .iadd, .var .istore 1,
        .var .iload 0, .simple .iconst1, .simple .iadd, .var .istore 0, .var .iload 1,
        .simple .iconst2, .jump .ifIcmplt ⟨0⟩, .var .iload 0, .simple .ireturn]
      guards := []
      sizes := ⟨2, 2⟩ }
  slots :=
    { bindings := [(retakeCount, .slot 1), (retakeValue, .slot 0)], next := 2, params := [0],
      first := 1, declared := [retakeCount, retakeValue] }
  labels := 1
  traps := 0

/-- The body of `retake` computes with integers. -/
theorem integral_retakeBody : retakeBody.Integral retake where
  stmts := by
    have hvalue : retakeValue.Integral := ⟨rfl, .inl rfl⟩
    have hcount : retakeCount.Integral := ⟨rfl, .inl rfl⟩
    intro s hs
    simp only [retakeBody, retakeStmts, List.mem_cons, List.not_mem_nil, or_false] at hs
    rcases hs with rfl | rfl | rfl | rfl | rfl
    · refine ⟨hvalue, fun t ht => ?_⟩
      cases ht
      rfl
    · exact ⟨hcount, ⟨hcount, trivial, rfl⟩, rfl⟩
    · exact ⟨hvalue, ⟨hvalue, trivial, rfl⟩, rfl⟩
    · exact ⟨hcount, trivial, rfl⟩
    · exact ⟨hvalue, rfl⟩
  first := by decide
  nodup := by decide

/-- A method with a branch back to where a parameter is bound may lose its meaning: the statements
of `retake` take zero anew and return one, but its code returns two. -/
theorem not_preserved_of_retaking :
    ¬∀ (m : Method) (b : Body) (locals : List Local) (stmts : List Stmt) (traps : List Trap)
      (owner : ClassName) (options : Options) (argSlots : Nat) (r : LoweredMethod)
      (args : Nat → Value) (f : Frame),
      Body.ofStmts locals stmts traps = .ok b → m.body = some b → m.isStatic → b.Integral m →
        lowerMethod owner m options argSlots = .ok r → Carries f m.params args →
          ∀ e : Ending, Halts (b.step args) Ir.State.start e ↔
            Halts (Machine.step r.code.insns) ⟨0, ⟨[], f⟩⟩ e := by
  intro hall
  have hb : Body.ofStmts [retakeValue, retakeCount] retakeStmts [] = .ok retakeBody := by cbv
  have h : lowerMethod ⟨"A"⟩ retake {} 1 = .ok retakeCode := by cbv
  have hf : Carries (fun _ => 0) retake.params fun _ => .int 0 := by
    refine ⟨?_, ?_, fun _ _ => rfl⟩
    · rintro (_ | index) t ht hint
      · cases ht
        rfl
      · cases ht
    · rintro (_ | index) t ht hint
      · rfl
      · cases ht
  have hstmts : Halts (retakeBody.step fun _ => .int 0) Ir.State.start
      (.returned (some (.int 1))) := ⟨9, rfl⟩
  have hcode : Halts (Machine.step retakeCode.code.insns) ⟨0, ⟨[], fun _ => 0⟩⟩
      (.returned (some (.int 2))) := ⟨26, rfl⟩
  have hsame := (hall _ _ _ _ _ _ _ _ _ _ _ hb rfl rfl integral_retakeBody h hf _).1 hstmts
  exact absurd (hcode.unique hsame) (by decide)

end Retake

end BytecodeLowering.Lowering
