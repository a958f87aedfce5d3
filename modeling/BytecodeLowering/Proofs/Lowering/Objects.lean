import BytecodeLowering.Proofs.Lowering.Construction
import BytecodeLowering.Proofs.Lowering.Control
import BytecodeLowering.Proofs.Lowering.Depth
import Mathlib

/-!
# Objects and their constructors

What straight methods do with the objects that they make, if they call the constructors in nested
order.

* `sequential_of_items`: the code of straight statements.
* `Trace`, `exists_trace`: the snapshots between the statements of such code.
* `Shapes.exists_shaped`, `Shapes.exists_pair`: the code of one statement, and that of the statement
  that opens a construction together with the one that closes it.
* `Settles`, `Paired`: every constructor call gets the object that it belongs to.
* `paired_of_lowerMethod`: accepted methods run so.
* `not_paired_of_misfit`: they do not if constructors are called with other arguments than they
  take, or are said to have a result.
-/

namespace BytecodeLowering.Lowering

open Ir Machine

variable {m : Method} {c : MethodContext} {p p' : Progress} {code : List Insn}

section Straight

/-- Control goes on behind each instruction of a statement that ends no block. -/
theorem flows_of_lowerStmt {k : StmtKind} (hk : k.endsBlock = false)
    (h : lowerStmt c k p = .ok (code, p')) : ∀ i ∈ code, i.targets = [] ∧ i.endsFlow = false := by
  intro i hi
  have hplain := (straight_of_lowerStmt (P := fun _ => True) hk (by simp) (by simp) h).plain i hi
  exact ⟨Insn.targets_of_isPlain hplain, Insn.endsFlow_of_isPlain hplain⟩

/-- The code of a statement without targets is left with its last instruction only. -/
theorem sequential_of_lowerStmt {k : StmtKind} (hk : k.targets = [])
    (h : lowerStmt c k p = .ok (code, p')) : Sequential code := by
  cases hends : k.endsBlock with
  | false => exact .of_flows (flows_of_lowerStmt hends h)
  | true =>
    have hswitch : ∀ key values targets default, k = .switch key values targets default →
        values.length = targets.length := by
      rintro _ _ _ _ rfl
      simp [StmtKind.targets] at hk
    rcases ends_of_lowerStmt (P := fun _ => True) hends (by simp) hswitch h with
      ⟨front, last, rfl, hfront, hlast⟩ | ⟨t, _, _, rfl, -⟩
    · refine .append (fun i hi => ?_) ⟨List.forall_mem_singleton.2 ?_, List.forall_mem_nil _⟩
      · have hplain := hfront.plain i hi
        exact ⟨Insn.targets_of_isPlain hplain, Insn.endsFlow_of_isPlain hplain⟩
      · refine List.eq_nil_iff_forall_not_mem.2 fun l hl => ?_
        obtain ⟨t, ht, -⟩ := (hlast.targets l).1 hl
        rw [hk] at ht
        cases ht
    · cases hk

/-- The code of straight statements is left with its last instruction only. -/
theorem sequential_of_items {stmts : List Stmt} {items : List (List Insn)}
    (h : Items c p stmts items p') (hstmts : Unbranched stmts) : Sequential items.flatten := by
  induction h with
  | nil => exact .of_flows (List.forall_mem_nil _)
  | @cons _ _ _ s stmts front code _ hfront hcode hrest ih =>
    have hmarks : ∀ i ∈ front, i.targets = [] ∧ i.endsFlow = false := fun i hi =>
      ⟨Insn.targets_of_isMark (hfront i hi), Insn.endsFlow_of_isMark (hfront i hi)⟩
    rw [List.flatten_cons, List.append_assoc]
    refine .append hmarks ?_
    cases stmts with
    | nil =>
      cases hrest
      rw [List.flatten_nil, List.append_nil]
      exact sequential_of_lowerStmt (hstmts.targets s List.mem_cons_self) hcode
    | cons s' rest =>
      refine .append (flows_of_lowerStmt (hstmts.inner s (by simp)) hcode) (ih ?_)
      refine ⟨fun t ht => hstmts.targets t (List.mem_cons_of_mem s ht), fun t ht => ?_⟩
      exact hstmts.inner t (List.mem_cons_of_mem s ht)

/-- Behind all blocks stands a label at most. -/
theorem isMark_of_mem_stop {layout : Layout} {i : Insn}
    (h : i ∈ (layout.labels.stop.map Insn.label).toList) : i.isMark := by
  obtain ⟨l, -, rfl⟩ := Emission.mem_stop_iff.1 h
  rfl

end Straight

section Trace

variable {α : Type} {f : Leavings α} {items : List (List Insn)} {st : Nat → Snapshot α}

/-- Snapshots in front of parts of the code and behind the last one, each of which is run. -/
def Trace (f : Leavings α) (items : List (List Insn)) (st : Nat → Snapshot α) : Prop :=
  ∀ j code, items[j]? = some code → (st j).run f code = some (st (j + 1))

/-- Code that finds enough on the operand stack has a trace. -/
theorem exists_trace {s : Snapshot α} {d : Nat} (hcode : Sequential items.flatten)
    (hd : depthAfter s.stack.length items.flatten = some d) :
    ∃ st, st 0 = s ∧ Trace f items st := by
  induction items generalizing s with
  | nil => exact ⟨fun _ => s, rfl, nofun⟩
  | cons code items ih =>
    rw [List.flatten_cons] at hcode
    rw [List.flatten_cons, depthAfter_append] at hd
    obtain ⟨e, hhere, hrest⟩ := Option.bind_eq_some_iff.1 hd
    obtain ⟨s', top, hrun, hstack, rfl⟩ :=
      Snapshot.exists_run (f := f) hcode.left hhere (Nat.le_refl _)
    rw [List.drop_length, List.append_nil] at hstack
    rw [← hstack] at hrest
    obtain ⟨st, hst, htrace⟩ := ih hcode.right hrest
    refine ⟨fun j => j.casesOn s st, rfl, fun j code' hj => ?_⟩
    cases j with
    | zero =>
      cases hj
      exact hrun.trans (congrArg some hst.symm)
    | succ j => exact htrace j code' hj

/-- A stretch of the parts is run from the snapshot in front of it to the one behind it. -/
theorem Trace.run {front back : List (List Insn)} (h : Trace f (front ++ (items ++ back)) st)
    (hcode : Sequential items.flatten) :
    (st front.length).run f items.flatten = some (st (front.length + items.length)) := by
  induction items generalizing front with
  | nil => rfl
  | cons code items ih =>
    have hhere : (st front.length).run f code = some (st (front.length + 1)) :=
      h front.length code (by simp)
    rw [List.flatten_cons] at hcode ⊢
    rw [Snapshot.run_append hcode, hhere, Option.bind_some]
    have hsplit : Trace f ((front ++ [code]) ++ (items ++ back)) st := by simpa using h
    simpa [Nat.add_assoc, Nat.add_comm 1] using ih hsplit hcode.right

/-- Objects are only ever added. -/
theorem Trace.made_le (h : Trace f items st) {i j : Nat} (hij : i ≤ j) (hj : j ≤ items.length) :
    (st i).made ≤ (st j).made := by
  induction j, hij using Nat.le_induction with
  | base => exact Nat.le_refl _
  | succ j _ ih =>
    refine (ih (Nat.le_of_succ_le hj)).trans (Snapshot.made_le_of_run (h j items[j] ?_))
    exact List.getElem?_eq_getElem hj

end Trace

section Shapes

variable {slots : Slots} {k : StmtKind} {opened opened' rest between : List Construction}
  {stmts stmts' : List Stmt} {items : List (List Insn)}

/-- The code of one of nested statements. -/
theorem Shapes.exists_shaped (h : Shapes m slots opened stmts items opened') {j : Nat} {s : Stmt}
    (hj : stmts[j]? = some s) :
    ∃ front code before behind, items[j]? = some (front ++ code) ∧ (∀ i ∈ front, i.isMark) ∧
      Shaped m before s.kind slots code behind := by
  induction h generalizing j with
  | nil => simp at hj
  | cons hfront hshaped _ ih =>
    cases j with
    | zero =>
      cases hj
      exact ⟨_, _, _, _, rfl, hfront, hshaped⟩
    | succ j => exact ih hj

/-- The code of two lists of nested statements is that of the first, then that of the second. -/
theorem Shapes.exists_split (h : Shapes m slots opened (stmts ++ stmts') items opened') :
    ∃ front back between, items = front ++ back ∧ front.length = stmts.length ∧
      Shapes m slots opened stmts front between ∧ Shapes m slots between stmts' back opened' := by
  induction stmts generalizing opened items with
  | nil => exact ⟨[], items, opened, rfl, rfl, .nil, h⟩
  | cons s stmts ih =>
    cases h with
    | cons hfront hshaped hrest =>
      obtain ⟨front, back, between, rfl, hlength, hshapes, hback⟩ := ih hrest
      exact ⟨_ :: front, back, between, rfl, by simp [hlength], .cons hfront hshaped hshapes, hback⟩

/-- A statement that closes nothing below has the same code whatever is open there. -/
theorem Shaped.above (h : Shaped m (opened ++ rest) k slots code between)
    (hnest : k.nest m opened = some opened') :
    Shaped m opened k slots code opened' ∧ between = opened' ++ rest := by
  rcases StmtKind.nest_eq_some_iff.1 hnest with ⟨con, hopens, rfl⟩ | ⟨con, hcloses, rfl⟩ |
    ⟨hapart, rfl⟩
  · obtain ⟨rfl, hcode⟩ := h.of_opens hopens
    refine ⟨?_, rfl⟩
    cases con with
    | object l =>
      obtain ⟨n, rfl⟩ := hcode
      exact .object hopens
    | receiver l =>
      obtain rfl := hcode
      exact .receiver hopens
  · obtain ⟨con', _, _, _, _, heq, -, hcompletion, rfl⟩ := h.of_closes hcloses
    obtain ⟨rfl, rfl⟩ := List.cons.inj heq
    exact ⟨.completion hcloses hcompletion, rfl⟩
  · obtain ⟨rfl, hturns, hquiet⟩ := h.of_isApart hapart
    exact ⟨.apart hapart hturns hquiet, rfl⟩

/-- So do statements that close nothing below. -/
theorem Shapes.above (h : Shapes m slots (opened ++ rest) stmts items between)
    (hnest : Nests m opened stmts opened') :
    Shapes m slots opened stmts items opened' ∧ between = opened' ++ rest := by
  induction stmts generalizing opened items with
  | nil =>
    cases h
    obtain rfl := Nests.nil_iff.1 hnest
    exact ⟨.nil, rfl⟩
  | cons s stmts ih =>
    obtain ⟨mid, hs, hstmts⟩ := Nests.cons_iff.1 hnest
    cases h with
    | cons hfront hshaped hrest =>
      obtain ⟨hhere, rfl⟩ := hshaped.above hs
      obtain ⟨hshapes, rfl⟩ := ih hrest hstmts
      exact ⟨.cons hfront hhere hshapes, rfl⟩

end Shapes

section Pairs

variable {α : Type} {f : Leavings α} {slots : Slots} {k : StmtKind} {con : Construction}
  {opened opened' : List Construction} {stmts : List Stmt} {items : List (List Insn)}
  {st : Nat → Snapshot α} {s : Snapshot α}

/-- What a construction is about, if it is opened in a snapshot: the object that is made then, or
the receiver, which is in variable 0. -/
def reference (s : Snapshot α) : Construction → Cell α
  | .object _ => .object s.made
  | .receiver _ => s.vars 0

/-- What an open construction keeps on the operand stack. -/
def held (s : Snapshot α) (con : Construction) : List (Cell α) :=
  if con.isReceiver then [reference s con] else [reference s con, reference s con]

/-- The object of an open construction is on top of what the construction keeps there. -/
theorem exists_held (s : Snapshot α) (con : Construction) :
    ∃ below, held s con = reference s con :: below := by
  unfold held
  split <;> exact ⟨_, rfl⟩

/-- The code that opens a construction puts its object on the operand stack. -/
theorem Shaped.run_opening (h : Shaped m opened k slots code opened')
    (hopens : k.opens? m = some con) : opened' = con :: opened ∧
      ∃ s', s.run f code = some s' ∧ s'.stack = held s con ++ s.stack ∧
        s'.completed = s.completed ∧ s'.made = s.made + if con.isReceiver then 0 else 1 := by
  obtain ⟨rfl, hcode⟩ := h.of_opens hopens
  refine ⟨rfl, ?_⟩
  cases con with
  | object l =>
    obtain ⟨n, rfl⟩ := hcode
    exact ⟨_, run_object n, rfl, rfl, rfl⟩
  | receiver l =>
    obtain rfl := hcode
    exact ⟨_, run_receiver, rfl, rfl, rfl⟩

/-- A statement that allocates leaves a new object on the operand stack twice. -/
theorem Shapes.makes {back : List (List Insn)} (h : Shapes m slots opened stmts items opened')
    (htrace : Trace f (items ++ back) st) {i : Nat} {x : Stmt} {l : Local}
    (hi : stmts[i]? = some x) (hopens : x.kind.opens? m = some (.object l)) :
    (st (i + 1)).stack = .object (st i).made :: .object (st i).made :: (st i).stack ∧
      (st (i + 1)).made = (st i).made + 1 := by
  obtain ⟨front, code, _, _, hitem, hfront, hshaped⟩ := h.exists_shaped hi
  obtain ⟨-, s', hrun, hstack, -, hmade⟩ := hshaped.run_opening (s := st i) (f := f) hopens
  have hlt := (List.getElem?_eq_some_iff.1 hitem).1
  have hstep := htrace i _ ((List.getElem?_append_left hlt).trans hitem)
  rw [Snapshot.run_isMark_append hfront] at hstep
  obtain rfl := Option.some.inj (hrun.symm.trans hstep)
  exact ⟨hstack, hmade⟩

/-- The code that closes a construction, where the operand stack has what was left on it when the
construction was opened. -/
theorem Shaped.run_closing (h : Shaped m (con :: opened) k slots code opened')
    (hcloses : k.closes? = some con.base) (hcode : Sequential code)
    (hwidth : ∀ l, con = .object l → l.ty.width = 1) {s₀ : Snapshot α} {rest : List (Cell α)}
    (hs : s.stack = held s₀ con ++ rest) :
    ∃ s', s.run f code = some s' ∧ s'.stack = rest ∧
      s'.completed = reference s₀ con :: s.completed ∧ ∀ l, con = .object l →
        ∃ n, slots.binding? l = some (.slot n) ∧ s'.vars n = .object s₀.made := by
  obtain ⟨con', _, _, _, _, heq, -, hcompletion, rfl⟩ := h.of_closes hcloses
  obtain ⟨rfl, rfl⟩ := List.cons.inj heq
  cases con with
  | receiver l =>
    obtain ⟨s', hrun, hstack, hcompleted⟩ := hcompletion.exists_run_receiver (f := f) hcode hs
    exact ⟨s', hrun, hstack, hcompleted, nofun⟩
  | object l =>
    obtain ⟨s', n, hrun, hstack, hcompleted, hslot, hvars⟩ :=
      hcompletion.exists_run_object (f := f) hcode (hwidth l rfl) hs
    refine ⟨s', hrun, hstack, hcompleted, ?_⟩
    rintro _ ⟨⟩
    exact ⟨n, hslot, hvars⟩

/-- Code that closes no construction calls no constructor. -/
theorem Shaped.completed_eq (h : Shaped m opened k slots code opened') (hcloses : k.closes? = none)
    {s' : Snapshot α} (hrun : s.run f code = some s') : s'.completed = s.completed := by
  refine Snapshot.completed_of_run ?_ hrun
  cases h with
  | object | receiver => simp [Insn.isInit]
  | completion hcloses' =>
    rw [hcloses] at hcloses'
    cases hcloses'
  | apart _ _ hquiet => exact hquiet

/-- Behind statements that close all that they open, the operand stack still has what the
construction opened in front of them keeps there. -/
theorem Shapes.stack_eq_held {front between : List Stmt} {x : Stmt} {back : List (List Insn)}
    (h : Shapes m slots [] (front ++ x :: between) items opened')
    (htrace : Trace f (items ++ back) st) (hcode : Sequential items.flatten)
    (hwidth : ∀ s ∈ between, ∀ l, s.kind.opens? m = some (.object l) → l.ty.width = 1)
    (hopens : x.kind.opens? m = some con) (hbetween : Nests m [] between []) :
    (∃ opened, opened' = con :: opened) ∧
      (st items.length).stack = held (st front.length) con ++ (st front.length).stack := by
  obtain ⟨before, rest, opened, rfl, hlength, -, hrest⟩ := h.exists_split
  rcases hrest with _ | @⟨_, _, _, _, _, marks, opening, inner, hmarks, hopening, hinner⟩
  simp only [List.flatten_append, List.flatten_cons, List.append_assoc] at hcode
  have hcode := hcode.right.right.right
  -- The statement that opens the construction leaves the object on the stack.
  have hx := htrace before.length (marks ++ opening) (by simp)
  rw [Snapshot.run_isMark_append hmarks] at hx
  obtain ⟨rfl, s₁, hrun₁, hstack₁, -, -⟩ :=
    hopening.run_opening (s := st before.length) (f := f) hopens
  obtain rfl := Option.some.inj (hx.symm.trans hrun₁)
  -- Those behind it leave the stack as it is.
  obtain ⟨hinside, rfl⟩ :=
    (show Shapes m slots ([] ++ con :: opened) between inner opened' from hinner).above hbetween
  obtain ⟨s₂, hrun₂, hstack₂⟩ := hinside.exists_run (f := f) (s := st (before.length + 1)) hcode
    (fun l hl => absurd hl List.not_mem_nil) hwidth .nil
  have hsplit : Trace f ((before ++ [marks ++ opening]) ++ (inner ++ back)) st := by
    simpa using htrace
  have hrun := hsplit.run hcode
  rw [List.length_append, List.length_singleton] at hrun
  obtain rfl := Option.some.inj (hrun.symm.trans hrun₂)
  refine ⟨⟨opened, rfl⟩, ?_⟩
  rw [← hlength, ← hstack₁, List.length_append, List.length_cons, Nat.add_comm inner.length,
    ← Nat.add_assoc]
  generalize (st (before.length + 1 + inner.length)).stack = stack at hstack₂
  cases hstack₂
  rfl

/-- A constructor is called for what the construction is about: `s` is the snapshot in which the
construction is opened, `s'` that in which the constructor is called, and `s''` the one behind. -/
structure Settles (slots : Slots) (con : Construction) (s s' s'' : Snapshot α) : Prop where
  /-- The constructor is called on the object. -/
  completed : s''.completed = reference s con :: s'.completed
  /-- The operand stack is what it was. -/
  stack : s''.stack = s.stack
  /-- The object is in the slot of its local. -/
  holds : ∀ l, con = .object l →
    ∃ n, slots.binding? l = some (.slot n) ∧ s''.vars n = .object s.made

/-- The constructor call of a pair gets the object that the pair is about. -/
theorem Shapes.settles (h : Shapes m slots [] stmts items opened') (htrace : Trace f items st)
    (hcode : Sequential items.flatten)
    (hwidth : ∀ s ∈ stmts, ∀ l, s.kind.opens? m = some (.object l) → l.ty.width = 1) {i j : Nat}
    (hpair : Pairs m stmts i j con) : Settles slots con (st i) (st j) (st (j + 1)) := by
  obtain ⟨front, x, between, y, back, rfl, rfl, rfl, hopens, hcloses, hbetween⟩ := hpair
  rw [← List.cons_append, ← List.append_assoc] at h
  obtain ⟨before, rest, mid, rfl, hlength, hbefore, hrest⟩ := h.exists_split
  rcases hrest with _ | @⟨_, _, _, _, _, marks, closing, rest, hmarks, hclosing, -⟩
  rw [List.flatten_append, List.flatten_cons, List.append_assoc] at hcode
  obtain ⟨⟨opened, rfl⟩, hstack⟩ := hbefore.stack_eq_held htrace hcode.left
    (fun s hs => hwidth s (by simp [hs])) hopens hbetween
  -- The constructor call finds the object.
  have hy := htrace before.length (marks ++ closing) (by simp)
  rw [Snapshot.run_isMark_append hmarks] at hy
  obtain ⟨s', hrun, hstack', hcompleted, hholds⟩ := hclosing.run_closing (f := f) hcloses
    hcode.right.right.left (fun l hl => hwidth x (by simp) l (hl ▸ hopens)) hstack
  obtain rfl := Option.some.inj (hy.symm.trans hrun)
  have hj : front.length + 1 + between.length = before.length := by
    rw [hlength, List.length_append, List.length_cons]
    omega
  rw [hj]
  exact ⟨hcompleted, hstack', hholds⟩

end Pairs

section Methods

variable {α : Type} {f : Leavings α} {b : Body} {slots : Slots} {stmts : List Stmt}
  {items : List (List Insn)} {st : Nat → Snapshot α}

/-- Every constructor call gets the object that it belongs to: `st j` is the snapshot in front of
the statement at place `j`, and `slots` has the places of the locals. -/
structure Paired (m : Method) (stmts : List Stmt) (slots : Slots) (st : Nat → Snapshot α) :
    Prop where
  /-- An allocation leaves a new object on the operand stack twice. -/
  makes : ∀ i s l, stmts[i]? = some s → s.kind.opens? m = some (.object l) →
    (st (i + 1)).stack = .object (st i).made :: .object (st i).made :: (st i).stack ∧
      (st (i + 1)).made = (st i).made + 1
  /-- Objects are only ever added, so that an allocation makes none that there was before. -/
  grows : ∀ i j, i ≤ j → j ≤ stmts.length → (st i).made ≤ (st j).made
  /-- Every constructor call belongs to a construction that is opened. -/
  calls : ∀ j s l, stmts[j]? = some s → s.kind.closes? = some l →
    ∃ i con, Pairs m stmts i j con ∧ con.base = l
  /-- The constructor is called on the object of that construction. -/
  settles : ∀ i j con, Pairs m stmts i j con → Settles slots con (st i) (st j) (st (j + 1))
  /-- The receiver is what was in variable 0 at the start. -/
  receiver : ∀ i j l, Pairs m stmts i j (.receiver l) →
    reference (st i) (.receiver l) = (st 0).vars 0
  /-- No other statement calls a constructor. -/
  others : ∀ j s, stmts[j]? = some s → s.kind.closes? = none →
    (st (j + 1)).completed = (st j).completed

/-- The code of nested statements runs so if new objects go to locals of one slot. -/
theorem paired_of_shapes (h : Shapes m slots [] stmts items []) (hnest : WellNested m stmts)
    (hcode : Sequential items.flatten)
    (hwidth : ∀ s ∈ stmts, ∀ l, s.kind.opens? m = some (.object l) → l.ty.width = 1)
    (hlength : items.length = stmts.length) (htrace : Trace f items st) :
    Paired m stmts slots st where
  makes := by
    rw [← List.append_nil items] at htrace
    exact fun i s l hi hopens => h.makes htrace hi hopens
  grows i j hij hj := htrace.made_le hij (hlength ▸ hj)
  calls j s l hj hl := hnest.nests.exists_pairs hj hl
  settles i j con hpair := h.settles htrace hcode hwidth hpair
  receiver := by
    rintro _ _ l ⟨front, s, between, s', back, rfl, rfl, -, hopens, -, -⟩
    cases front with
    | nil => rfl
    | cons x front =>
      -- Only the first statement takes the receiver.
      have hlead := hnest.leading s (by simp) _ hopens
      cases hlead
  others := by
    intro j s hj hcloses
    obtain ⟨front, code, _, _, hitem, hfront, hshaped⟩ := h.exists_shaped hj
    have hstep := htrace j _ hitem
    rw [Snapshot.run_isMark_append hfront] at hstep
    exact hshaped.completed_eq hcloses hstep

/-- The local that takes the receiver at the start of a constructor stands for it. -/
theorem completes_of_ofMethod {start : Slots} {s : Stmt} {l : Local}
    (hb : b.stmts = s :: stmts) (hs : s.kind.opens? m = some (.receiver l))
    (h : Slots.ofMethod m b = .ok start) : completes start l .receiver := by
  rcases opens?_eq_some hs with ⟨_, _, _, heq⟩ | ⟨_, hkind, hcond, heq⟩
  · cases heq
  cases heq
  rw [Bool.or_eq_false_iff] at hcond
  obtain ⟨⟨params, behind⟩, -, h⟩ := bind_eq_ok_iff.1 h
  dsimp only at h
  rw [hb, List.foldlM_cons] at h
  obtain ⟨first, hfirst, h⟩ := bind_eq_ok_iff.1 h
  -- The identity statement comes first, and binds its local to the slot of the receiver.
  have hbinding : first.binding? l = some (.slot 0) := by
    obtain ⟨id, line, kind⟩ := s
    subst hkind
    simp only [Slots.seed, hcond.1, Slots.home?] at hfirst
    rw [Slots.binding?_bind hfirst, if_pos rfl]
  -- Later identity statements bind other locals.
  have hstart : start.binding? l = some (.slot 0) := by
    refine foldlM_induct (P := fun slots => slots.binding? l = some (.slot 0)) h hbinding ?_
    intro x _ slots slots' hslots hseed
    rcases Slots.seed_ok hseed with rfl | ⟨l', _, n, -, hnone, -, hbind⟩
    · exact hslots
    · rw [Slots.binding?_bind hbind, if_neg, hslots]
      rintro rfl
      rw [hnone] at hslots
      cases hslots
  simp [completes, hstart]

/-- So does that of the first of some statements, if no other one takes the receiver. -/
theorem completes_of_leading {start : Slots} {back : List Stmt} (hb : b.stmts = stmts ++ back)
    (hlead : ∀ s ∈ stmts.tail, ∀ c ∈ s.kind.opens? m, c.isReceiver = false)
    (h : Slots.ofMethod m b = .ok start) : ∀ s ∈ stmts, ∀ l,
      s.kind.opens? m = some (.receiver l) → completes start l .receiver := by
  intro s hs l hopens
  cases stmts with
  | nil => cases hs
  | cons x rest =>
    rcases List.mem_cons.1 hs with rfl | hs
    · exact completes_of_ofMethod hb hopens h
    · have hnot := hlead s hs _ hopens
      cases hnot

/-- A run of the code of a method in which every constructor call gets the object that it belongs
to. The operand stack is empty behind the statements, and no object waits for its constructor. -/
def RunsPaired (m : Method) (b : Body) (lines : Bool) (r : LoweredMethod) (f : Leavings α)
    (entry : Snapshot α) : Prop :=
  ∃ layout start items tail st, Layout.ofBody b lines = .ok layout ∧
    Slots.ofMethod m b = .ok start ∧
    Items ⟨m, b, layout, layout.labels⟩ ⟨start, []⟩ b.stmts items ⟨r.slots, []⟩ ∧
    r.code.insns = items.flatten ++ tail ∧ (∀ i ∈ tail, i.isMark) ∧
    st 0 = entry ∧ Trace f items st ∧ Paired m b.stmts r.slots st ∧
    entry.run f r.code.insns = some (st b.stmts.length) ∧ (st b.stmts.length).stack = []

/-- In an accepted method without branches whose constructions are nested, every constructor call
gets the object that it belongs to. -/
theorem paired_of_lowerMethod {locals : List Local} {traps : List Trap} {owner : ClassName}
    {options : Options} {argSlots : Nat} {r : LoweredMethod}
    (hb : Body.ofStmts locals stmts traps = .ok b) (hm : m.body = some b)
    (hstraight : Unbranched b.stmts) (hnest : WellNested m b.stmts)
    (hbehaved : ∀ s ∈ b.stmts, Behaved m b s.kind)
    (h : lowerMethod owner m options argSlots = .ok r) (f : Leavings α) {entry : Snapshot α}
    (hentry : entry.stack = []) : RunsPaired m b options.lineNumbers r f entry := by
  obtain ⟨layout, codes, start, pending, hstart, he, -, hinsns, -⟩ :=
    Emission.of_lowerMethod hb hm h
  obtain ⟨_, _, -, -, -, -, hsizes⟩ := lowerMethod_eq_ok hm h
  obtain ⟨items, hitems, hflatten, -⟩ := he.exists_items
  have htail : ∀ i ∈ (layout.labels.stop.map Insn.label).toList, i.isMark :=
    fun i hi => isMark_of_mem_stop hi
  rw [← hflatten] at hinsns
  have hcode := sequential_of_items hitems hstraight
  -- The code was measured, so there is always enough on the operand stack.
  obtain ⟨d, hd⟩ := hcode.exists_depthAfter (hinsns ▸ flawless_of_maxSizes hsizes)
  have hreceiver := completes_of_leading (List.append_nil _).symm hnest.leading hstart
  obtain ⟨hshapes, hend⟩ := shapes_of_items hitems hnest.nests hbehaved
    (fun s hs _ _ _ hrun => he.touches_of_lowerStmt (fun s hs => (hbehaved s hs).slotted) hs hrun)
    hreceiver ⟨rfl, (ready_of_ofMethod hstart).notStack, nofun⟩
  obtain rfl : pending = [] := hend.pending
  have hwidth := ((hshapes.narrow hd).2 rfl).2
  have hlength := hitems.length_eq
  rw [← List.length_nil, ← hentry] at hd
  obtain ⟨st, hst, htrace⟩ := exists_trace (f := f) hcode hd
  obtain ⟨s', hrun, hstack⟩ := hshapes.exists_run (f := f) (s := entry) hcode nofun hwidth .nil
  have hall : (st 0).run f items.flatten = some (st b.stmts.length) := by
    have hsplit : Trace f ([] ++ (items ++ [])) st := by simpa using htrace
    simpa [hlength] using hsplit.run hcode
  rw [hst, hrun] at hall
  obtain rfl := Option.some.inj hall
  refine ⟨layout, start, items, _, st, he.ofBody, hstart, hitems, hinsns, htail, hst, htrace,
    paired_of_shapes hshapes hnest hcode hwidth hlength htrace, ?_, ?_⟩
  · rw [hinsns, Snapshot.run_append_of_isMark htail, hrun]
  · generalize (st b.stmts.length).stack = stack at hstack
    cases hstack
    exact hentry

end Methods

section Wrap

/-- The receiver of `wrap`. -/
def wrapThis : Local := ⟨"this", .object ⟨"Wrap"⟩, .ordinary⟩

/-- The object that `wrap` makes for the constructor of its superclass. -/
def wrapItem : Local := ⟨"item", .object ⟨"Item"⟩, .ordinary⟩

/-- The constructor of a class with parameters of the given types. -/
def initOf (owner : String) (params : List Ty) : MethodSignature :=
  ⟨⟨owner⟩, "<init>", params, .void⟩

/-- The statements of `wrap`. The construction of the object is nested in that of the receiver. -/
def wrapStmts : List Stmt :=
  [⟨⟨0⟩, none, .identity wrapThis .this⟩,
    ⟨⟨1⟩, none, .assign (.var wrapItem) (.new ⟨"Item"⟩)⟩,
    ⟨⟨2⟩, none, .invoke (.special wrapItem (initOf "Item" []) [])⟩,
    ⟨⟨3⟩, none, .invoke (.special wrapThis (initOf "Base" [wrapItem.ty]) [.var wrapItem])⟩,
    ⟨⟨4⟩, none, .returnVoid⟩]

/-- The body of `wrap`. -/
def wrapBody : Body where
  locals := []
  stmts := wrapStmts
  flow := ⟨[⟨⟨0⟩, [⟨0⟩, ⟨1⟩, ⟨2⟩, ⟨3⟩, ⟨4⟩], [], []⟩]⟩

/-- A constructor that makes an object for the constructor of its superclass. -/
def wrap : Method :=
  ⟨"<init>", [], [], .void, [], some wrapBody, none⟩

/-- The places of the locals of `wrap` at its start. -/
def wrapStart : Slots where
  bindings := [(wrapThis, .slot 0)]
  next := 1
  first := 1
  declared := [wrapItem, wrapThis]

/-- The code of `wrap`. -/
def wrapCode : LoweredMethod where
  code :=
    { insns := [.var .aload 0, .type .new "Item", .simple .dup,
        .method .invokespecial "Item" "<init>" "()V" false, .var .astore 1, .var .aload 1,
        .method .invokespecial "Base" "<init>" "(LItem;)V" false, .simple .return]
      guards := []
      sizes := ⟨3, 2⟩ }
  slots := { wrapStart with bindings := [(wrapItem, .slot 1), (wrapThis, .slot 0)], next := 2 }
  labels := 0
  traps := 0

/-- The code of `wrap` is that of its statements. -/
theorem lowerMethod_wrap : lowerMethod ⟨"Wrap"⟩ wrap {} 1 = .ok wrapCode := by
  have hb : Body.ofStmts [] wrapStmts [] = .ok wrapBody := by cbv
  have hlayout : Layout.ofBody wrapBody ({} : Options).lineNumbers =
      .ok ⟨[⟨0⟩], [], [], [], [], []⟩ := by cbv
  have hstart : Slots.ofMethod wrap wrapBody = .ok wrapStart := by cbv
  have hrun : Lowers (fun s : Stmt => lowerStmt ⟨wrap, wrapBody, ⟨[⟨0⟩], [], [], [], [], []⟩,
      ⟨[], none⟩⟩ s.kind) ⟨wrapStart, []⟩ wrapStmts
      [[.var .aload 0], [.type .new "Item", .simple .dup],
        [.method .invokespecial "Item" "<init>" "()V" false, .var .astore 1],
        [.var .aload 1, .method .invokespecial "Base" "<init>" "(LItem;)V" false],
        [.simple .return]] ⟨wrapCode.slots, []⟩ := by
    refine @Lowers.cons _ _ _ _ ⟨wrapStart, [.receiver]⟩ _ _ _ _ _ (by cbv) ?_
    refine @Lowers.cons _ _ _ _ ⟨wrapStart, [.allocation wrapItem, .receiver]⟩ _ _ _ _ _ (by cbv) ?_
    refine @Lowers.cons _ _ _ _ ⟨wrapCode.slots, [.receiver]⟩ _ _ _ _ _ (by cbv) ?_
    refine @Lowers.cons _ _ _ _ ⟨wrapCode.slots, []⟩ _ _ _ _ _ (by cbv) ?_
    exact .cons (by cbv) .nil
  have hpieces : Flow.pieces wrapStmts [] = [wrapStmts] := by cbv
  have hsizes : maxSizes wrapCode.code.insns [] 1 = .ok ⟨3, 2⟩ :=
    maxSizes_of_follow (n := 10) rfl rfl rfl (by cbv) rfl
  exact lowerMethod_of_stmts hb hpieces rfl hlayout rfl rfl hstart hrun hsizes

/-- The start of a method, before anything is made. -/
def blank : Snapshot Unit := ⟨[], fun _ => .other (), 0, []⟩

/-- The statements of `wrap` fit. -/
theorem behaved_wrap : ∀ s ∈ wrapBody.stmts, Behaved wrap wrapBody s.kind := by
  apply behaved_of_forall
  · decide
  · intro s hs hopens
    simp only [wrapBody, wrapStmts, List.mem_cons, List.not_mem_nil, or_false] at hs
    rcases hs with rfl | rfl | rfl | rfl | rfl
    · cases hopens
    · cases hopens
    · exact ⟨rfl, by rintro _ ⟨⟩; rfl, nofun, nofun⟩
    · refine ⟨rfl, by rintro _ ⟨⟩; rfl, ?_, nofun⟩
      simp [Invocation.method, initOf, wrapItem, Ty.Nameable]
    · trivial
  · decide
  · decide

/-- `paired_of_lowerMethod` at a constructor that makes an object while its own is open. -/
theorem wrap_paired :
    lowerMethod ⟨"Wrap"⟩ wrap {} 1 = .ok wrapCode ∧
      RunsPaired wrap wrapBody true wrapCode (fun _ _ _ => .other ()) blank := by
  have hb : Body.ofStmts [] wrapStmts [] = .ok wrapBody := by cbv
  have hnest : WellNested wrap wrapBody.stmts := by
    refine ⟨rfl, ?_⟩
    simp [wrapBody, wrapStmts, StmtKind.opens?, Construction.isReceiver]
  exact ⟨lowerMethod_wrap, paired_of_lowerMethod hb rfl ⟨by decide, by decide⟩ hnest behaved_wrap
    lowerMethod_wrap _ rfl⟩

end Wrap

section Misfit

/-- Whether every constructor call gets the object that it belongs to in accepted methods without
branches whose constructions are nested, if the constructor calls are of the given kind. -/
def PairsWhere (P : MethodSignature → List Operand → Prop) : Prop :=
  ∀ (m : Method) (b : Body) (locals : List Local) (stmts : List Stmt) (traps : List Trap)
    (owner : ClassName) (options : Options) (argSlots : Nat) (r : LoweredMethod),
    Body.ofStmts locals stmts traps = .ok b → m.body = some b → Unbranched b.stmts →
      WellNested m b.stmts → (∀ s ∈ b.stmts, ∀ l, s.kind.Mentions l → Slotted l) →
      (∀ s ∈ b.stmts, s.kind.IsApart m → StackNeutral m b s.kind) →
      (∀ s ∈ b.stmts, ∀ base sig args, s.kind = .invoke (.special base sig args) →
        sig.isConstructor → P sig args) →
      lowerMethod owner m options argSlots = .ok r → ∀ (f : Leavings Unit) (entry : Snapshot Unit),
        entry.stack = [] → RunsPaired m b options.lineNumbers r f entry

/-- The statements of `misfit`, which makes an object and calls the given constructor for it. -/
def misfitStmts (sig : MethodSignature) (args : List Operand) : List Stmt :=
  [⟨⟨0⟩, none, .assign (.var wrapItem) (.new ⟨"Item"⟩)⟩,
    ⟨⟨1⟩, none, .invoke (.special wrapItem sig args)⟩, ⟨⟨2⟩, none, .returnVoid⟩]

/-- The body of `misfit`. -/
def misfitBody (sig : MethodSignature) (args : List Operand) : Body where
  locals := []
  stmts := misfitStmts sig args
  flow := ⟨[⟨⟨0⟩, [⟨0⟩, ⟨1⟩, ⟨2⟩], [], []⟩]⟩

/-- A method that makes an object. -/
def misfit (sig : MethodSignature) (args : List Operand) : Method :=
  ⟨"misfit", [.static], [], .void, [], some (misfitBody sig args), none⟩

/-- The places of the locals of `misfit` at its start, and when the object has a slot. -/
def misfitSlots (bindings : List (Local × Binding)) (next : Nat) : Slots where
  bindings := bindings
  next := next
  declared := [wrapItem]

/-- The code of `misfit`. -/
def misfitCode (call : List Insn) (stack : Nat) : LoweredMethod where
  code :=
    { insns := [.type .new "Item", .simple .dup] ++ call ++ [.simple .return]
      guards := []
      sizes := ⟨stack, 1⟩ }
  slots := misfitSlots [(wrapItem, .slot 0)] 1
  labels := 0
  traps := 0

/-- The code of `misfit` is that of its statements. -/
theorem lowerMethod_misfit {sig : MethodSignature} {args : List Operand} {call : List Insn}
    {stack : Nat} (hcall : lowerStmt ⟨misfit sig args, misfitBody sig args,
      ⟨[⟨0⟩], [], [], [], [], []⟩, ⟨[], none⟩⟩ (.invoke (.special wrapItem sig args))
        ⟨misfitSlots [] 0, [.allocation wrapItem]⟩ =
      .ok (call, ⟨misfitSlots [(wrapItem, .slot 0)] 1, []⟩))
    (hsizes : maxSizes (misfitCode call stack).code.insns [] 0 = .ok ⟨stack, 1⟩) :
    lowerMethod ⟨"A"⟩ (misfit sig args) {} 0 = .ok (misfitCode call stack) := by
  have hb : Body.ofStmts [] (misfitStmts sig args) [] = .ok (misfitBody sig args) := by cbv
  have hpieces : Flow.pieces (misfitStmts sig args) [] = [misfitStmts sig args] := by cbv
  have hlayout : Layout.ofBody (misfitBody sig args) ({} : Options).lineNumbers =
      .ok ⟨[⟨0⟩], [], [], [], [], []⟩ := by cbv
  have hstart : Slots.ofMethod (misfit sig args) (misfitBody sig args) =
      .ok (misfitSlots [] 0) := by cbv
  have hrun : Lowers (fun s : Stmt => lowerStmt ⟨misfit sig args, misfitBody sig args,
      ⟨[⟨0⟩], [], [], [], [], []⟩, ⟨[], none⟩⟩ s.kind) ⟨misfitSlots [] 0, []⟩
      (misfitStmts sig args) [[.type .new "Item", .simple .dup], call, [.simple .return]]
      ⟨misfitSlots [(wrapItem, .slot 0)] 1, []⟩ := by
    refine @Lowers.cons _ _ _ _ ⟨misfitSlots [] 0, [.allocation wrapItem]⟩ _ _ _ _ _ (by cbv) ?_
    exact .cons hcall (.cons (by cbv) .nil)
  exact lowerMethod_of_stmts hb hpieces rfl hlayout rfl rfl hstart hrun hsizes

section Calls

variable {sig : MethodSignature} {args : List Operand} {call : List Insn} {stack : Nat}

/-- The second statement of `misfit` closes the construction. -/
theorem closes?_misfit (hsig : sig.isConstructor) :
    (StmtKind.invoke (.special wrapItem sig args)).closes? = some wrapItem := by
  simp [StmtKind.closes?, hsig]

/-- The construction is the only one. -/
theorem wellNested_misfit (hsig : sig.isConstructor) :
    WellNested (misfit sig args) (misfitStmts sig args) := by
  refine ⟨Nests.cons_iff.2 ⟨_, rfl, Nests.cons_iff.2 ⟨[], ?_, rfl⟩⟩, ?_⟩
  · exact StmtKind.nest_eq_some_iff.2 (.inr (.inl ⟨.object wrapItem, closes?_misfit hsig, rfl⟩))
  · simp [misfitStmts, StmtKind.opens?]

/-- The local is the only one too, if the arguments are constants. -/
theorem mentions_misfit (hargs : Ir.localsOf args = []) :
    ∀ s ∈ misfitStmts sig args, ∀ l, s.kind.Mentions l → l = wrapItem := by
  have hnil : Ir.localsOf [] = [] := rfl
  simp [misfitStmts, StmtKind.Mentions, StmtKind.uses, StmtKind.def?, Place.local?, Place.uses,
    Expr.uses, Invocation.uses, Invocation.base?, Invocation.args, Invocation.bootstrapArgs, hargs,
    hnil]

/-- If every constructor call of the given kind gets its object, then so does that of `misfit`. -/
theorem runsPaired_misfit {P : MethodSignature → List Operand → Prop} (h : PairsWhere P)
    (hsig : sig.isConstructor) (hargs : Ir.localsOf args = []) (hP : P sig args)
    (hcode : lowerMethod ⟨"A"⟩ (misfit sig args) {} 0 = .ok (misfitCode call stack)) :
    RunsPaired (misfit sig args) (misfitBody sig args) true (misfitCode call stack)
      (fun _ _ _ => .other ()) blank := by
  have hb : Body.ofStmts [] (misfitStmts sig args) [] = .ok (misfitBody sig args) := by cbv
  have hneutral : ∀ s ∈ misfitStmts sig args, s.kind.IsApart (misfit sig args) →
      StackNeutral (misfit sig args) (misfitBody sig args) s.kind := by
    intro s hs hapart
    simp only [misfitStmts, List.mem_cons, List.not_mem_nil, or_false] at hs
    rcases hs with rfl | rfl | rfl
    · cases hapart.opens
    · cases (closes?_misfit hsig).symm.trans hapart.closes
    · refine stackNeutral_of_fits trivial hapart (fun l hl => ?_) rfl rfl
      rcases hl with hl | hl <;> cases hl
  have hcalls : ∀ s ∈ misfitStmts sig args, ∀ base sig' args',
      s.kind = .invoke (.special base sig' args') → sig'.isConstructor → P sig' args' := by
    rintro s hs base sig' args' hk -
    simp only [misfitStmts, List.mem_cons, List.not_mem_nil, or_false] at hs
    rcases hs with rfl | rfl | rfl <;> cases hk
    exact hP
  have hstraight : Unbranched (misfitStmts sig args) := by
    constructor <;> simp [misfitStmts, StmtKind.targets, StmtKind.endsBlock, StmtKind.fallsThrough]
  exact h _ _ _ _ _ _ _ _ _ hb rfl hstraight (wellNested_misfit hsig)
    (fun s hs l hl => mentions_misfit hargs s hs l hl ▸ .inl rfl) hneutral hcalls hcode _ blank rfl

/-- The constructor is called on the first object then, which the local holds at the end. -/
theorem exists_run_misfit {P : MethodSignature → List Operand → Prop} (h : PairsWhere P)
    (hsig : sig.isConstructor) (hargs : Ir.localsOf args = []) (hP : P sig args)
    (hcode : lowerMethod ⟨"A"⟩ (misfit sig args) {} 0 = .ok (misfitCode call stack)) :
    ∃ s', blank.run (fun _ _ _ => .other ()) (misfitCode call stack).code.insns = some s' ∧
      s'.completed = [.object 0] ∧ s'.vars 0 = .object 0 := by
  obtain ⟨_, _, items, tail, st, -, -, hitems, -, -, hst, htrace, hpaired, hrun, -⟩ :=
    runsPaired_misfit h hsig hargs hP hcode
  have hpair : Pairs (misfit sig args) (misfitStmts sig args) 0 1 (.object wrapItem) :=
    ⟨[], _, [], _, [_], rfl, rfl, rfl, rfl, closes?_misfit hsig, rfl⟩
  have hsettles := hpaired.settles 0 1 _ hpair
  obtain ⟨n, hslot, hvars⟩ := hsettles.holds _ rfl
  cases hslot
  rw [hst] at hvars
  refine ⟨st 3, hrun, ?_, ?_⟩
  · rw [hpaired.others 2 _ rfl rfl, hsettles.completed, hpaired.others 0 _ rfl rfl, hst]
    rfl
  · -- The last statement is a return, which leaves the variables as they are.
    rcases hitems with _ | ⟨-, -, _ | ⟨-, -, _ | ⟨hfront, hreturn, -⟩⟩⟩
    obtain ⟨rfl, -⟩ := pure_run_iff.1 hreturn
    have hlast := htrace 2 _ rfl
    rw [Snapshot.run_isMark_append hfront, Snapshot.run_singleton,
      Snapshot.step_eq_some rfl rfl (Nat.zero_le _)] at hlast
    rw [← Option.some.inj hlast]
    exact hvars

end Calls

/-- The statements of `forget`, which makes an object and never calls its constructor. -/
def forgetStmts : List Stmt :=
  [⟨⟨0⟩, none, .assign (.var wrapItem) (.new ⟨"Item"⟩)⟩, ⟨⟨1⟩, none, .returnVoid⟩]

/-- The body of `forget`. -/
def forgetBody : Body where
  locals := []
  stmts := forgetStmts
  flow := ⟨[⟨⟨0⟩, [⟨0⟩, ⟨1⟩], [], []⟩]⟩

/-- A method that makes an object and leaves it as it is. -/
def forget : Method :=
  ⟨"forget", [.static], [], .void, [], some forgetBody, none⟩

/-- The code of `forget`. -/
def forgetCode : LoweredMethod where
  code :=
    { insns := [.type .new "Item", .simple .dup, .simple .return]
      guards := []
      sizes := ⟨2, 0⟩ }
  slots := misfitSlots [] 0
  labels := 0
  traps := 0

/-- A constructor may get another value, and a local another one than its object, if a call gives a
constructor more than its descriptor takes, or if a constructor is said to have a result. An object
whose constructor is never called waits for it for ever. -/
theorem not_paired_of_misfit :
    (¬PairsWhere (fun _ _ => True) ∧ ¬PairsWhere (fun sig _ => sig.ret = .void) ∧
      ¬PairsWhere fun sig args => ∀ desc, methodDescriptor sig.proto = .ok desc →
        ∃ ret, methodWidths desc = .ok ((args.map fun op => op.ty.width).sum, ret)) ∧
      lowerMethod ⟨"A"⟩ forget {} 0 = .ok forgetCode ∧
        ∃ layout start items, Layout.ofBody forgetBody true = .ok layout ∧
          Slots.ofMethod forget forgetBody = .ok start ∧
          Items ⟨forget, forgetBody, layout, layout.labels⟩ ⟨start, []⟩ forgetStmts items
            ⟨forgetCode.slots, [.allocation wrapItem]⟩ := by
  have hextra : ∀ {P : MethodSignature → List Operand → Prop}, P (initOf "Item" [])
      [.const (.int 1)] → ¬PairsWhere P := by
    intro P hP h
    have hcode : lowerMethod ⟨"A"⟩ (misfit (initOf "Item" []) [.const (.int 1)]) {} 0 =
        .ok (misfitCode [.simple .iconst1, .method .invokespecial "Item" "<init>" "()V" false,
          .var .astore 0] 3) :=
      lowerMethod_misfit (by cbv) (maxSizes_of_follow (n := 8) rfl rfl rfl (by cbv) rfl)
    obtain ⟨s', hrun, hcompleted, -⟩ := exists_run_misfit h rfl rfl hP hcode
    have hother : (blank.run (fun _ _ _ => .other ()) (misfitCode [.simple .iconst1,
        .method .invokespecial "Item" "<init>" "()V" false, .var .astore 0] 3).code.insns).map
          Snapshot.completed = some [.other ()] := by cbv
    rw [hrun, Option.map_some, hcompleted] at hother
    cases hother
  have hresult : ∀ {P : MethodSignature → List Operand → Prop},
      P ⟨⟨"Item"⟩, "<init>", [], .prim .int⟩ [] → ¬PairsWhere P := by
    intro P hP h
    have hcode : lowerMethod ⟨"A"⟩ (misfit ⟨⟨"Item"⟩, "<init>", [], .prim .int⟩ []) {} 0 =
        .ok (misfitCode [.method .invokespecial "Item" "<init>" "()I" false, .var .astore 0,
          .simple .pop] 2) :=
      lowerMethod_misfit (by cbv) (maxSizes_of_follow (n := 8) rfl rfl rfl (by cbv) rfl)
    obtain ⟨s', hrun, -, hvars⟩ := exists_run_misfit h rfl rfl hP hcode
    have hother : (blank.run (fun _ _ _ => .other ()) (misfitCode [.method .invokespecial "Item"
        "<init>" "()I" false, .var .astore 0, .simple .pop] 2).code.insns).map
          (fun s => s.vars 0) = some (.other ()) := by cbv
    rw [hrun, Option.map_some, hvars] at hother
    cases hother
  have hb : Body.ofStmts [] forgetStmts [] = .ok forgetBody := by cbv
  have hpieces : Flow.pieces forgetStmts [] = [forgetStmts] := by cbv
  have hlayout : Layout.ofBody forgetBody ({} : Options).lineNumbers =
      .ok ⟨[⟨0⟩], [], [], [], [], []⟩ := by cbv
  have hstart : Slots.ofMethod forget forgetBody = .ok (misfitSlots [] 0) := by cbv
  have hrun : Lowers (fun s : Stmt => lowerStmt ⟨forget, forgetBody, ⟨[⟨0⟩], [], [], [], [], []⟩,
      ⟨[], none⟩⟩ s.kind) ⟨misfitSlots [] 0, []⟩ forgetStmts
      [[.type .new "Item", .simple .dup], [.simple .return]]
      ⟨misfitSlots [] 0, [.allocation wrapItem]⟩ := by
    refine @Lowers.cons _ _ _ _ ⟨misfitSlots [] 0, [.allocation wrapItem]⟩ _ _ _ _ _ (by cbv) ?_
    exact .cons (by cbv) .nil
  have hforget : lowerMethod ⟨"A"⟩ forget {} 0 = .ok forgetCode :=
    lowerMethod_of_stmts hb hpieces rfl hlayout rfl rfl hstart hrun (by cbv)
  refine ⟨⟨hextra trivial, hextra rfl, hresult fun desc hdesc => ?_⟩, hforget, _, _, _, hlayout,
    hstart, .of_lowers hrun⟩
  have hint : methodDescriptor ⟨[], .prim .int⟩ = .ok "()I" := by cbv
  cases hdesc.symm.trans hint
  exact ⟨1, by cbv⟩

end Misfit

end BytecodeLowering.Lowering
