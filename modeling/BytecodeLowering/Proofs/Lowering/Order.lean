import BytecodeLowering.Proofs.Lowering.Objects

/-!
# The order of constructor calls

Which object a constructor call completes, and which one the constructor gets.

* `TakesOut`, `takesOut_of_lowerStmt`: a call completes the latest object that it fits.
* `Leads`: constructions that are open in front of a constructor call.
* `Gets`, `gets_of_items`: the constructor gets the object whose construction was opened last.
* `completions_of_lowerMethod`: what the constructor calls of an accepted method complete.
* `crossed_of_lowerMethod`: a constructor that is called out of order gets the object of another
  call.
-/

namespace BytecodeLowering.Lowering

open Ir Machine

variable {m : Method} {p p' : Progress} {code : List Insn}

section Waiting

/-- What a constructor call on a local takes from the objects that wait, the latest one first: the
first one that it fits, or nothing if it fits none. -/
inductive TakesOut (slots : Slots) (base : Local) : List Pending → List Pending → Prop
  | nothing {waiting : List Pending} : (∀ w ∈ waiting, completes slots base w = false) →
      TakesOut slots base waiting waiting
  | object {inner outer : List Pending} {w : Pending} :
      (∀ w ∈ inner, completes slots base w = false) → completes slots base w →
      TakesOut slots base (inner ++ w :: outer) (inner ++ outer)

/-- An object is taken out of those that wait, or none of them is fit. -/
theorem takesOut_eraseP (slots : Slots) (base : Local) (waiting : List Pending) :
    TakesOut slots base waiting (waiting.eraseP (completes slots base)) := by
  by_cases hfit : ∃ w ∈ waiting, completes slots base w
  · obtain ⟨w, hw, hcompletes⟩ := hfit
    obtain ⟨done, inner, outer, hinner, hdone, rfl, herase⟩ :=
      List.exists_of_eraseP hw hcompletes
    rw [herase]
    exact .object (fun w hw => by simpa using hinner w hw) hdone
  · have hnone : ∀ w ∈ waiting, completes slots base w = false :=
      fun w hw => by simpa using fun hcompletes => hfit ⟨w, hw, hcompletes⟩
    rw [List.eraseP_of_forall_not fun w hw => by simp [hnone w hw]]
    exact .nothing hnone

/-- A constructor call completes the latest object that it fits, whatever waits behind it. -/
theorem takesOut_of_lowerCall {base : Local} {sig : MethodSignature} {args : List Operand}
    (hsig : sig.isConstructor) (h : lowerCall (.special base sig args) p = .ok (code, p')) :
    TakesOut p.slots base p.pending p'.pending := by
  obtain ⟨done, q, hdone, hvalue⟩ := lowerSpecial_run_iff.1 h
  have htaken : TakesOut p.slots base p.pending q.pending := by
    rcases takePending_run_iff.1 hdone with ⟨hnot, -⟩ | ⟨-, -, rfl⟩
    · rw [hsig] at hnot
      cases hnot
    · exact takesOut_eraseP _ _ _
  -- Neither the arguments nor the store of the object change what waits.
  have hkept : p'.pending = q.pending := by
    cases done with
    | none =>
      obtain ⟨receiver, q', values, call, hreceiver, hvalues, -⟩ := callOn_run_iff.1 hvalue
      obtain ⟨-, hload, -⟩ := inert_loadLocal base q.slots q.pending receiver q' hreceiver
      obtain ⟨-, hargs, -⟩ := inert_loadOperands args q'.slots q'.pending values p' hvalues
      exact hargs.trans hload
    | some done =>
      cases done with
      | receiver =>
        obtain ⟨values, call, hvalues, -⟩ := hvalue
        exact (inert_loadOperands args q.slots q.pending values p' hvalues).2.1
      | allocation target =>
        obtain ⟨values, q', call, store, hvalues, -, hstore, -⟩ := hvalue
        obtain ⟨-, hargs, -⟩ := inert_loadOperands args q.slots q.pending values q' hvalues
        obtain ⟨-, hkeep, -⟩ := inert_storeLocal target q'.slots q'.pending store p' hstore
        exact hkeep.trans hargs
  rw [hkept]
  exact htaken

/-- So does a statement that makes the call. -/
theorem takesOut_of_lowerStmt {c : MethodContext} {k : StmtKind} {base : Local}
    {sig : MethodSignature} {args : List Operand} (hk : k.call? = some (.special base sig args))
    (hsig : sig.isConstructor) (h : lowerStmt c k p = .ok (code, p')) :
    TakesOut p.slots base p.pending p'.pending := by
  unfold StmtKind.call? at hk
  split at hk
  · -- The call is a statement: what it leaves is popped.
    cases hk
    obtain ⟨value, hvalue, -⟩ := lowerInvoke_run_iff.1 h
    exact takesOut_of_lowerCall hsig hvalue
  · -- The result is assigned, which is possible for a local only.
    rename_i place _
    cases hk
    cases place with
    | var target =>
      rw [lowerStmt, lowerAssign] at h
      obtain ⟨-, hassign⟩ := assignCall_run_iff.1 h
      obtain ⟨value, q', store, hvalue, hstore, -⟩ := assignValue_run_iff.1 hassign
      obtain ⟨-, hkeep, -⟩ := inert_storeLocal target q'.slots q'.pending store p' hstore
      rw [hkeep]
      exact takesOut_of_lowerCall hsig hvalue
    | field f =>
      obtain ⟨_, _, hfail, -⟩ := bind_run_iff.1 h
      cases (lift_run_iff.1 hfail).1
    | element a =>
      obtain ⟨_, _, hfail, -⟩ := bind_run_iff.1 h
      cases (lift_run_iff.1 hfail).1
  · cases hk

end Waiting

section Gets

variable {b : Body} {front : List Stmt} {k : StmtKind} {inner : List Local} {con : Construction}
  {outer : List Construction}

/-- Statements that are run one after the other, in front of a call of the constructor of `con`.
The objects of the locals `inner` are waiting as well then, and were made later. -/
structure Leads (m : Method) (b : Body) (front : List Stmt) (k : StmtKind) (inner : List Local)
    (con : Construction) (outer : List Construction) : Prop where
  /-- Control goes on behind each of them. -/
  straight : ∀ x ∈ front, x.kind.endsBlock = false
  /-- The receiver is taken at the start. -/
  leading : ∀ x ∈ front.tail, ∀ c ∈ x.kind.opens? m, c.isReceiver = false
  /-- The constructions were opened and not closed. -/
  nests : Nests m [] front (inner.map .object ++ con :: outer)
  /-- The constructor is that of the object that was made earlier. -/
  notMem : con.base ∉ inner
  /-- New objects go to locals of one slot. -/
  widths : ∀ x ∈ front, ∀ l, x.kind.opens? m = some (.object l) → l.ty.width = 1
  /-- The statements behave as those of nested constructions. -/
  behaved : ∀ x ∈ front, Behaved m b x.kind
  /-- So does the call. -/
  call : Behaved m b k

/-- Such statements and the call do not branch. -/
theorem Leads.unbranched (h : Leads m b front k inner con outer) {s : Stmt}
    (hs : s.kind.targets = []) : Unbranched (front ++ [s]) := by
  refine ⟨fun x hx => ?_, fun x hx => ?_⟩
  · rcases List.mem_append.1 hx with hx | hx
    · exact (StmtKind.straight_of_not_endsBlock (h.straight x hx)).2
    · rw [List.mem_singleton.1 hx]
      exact hs
  · rw [List.dropLast_concat] at hx
    exact h.straight x hx

variable {α : Type}

/-- The call behind some statements calls its constructor on the object whose construction `first`
was opened last, at place `i`: `st j` is the snapshot in front of the statement at place `j`. -/
structure Gets (m : Method) (front : List Stmt) (first : Construction) (i : Nat)
    (st : Nat → Snapshot α) : Prop where
  /-- The construction was opened there. -/
  opens : ∃ x, front[i]? = some x ∧ x.kind.opens? m = some first
  /-- Its object is on top of the operand stack. -/
  top : (st front.length).stack.head? = some (reference (st i) first)
  /-- The constructor is called on it. -/
  completed : (st (front.length + 1)).completed =
    reference (st i) first :: (st front.length).completed
  /-- If it is a new object, then no other statement made it. -/
  fresh : ∀ l i' x l', first = .object l → i' ≠ i → front[i']? = some x →
    x.kind.opens? m = some (.object l') → Cell.object (st i').made ≠ reference (st i) first

variable {owner : ClassName} {options : Options} {argSlots : Nat} {r : LoweredMethod}
  {locals : List Local} {stmts : List Stmt} {traps : List Trap} {layout : Layout} {labels : Labels}
  {start : Slots} {before : List (List Insn)} {marks : List Insn} {sig : MethodSignature}
  {args : List Operand}

/-- The call completes the object made earlier, and takes it out from behind the later ones. -/
theorem completion_of_items (hstart : Slots.ofMethod m b = .ok start)
    (hbefore : Items ⟨m, b, layout, labels⟩ ⟨start, []⟩ front before p) {back : List Stmt}
    (hstmts : b.stmts = front ++ back) (hsig : sig.isConstructor)
    (hleads : Leads m b front (.invoke (.special con.base sig args)) inner con outer)
    (h : lowerStmt ⟨m, b, layout, labels⟩ (.invoke (.special con.base sig args)) p =
      .ok (code, p')) :
    Shapes m p.slots [] front before (inner.map .object ++ con :: outer) ∧
      p.pending = (inner.map Construction.object ++ con :: outer).map waiting ∧
      p'.pending = (inner.map Construction.object ++ outer).map waiting ∧
      ∃ width values call store, Completion con p'.slots width values call store ∧
        code = values ++ call :: store := by
  have htouch : ∀ x ∈ front, ∀ q code q', lowerStmt ⟨m, b, layout, labels⟩ x.kind q =
      .ok (code, q') → Slots.Touches Slotted q.slots q'.slots := by
    intro x hx q code q' hrun
    have hslotted := (hleads.behaved x hx).slotted
    exact (straight_of_lowerStmt (hleads.straight x hx) (fun l hl => hslotted l (.inl hl))
      (fun l hl => hslotted l (.inr hl)) hrun).touches
  obtain ⟨hshapes, hkeeps⟩ := shapes_of_items hbefore hleads.nests hleads.behaved htouch
    (completes_of_leading hstmts hleads.leading hstart)
    ⟨rfl, (ready_of_ofMethod hstart).notStack, nofun⟩
  have hpending := hkeeps.pending
  rw [List.append_nil] at hpending
  -- The object of the call is fit for it, and no object in front of it is.
  have hcon : completes p.slots con.base (waiting con) := hkeeps.completes_base (by simp)
  have hinner : ∀ w ∈ (inner.map Construction.object).map waiting,
      completes p.slots con.base w = false := by
    intro w hw
    obtain ⟨c, hc, rfl⟩ := List.mem_map.1 hw
    obtain ⟨l, hl, rfl⟩ := List.mem_map.1 hc
    have hne : l ≠ con.base := fun heq => hleads.notMem (heq ▸ hl)
    simp [waiting, completes, hne]
  obtain ⟨hbase, hargs⟩ := slotted_of_special hleads.call
  have hsplit : p.pending =
      (inner.map Construction.object).map waiting ++ waiting con :: outer.map waiting := by
    rw [hpending, List.map_append, List.map_cons]
  obtain ⟨width, values, call, store, hcompletion, hcode, hpending'⟩ :=
    completion_of_run hkeeps.offStack hsig hargs (hleads.call.suits _ _ _ rfl hsig) hbase hsplit
      hinner hcon h
  exact ⟨hshapes, hpending, by rw [hpending', List.map_append], width, values, call, store,
    hcompletion, hcode⟩

/-- New objects of different statements are different. -/
theorem fresh_of_shapes {slots : Slots} {opened : List Construction} {back : List (List Insn)}
    {f : Leavings α} {st : Nat → Snapshot α} (h : Shapes m slots [] front before opened)
    (htrace : Trace f (before ++ back) st) (hlength : before.length = front.length) {i j : Nat}
    {x y : Stmt} {l l' : Local} (hne : i ≠ j) (hi : front[i]? = some x) (hj : front[j]? = some y)
    (hx : x.kind.opens? m = some (.object l)) (hy : y.kind.opens? m = some (.object l')) :
    (st i).made ≠ (st j).made := by
  -- What the first one makes is counted when the second one makes its object.
  have hmade : ∀ {i j : Nat} {x : Stmt} {l : Local}, i < j → front[i]? = some x →
      x.kind.opens? m = some (.object l) → j < front.length → (st i).made ≠ (st j).made := by
    intro i j x l hlt hi hx hj
    obtain ⟨-, hsucc⟩ := h.makes htrace hi hx
    have hle : (st (i + 1)).made ≤ (st j).made :=
      htrace.made_le hlt (by rw [List.length_append]; omega)
    omega
  rcases Nat.lt_or_gt_of_ne hne with hlt | hlt
  · exact hmade hlt hi hx (List.getElem?_eq_some_iff.1 hj).1
  · exact (hmade hlt hj hy (List.getElem?_eq_some_iff.1 hi).1).symm

/-- The constructor gets the object made last. -/
theorem gets_of_items (hstart : Slots.ofMethod m b = .ok start)
    (hbefore : Items ⟨m, b, layout, labels⟩ ⟨start, []⟩ front before p) {back : List Stmt}
    (hstmts : b.stmts = front ++ back) {s : Stmt}
    (hkind : s.kind = .invoke (.special con.base sig args)) (hsig : sig.isConstructor)
    (hleads : Leads m b front s.kind inner con outer) (hmarks : ∀ i ∈ marks, i.isMark)
    (h : lowerStmt ⟨m, b, layout, labels⟩ s.kind p = .ok (code, p'))
    {rest : List Insn} {guards : List Guard}
    (hflawless : Flawless ((before ++ [marks ++ code]).flatten ++ rest) guards)
    (f : Leavings α) {entry : Snapshot α} (hentry : entry.stack = []) :
    ∃ st i first, st 0 = entry ∧ Trace f (before ++ [marks ++ code]) st ∧
      (inner.map Construction.object ++ [con]).head? = some first ∧ Gets m front first i st := by
  have hlength := hbefore.length_eq
  -- The statements and the call are run from the first one to the last one.
  have hcall : Items ⟨m, b, layout, labels⟩ p [s] [marks ++ code] p' := .cons hmarks h .nil
  have hcode := sequential_of_items (hbefore.append hcall) (hleads.unbranched (by rw [hkind]; rfl))
  obtain ⟨d, hd⟩ := hcode.exists_depthAfter hflawless
  rw [← List.length_nil, ← hentry] at hd
  obtain ⟨st, hst, htrace⟩ := exists_trace (f := f) hcode hd
  -- What was opened last is on top of the stack.
  rw [hkind] at hleads h
  obtain ⟨hshapes, -, -, width, values, call, store, hcompletion, rfl⟩ :=
    completion_of_items hstart hbefore hstmts hsig hleads h
  obtain ⟨first, others, hopened, hfirst⟩ : ∃ first others,
      inner.map Construction.object ++ con :: outer = first :: others ∧
        (inner.map Construction.object ++ [con]).head? = some first := by
    cases inner with
    | nil => exact ⟨con, outer, rfl, rfl⟩
    | cons l inner => exact ⟨.object l, _, rfl, rfl⟩
  obtain ⟨front', x, between, rfl, hopens, -, hbetween⟩ :=
    (hopened ▸ hleads.nests).exists_opening
  simp only [List.flatten_append, List.flatten_singleton] at hcode
  obtain ⟨-, hstack⟩ := hshapes.stack_eq_held htrace hcode.left
    (fun s hs => hleads.widths s (by simp [hs])) hopens hbetween
  obtain ⟨below, hheld⟩ := exists_held (st front'.length) first
  rw [hheld, List.cons_append, hlength] at hstack
  refine ⟨st, front'.length, first, hst, htrace, hfirst, ⟨x, by simp, hopens⟩, ?_, ?_, ?_⟩
  · rw [hstack]
    rfl
  · have hstep := htrace before.length (marks ++ (values ++ call :: store)) (by simp)
    rw [hlength, Snapshot.run_isMark_append hmarks] at hstep
    exact hcompletion.completed_of_run hcode.right.right hstack hstep
  · rintro l i' y l' rfl hne hy hopens'
    have hmade := fresh_of_shapes hshapes htrace hlength hne hy (by simp) hopens' hopens
    exact fun heq => hmade (Cell.object.inj heq)

/-- A constructor call behind the given constructions takes the object of its local from behind
those that were made later, if there are any. Its code calls the constructor on the object made
last. -/
structure Crosses (m : Method) (front : List Stmt) (items : List (List Insn))
    (inner : List Local) (con : Construction) (outer : List Construction) (p p' : Progress) :
    Prop where
  /-- The objects wait for their constructors. -/
  waits : p.pending = (inner.map Construction.object ++ con :: outer).map waiting
  /-- The others still do. -/
  takes : p'.pending = (inner.map Construction.object ++ outer).map waiting
  /-- The constructor gets the object made last. -/
  gets : ∀ {α : Type} (f : Leavings α) (entry : Snapshot α), entry.stack = [] →
    ∃ st i first, st 0 = entry ∧ Trace f items st ∧
      (inner.map Construction.object ++ [con]).head? = some first ∧ Gets m front first i st

/-- What the constructor calls of a method complete, by its statements. -/
def Completes (m : Method) (b : Body) (lines : Bool) (r : LoweredMethod) : Prop :=
  ∃ layout start items tail pending, Layout.ofBody b lines = .ok layout ∧
    Slots.ofMethod m b = .ok start ∧
    Items ⟨m, b, layout, layout.labels⟩ ⟨start, []⟩ b.stmts items ⟨r.slots, pending⟩ ∧
    r.code.insns = items.flatten ++ tail ∧ (∀ i ∈ tail, i.isMark) ∧
    ∀ front s back base sig args, b.stmts = front ++ s :: back →
      s.kind.call? = some (.special base sig args) → sig.isConstructor →
      ∃ before marks code behind p p', items = before ++ (marks ++ code) :: behind ∧
        (∀ i ∈ marks, i.isMark) ∧
        Items ⟨m, b, layout, layout.labels⟩ ⟨start, []⟩ front before p ∧
        lowerStmt ⟨m, b, layout, layout.labels⟩ s.kind p = .ok (code, p') ∧
        TakesOut p.slots base p.pending p'.pending ∧
        ∀ inner con outer, s.kind = .invoke (.special con.base sig args) →
          Leads m b front s.kind inner con outer →
            Crosses m front (before ++ [marks ++ code]) inner con outer p p'

/-- In an accepted method every constructor call completes the latest object that it fits, even if
other objects were made later. The constructor gets one of those then. -/
theorem completions_of_lowerMethod (hb : Body.ofStmts locals stmts traps = .ok b)
    (hm : m.body = some b) (h : lowerMethod owner m options argSlots = .ok r) :
    Completes m b options.lineNumbers r := by
  obtain ⟨layout, codes, start, pending, hstart, he, -, hinsns, -⟩ :=
    Emission.of_lowerMethod hb hm h
  obtain ⟨_, _, -, -, -, -, hsizes⟩ := lowerMethod_eq_ok hm h
  obtain ⟨items, hitems, hflatten, -⟩ := he.exists_items
  rw [← hflatten] at hinsns
  refine ⟨layout, start, items, _, pending, he.ofBody, hstart, hitems, hinsns,
    fun i hi => isMark_of_mem_stop hi, ?_⟩
  intro front s back base sig args hstmts hcall hsig
  obtain ⟨before, rest, p, rfl, hbefore, hrest⟩ := (hstmts ▸ hitems).exists_split
  rcases hrest with _ | @⟨_, p', _, _, _, marks, code, behind, hmarks, hcode, -⟩
  refine ⟨before, marks, code, behind, p, p', rfl, hmarks, hbefore, hcode,
    takesOut_of_lowerStmt hcall hsig hcode, fun inner con outer hkind hleads => ?_⟩
  -- The code up to the call is a part of the code that was measured.
  have hflawless := flawless_of_maxSizes hsizes
  rw [hinsns, ← List.singleton_append, ← List.append_assoc, List.flatten_append,
    List.append_assoc] at hflawless
  obtain ⟨-, hwaits, htakes, -⟩ :=
    completion_of_items hstart hbefore hstmts hsig (hkind ▸ hleads) (hkind ▸ hcode)
  exact ⟨hwaits, htakes, fun f entry hentry =>
    gets_of_items hstart hbefore hstmts hkind hsig hleads hmarks hcode hflawless f hentry⟩

end Gets

section Cross

/-- The object that `cross` makes first. -/
def crossA : Local := ⟨"a", .object ⟨"A"⟩, .ordinary⟩

/-- The object that `cross` makes second. -/
def crossB : Local := ⟨"b", .object ⟨"B"⟩, .ordinary⟩

/-- The statements of `cross`. The constructor of the first object is called first. -/
def crossStmts : List Stmt :=
  [⟨⟨0⟩, none, .assign (.var crossA) (.new ⟨"A"⟩)⟩,
    ⟨⟨1⟩, none, .assign (.var crossB) (.new ⟨"B"⟩)⟩,
    ⟨⟨2⟩, none, .invoke (.special crossA (initOf "A" []) [])⟩,
    ⟨⟨3⟩, none, .invoke (.special crossB (initOf "B" []) [])⟩,
    ⟨⟨4⟩, none, .returnVoid⟩]

/-- The body of `cross`. -/
def crossBody : Body where
  locals := []
  stmts := crossStmts
  flow := ⟨[⟨⟨0⟩, [⟨0⟩, ⟨1⟩, ⟨2⟩, ⟨3⟩, ⟨4⟩], [], []⟩]⟩

/-- A method that makes two objects and calls their constructors out of order. -/
def cross : Method :=
  ⟨"cross", [.static], [], .void, [], some crossBody, none⟩

/-- The places of the locals of `cross`. -/
def crossSlots (bindings : List (Local × Binding)) : Slots where
  bindings := bindings
  next := bindings.length
  declared := [crossB, crossA]

/-- The code of `cross`. -/
def crossCode : LoweredMethod where
  code :=
    { insns := [.type .new "A", .simple .dup, .type .new "B", .simple .dup,
        .method .invokespecial "A" "<init>" "()V" false, .var .astore 0,
        .method .invokespecial "B" "<init>" "()V" false, .var .astore 1, .simple .return]
      guards := []
      sizes := ⟨4, 2⟩ }
  slots := crossSlots [(crossB, .slot 1), (crossA, .slot 0)]
  labels := 0
  traps := 0

/-- What `cross` is lowered in view of. -/
def crossContext : MethodContext :=
  ⟨cross, crossBody, ⟨[⟨0⟩], [], [], [], [], []⟩, ⟨[], none⟩⟩

/-- The code of the statements of `cross`. -/
theorem lowers_cross : Lowers (fun s : Stmt => lowerStmt crossContext s.kind) ⟨crossSlots [], []⟩
    crossStmts [[.type .new "A", .simple .dup], [.type .new "B", .simple .dup],
      [.method .invokespecial "A" "<init>" "()V" false, .var .astore 0],
      [.method .invokespecial "B" "<init>" "()V" false, .var .astore 1], [.simple .return]]
    ⟨crossCode.slots, []⟩ := by
  refine @Lowers.cons _ _ _ _ ⟨crossSlots [], [.allocation crossA]⟩ _ _ _ _ _ (by cbv) ?_
  refine @Lowers.cons _ _ _ _ ⟨crossSlots [], [.allocation crossB, .allocation crossA]⟩ _ _ _ _ _
    (by cbv) ?_
  refine @Lowers.cons _ _ _ _ ⟨crossSlots [(crossA, .slot 0)], [.allocation crossB]⟩ _ _ _ _ _
    (by cbv) ?_
  exact .cons (by cbv) (.cons (by cbv) .nil)

/-- The code of `cross` is that of its statements. -/
theorem lowerMethod_cross : lowerMethod ⟨"Cross"⟩ cross {} 0 = .ok crossCode := by
  have hb : Body.ofStmts [] crossStmts [] = .ok crossBody := by cbv
  have hlayout : Layout.ofBody crossBody ({} : Options).lineNumbers =
      .ok ⟨[⟨0⟩], [], [], [], [], []⟩ := by cbv
  have hstart : Slots.ofMethod cross crossBody = .ok (crossSlots []) := by cbv
  have hpieces : Flow.pieces crossStmts [] = [crossStmts] := by cbv
  have hsizes : maxSizes crossCode.code.insns [] 0 = .ok ⟨4, 2⟩ :=
    maxSizes_of_follow (n := 11) rfl rfl rfl (by cbv) rfl
  exact lowerMethod_of_stmts hb hpieces rfl hlayout rfl rfl hstart lowers_cross hsizes

/-- The statements of `cross` fit. -/
theorem behaved_cross : ∀ s ∈ crossStmts, Behaved cross crossBody s.kind := by
  apply behaved_of_forall
  · decide
  · intro s hs hopens
    simp only [crossStmts, List.mem_cons, List.not_mem_nil, or_false] at hs
    rcases hs with rfl | rfl | rfl | rfl | rfl
    · cases hopens
    · cases hopens
    · exact ⟨rfl, by rintro _ ⟨⟩; rfl, nofun, nofun⟩
    · exact ⟨rfl, by rintro _ ⟨⟩; rfl, nofun, nofun⟩
    · trivial
  · decide
  · decide

/-- `completions_of_lowerMethod` at a method that calls a constructor while the construction of
another object is open. -/
theorem cross_completions :
    lowerMethod ⟨"Cross"⟩ cross {} 0 = .ok crossCode ∧
      Leads cross crossBody (crossStmts.take 2)
        (.invoke (.special crossA (initOf "A" []) [])) [crossB] (.object crossA) [] ∧
      Completes cross crossBody true crossCode := by
  have hb : Body.ofStmts [] crossStmts [] = .ok crossBody := by cbv
  have hleads : Leads cross crossBody (crossStmts.take 2)
      (.invoke (.special crossA (initOf "A" []) [])) [crossB] (.object crossA) [] :=
    { straight := by decide
      leading := by decide
      nests := rfl
      notMem := by decide
      widths := by
        intro s hs l hl
        simp only [crossStmts, List.take_succ_cons, List.take_zero, List.mem_cons,
          List.not_mem_nil, or_false] at hs
        rcases hs with rfl | rfl <;> cases hl <;> rfl
      behaved := fun s hs => behaved_cross s (List.mem_of_mem_take hs)
      call := behaved_cross ⟨⟨2⟩, none, .invoke (.special crossA (initOf "A" []) [])⟩
        (by simp [crossStmts]) }
  have hcompletes := completions_of_lowerMethod hb rfl lowerMethod_cross
  exact ⟨lowerMethod_cross, hleads, hcompletes⟩

/-- The method is accepted although its first constructor call completes the object that was made
earlier. The constructor gets the other object. -/
theorem crossed_of_lowerMethod :
    lowerMethod ⟨"Cross"⟩ cross {} 0 = .ok crossCode ∧
      (∃ before p code p', Items crossContext ⟨crossSlots [], []⟩ (crossStmts.take 2) before p ∧
        lowerStmt crossContext (.invoke (.special crossA (initOf "A" []) [])) p =
          .ok (code, p') ∧
        p.pending = [.allocation crossB, .allocation crossA] ∧
        p'.pending = [.allocation crossB]) ∧
      (blank.run (fun _ _ _ => .other ()) crossCode.code.insns).map Snapshot.completed =
        some [.object 0, .object 1] := by
  have hcall : lowerStmt crossContext (.invoke (.special crossA (initOf "A" []) []))
      ⟨crossSlots [], [.allocation crossB, .allocation crossA]⟩ =
        .ok ([.method .invokespecial "A" "<init>" "()V" false, .var .astore 0],
          ⟨crossSlots [(crossA, .slot 0)], [.allocation crossB]⟩) := by cbv
  have hfront : Lowers (fun s : Stmt => lowerStmt crossContext s.kind) ⟨crossSlots [], []⟩
      (crossStmts.take 2) [[.type .new "A", .simple .dup], [.type .new "B", .simple .dup]]
      ⟨crossSlots [], [.allocation crossB, .allocation crossA]⟩ := by
    refine @Lowers.cons _ _ _ _ ⟨crossSlots [], [.allocation crossA]⟩ _ _ _ _ _ (by cbv) ?_
    exact .cons (by cbv) .nil
  exact ⟨lowerMethod_cross, ⟨_, _, _, _, .of_lowers hfront, hcall, rfl, rfl⟩, by cbv⟩

end Cross

end BytecodeLowering.Lowering
