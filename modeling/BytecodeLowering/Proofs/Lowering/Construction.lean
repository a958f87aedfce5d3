import BytecodeLowering.Proofs.Lowering.Balance
import BytecodeLowering.Proofs.Lowering.Inert
import BytecodeLowering.Proofs.Lowering.Items

/-!
# Code of nested constructions

What the code of statements does that make objects and call their constructors, the latest object
first.

* `Suits`: the constructor calls with what their descriptors ask for, and without a result.
* `StackNeutral`: the other statements, whose code leaves the operand stack as it is;
  `stackNeutral_of_fits`.
* `Completion`, `completion_of_run`: the code of a constructor call.
* `Keeps`: what the lowering knows while constructions are open.
* `Shaped`, `shaped_of_run`: the code of a statement, by what it does to the open constructions.
* `Shapes`, `shapes_of_items`: the code of nested statements.
* `Shaped.narrow`, `Shapes.narrow`: in accepted code a new object goes to a local of one slot.
* `Stacked`, `Shaped.exists_run`, `Shapes.exists_run`: the operand stack has the objects whose
  constructions are open.
-/

namespace BytecodeLowering.Lowering

open Ir Machine

variable {m : Method} {c : MethodContext} {p p' : Progress} {code : List Insn}

/-- No local lives on the operand stack. -/
def Slots.OffStack (s : Slots) : Prop :=
  ∀ l, s.binding? l ≠ some .stack

/-- Nothing is kept on the operand stack where no object waits for its constructor. -/
theorem Slots.OffStack.ready {s : Slots} (hs : s.OffStack) : Ready ⟨s, []⟩ :=
  ⟨rfl, hs⟩

/-- A local that has slots of its own, or stands for the receiver. -/
def Slotted (l : Local) : Prop :=
  l.role = .ordinary ∨ l.role = .receiver

instance : DecidablePred Slotted :=
  fun l => inferInstanceAs (Decidable (l.role = .ordinary ∨ l.role = .receiver))

/-- Such locals do not get on the operand stack. -/
theorem Slots.OffStack.touches {s s' : Slots} (hs : s.OffStack) (h : Touches Slotted s s') :
    s'.OffStack := by
  have hbind : ∀ {s s' : Slots} {l n}, s.OffStack → s.bind l (.slot n) = .ok s' →
      s'.OffStack := by
    intro s s' l n hs hbind l'
    rw [Slots.binding?_bind hbind]
    split
    · simp
    · exact hs l'
  have hresolve : ∀ {s s' : Slots} {l b}, Slotted l → s.OffStack → s.resolve l = .ok (b, s') →
      s'.OffStack := by
    intro s s' l b hl hs h
    rcases Slots.resolve_ok_iff.1 h with ⟨-, rfl⟩ | ⟨-, rfl, h⟩
    · exact hs
    · unfold Slots.fresh at h
      rcases hl with hrole | hrole <;>
        · simp only [hrole] at h
          exact hbind hs h
  -- A local is given a slot by its role or by its declaration. Only handlers are moved.
  induction h with
  | refl => exact hs
  | tail _ hstep ih =>
    cases hstep with
    | resolve hl h => exact hresolve hl ih h
    | declared hl h =>
      rcases Slots.resolveDeclared_ok h with ⟨n, -, -, rfl, h⟩ | h
      · exact hbind ih h
      · exact hresolve hl ih h
    | move hl hrole _ => rcases hl with hl | hl <;> rw [hl] at hrole <;> cases hrole

/-- A constructor is called with what its descriptor asks for, and has no result. -/
structure Suits (sig : MethodSignature) (args : List Operand) : Prop where
  /-- It has no result. -/
  ret : sig.ret = .void
  /-- The arguments take the slots that the descriptor has for them. -/
  widths : ∀ desc, methodDescriptor sig.proto = .ok desc →
    methodWidths desc = .ok ((args.map fun op => op.ty.width).sum, 0)

/-- A call with arguments of the widths of the parameters is one. -/
theorem suits_of_fits {base : Local} {sig : MethodSignature} {args : List Operand}
    (h : (Invocation.special base sig args).Fits) (hret : sig.ret = .void) : Suits sig args := by
  refine ⟨hret, fun desc hdesc => ?_⟩
  have hwidths := methodWidths_of_fits h hdesc
  simp only [Invocation.method, hret] at hwidths
  exact hwidths

/-- A statement of a body whose code leaves the operand stack as it is, as long as no local lives
there. -/
def StackNeutral (m : Method) (b : Body) (k : StmtKind) : Prop :=
  ∀ layout labels p code p', p.slots.OffStack → lowerStmt ⟨m, b, layout, labels⟩ k p =
    .ok (code, p') → Turns 0 0 code

/-- A statement whose operands have the widths that are asked for is one, unless it takes an
exception or is a branch. -/
theorem stackNeutral_of_fits {b : Body} {k : StmtKind} (hk : k.Fits m) (hapart : k.IsApart m)
    (hlocals : ∀ l, k.Mentions l → l.Stored) (hcatch : k.isCatch = false)
    (htargets : k.targets = []) : StackNeutral m b k := by
  intro layout labels p code p' hp h
  -- Nothing changes if no object waits for its constructor.
  obtain ⟨-, -, hrun⟩ :=
    inert_lowerStmt (c := ⟨m, b, layout, labels⟩) hapart p.slots p.pending code p' h
  have hbalanced := balanced_of_lowerStmt (c := ⟨m, b, layout, labels⟩)
    (fun t ht => absurd htargets (by simp [ht, StmtKind.targets])) ?_ hp.ready hk hlocals (hrun [])
  · rw [entryDepth, hcatch] at hbalanced
    exact hbalanced.turns
  · rintro l rfl
    by_contra hreceiver
    have hopens := hapart.opens
    simp [StmtKind.opens?, hreceiver] at hopens

section Completion

/-- What the lowering keeps for a construction. -/
def waiting : Construction → Pending
  | .object l => .allocation l
  | .receiver _ => .receiver

/-- The code of a constructor call: arguments that take `width` cells, the call itself, and the
store of the object that is completed, which is on the stack once more. -/
structure Completion (con : Construction) (slots : Slots) (width : Nat) (values : List Insn)
    (call : Insn) (store : List Insn) : Prop where
  /-- The arguments are put on the stack. -/
  pushes : Turns 0 width values
  /-- They are made without calls of other constructors. -/
  quiet : Quiet values
  /-- The constructor is called. -/
  isInit : call.isInit
  /-- It takes the arguments and the object. -/
  takes : effect call = .ok (width + 1, 0)
  /-- A new object is stored in the slot of its local. -/
  stores : match con with
    | .object l => ∃ op n, slots.binding? l = some (.slot n) ∧ store = [.var op n] ∧
        effect (.var op n) = .ok (l.ty.width, 0) ∧ 1 ≤ l.ty.width
    | .receiver _ => store = []

/-- The operands that are loaded have values. -/
theorem notVoid_of_loadOperands {ops : List Operand} (h : loadOperands ops p = .ok (code, p'))
    {l : Local} (hl : l ∈ Ir.localsOf ops) (hp : p.slots.OffStack)
    (hops : ∀ l ∈ Ir.localsOf ops, Slotted l) : l.ty ≠ .void := by
  obtain ⟨codes, hcodes, -⟩ := loadOperands_run_iff.1 h
  clear h
  induction hcodes with
  | nil => cases hl
  | @cons _ _ _ op ops _ _ hop _ ih =>
    obtain ⟨hhere, hrest⟩ := forall_mem_localsOf_cons.1 hops
    -- The operands in front may give slots to locals, but put none on the operand stack.
    have htouches := (straight_of_loadOperand hhere hop).touches
    rcases List.mem_cons.1 (mem_localsOf.1 hl) with rfl | hmem
    · rintro hvoid
      obtain ⟨b, hb, hcode⟩ := loadLocal_run_iff.1 hop
      rcases moveCode_eq_ok_iff.1 hcode with ⟨rfl, -⟩ | ⟨n, o, -, ho, -⟩
      · exact hp.touches htouches _ (binding?_place hb)
      · rw [hvoid] at ho
        cases ho
    · exact ih (mem_localsOf.2 hmem) (hp.touches htouches) hrest

/-- Arguments are put on the stack, whatever objects wait for their constructors. -/
theorem turns_of_loadOperands {ops : List Operand} (h : loadOperands ops p = .ok (code, p'))
    (hp : p.slots.OffStack) (hops : ∀ l ∈ Ir.localsOf ops, Slotted l) :
    Turns 0 (ops.map fun op => op.ty.width).sum code ∧ Quiet code ∧ p'.pending = p.pending ∧
      p'.slots.OffStack := by
  obtain ⟨hquiet, hpending, hrun⟩ := inert_loadOperands ops p.slots p.pending code p' h
  have hstored : ∀ l ∈ Ir.localsOf ops, l.Stored := by
    refine fun l hl => ⟨?_, ?_, notVoid_of_loadOperands h hl hp hops⟩ <;>
      rcases hops l hl with hrole | hrole <;> simp [hrole]
  have hbalanced := balanced_of_loadOperands hp.ready hstored (hrun [])
  exact ⟨hbalanced.turns, hquiet, hpending, hbalanced.ready.notStack⟩

/-- A constructor call that suits its descriptor takes the arguments and the object. -/
theorem Suits.takes {sig : MethodSignature} {args : List Operand} {call : Insn}
    (hsuits : Suits sig args) (hsig : sig.isConstructor)
    (h : callInsn .invokespecial sig false = .ok call) :
    call.isInit ∧ effect call = .ok ((args.map fun op => op.ty.width).sum + 1, 0) := by
  obtain ⟨n, hn, rfl⟩ := map_eq_ok_iff.1 h
  obtain ⟨desc, hdesc, rfl⟩ := map_eq_ok_iff.1 hn
  refine ⟨hsig, ?_⟩
  simp only [effect, hsuits.widths desc hdesc]
  rfl

/-- A new object is stored by one instruction, in the slot of its local. -/
theorem exists_store_of_storeLocal {l : Local} (hl : Slotted l) (hp : p.slots.OffStack)
    (h : storeLocal l p = .ok (code, p')) : p'.pending = p.pending ∧
      ∃ op n, p'.slots.binding? l = some (.slot n) ∧ code = [.var op n] ∧
        effect (.var op n) = .ok (l.ty.width, 0) ∧ 1 ≤ l.ty.width := by
  obtain ⟨-, hpending, -⟩ := inert_storeLocal l p.slots p.pending code p' h
  refine ⟨hpending, ?_⟩
  obtain ⟨b, hb, hcode⟩ := storeLocal_run_iff.1 h
  have hbinding := binding?_place hb
  rcases moveCode_eq_ok_iff.1 hcode with ⟨rfl, -⟩ | ⟨n, op, rfl, hop, rfl⟩
  · exact absurd hbinding (hp.touches (touches_of_place hl hb) l)
  · refine ⟨op, n, hbinding, rfl, effect_of_storeOp hop, ?_⟩
    -- There is a store for the type of the local, so the local takes a slot.
    rw [Ty.width]
    cases hcategory : l.ty.category <;> rw [hcategory] at hop <;> cases hop <;> decide

/-- A constructor call completes the latest object that it fits, wherever that is among those that
wait. -/
theorem completion_of_run {con : Construction} {sig : MethodSignature} {args : List Operand}
    {inner outer : List Pending} (hp : p.slots.OffStack) (hsig : sig.isConstructor)
    (hargs : ∀ l ∈ Ir.localsOf args, Slotted l) (hsuits : Suits sig args) (hbase : Slotted con.base)
    (hpending : p.pending = inner ++ waiting con :: outer)
    (hinner : ∀ w ∈ inner, completes p.slots con.base w = false)
    (hcon : completes p.slots con.base (waiting con))
    (h : lowerStmt c (.invoke (.special con.base sig args)) p = .ok (code, p')) :
    ∃ width values call store, Completion con p'.slots width values call store ∧
      code = values ++ call :: store ∧ p'.pending = inner ++ outer := by
  obtain ⟨value, hvalue, rfl⟩ := lowerInvoke_run_iff.1 h
  have hpop : popOp (Invocation.special con.base sig args).method.ret.width = none := by
    rw [Invocation.method, hsuits.ret]
    rfl
  rw [hpop, Option.map_none, Option.toList_none, List.append_nil]
  obtain ⟨done, q, hdone, hvalue⟩ := lowerSpecial_run_iff.1 hvalue
  -- The call takes the object out from behind those that it does not fit.
  obtain ⟨rfl, rfl⟩ := takePending_of_append hsig hpending hinner hcon hdone
  cases con with
  | receiver l =>
    obtain ⟨values, call, hvalues, hcall, rfl⟩ := hvalue
    obtain ⟨hturns, hquiet, hpending', -⟩ := turns_of_loadOperands hvalues hp hargs
    obtain ⟨hinit, heffect⟩ := hsuits.takes hsig hcall
    exact ⟨_, values, call, [], ⟨hturns, hquiet, hinit, heffect, rfl⟩, rfl, hpending'⟩
  | object l =>
    obtain ⟨values, q, call, store, hvalues, hcall, hstore, rfl⟩ := hvalue
    obtain ⟨hturns, hquiet, hpending', hoff⟩ := turns_of_loadOperands hvalues hp hargs
    obtain ⟨hinit, heffect⟩ := hsuits.takes hsig hcall
    obtain ⟨hkeep, hstores⟩ := exists_store_of_storeLocal hbase hoff hstore
    exact ⟨_, values, call, store, ⟨hturns, hquiet, hinit, heffect, hstores⟩, by simp,
      hkeep.trans hpending'⟩

/-- The store of the object calls no constructor. -/
theorem Completion.quiet_store {con : Construction} {slots : Slots} {width : Nat}
    {values : List Insn} {call : Insn} {store : List Insn}
    (h : Completion con slots width values call store) : Quiet store := by
  have hstores := h.stores
  cases con with
  | receiver l => simp [Quiet, hstores]
  | object l =>
    obtain ⟨op, n, -, rfl, -⟩ := hstores
    simp [Quiet, Insn.isInit]

end Completion

section Shape

/-- While the given constructions are open, the latest one first, and others are below them. -/
structure Keeps (opened : List Construction) (outer : List Pending) (p : Progress) : Prop where
  /-- Their objects wait for their constructors. -/
  pending : p.pending = opened.map waiting ++ outer
  /-- No local lives on the operand stack. -/
  offStack : p.slots.OffStack
  /-- The locals that stand for the receiver still do. -/
  receivers : ∀ l, .receiver l ∈ opened → Slotted l ∧ completes p.slots l .receiver

/-- The object of an open construction is fit for a constructor call on its local. -/
theorem Keeps.completes_base {opened : List Construction} {outer : List Pending}
    (h : Keeps opened outer p) {con : Construction} (hcon : con ∈ opened) :
    completes p.slots con.base (waiting con) := by
  cases con with
  | object l => simp [completes, waiting, Construction.base]
  | receiver l => exact (h.receivers l hcon).2

/-- A local that stands for the receiver still does when places of locals are given out. -/
theorem completes_of_touches {P : Local → Prop} {s s' : Slots} {l : Local}
    (hl : Slotted l) (h : Slots.Touches P s s') (hs : completes s l .receiver) :
    completes s' l .receiver := by
  simp only [completes, Bool.or_eq_true, decide_eq_true_eq] at hs ⊢
  refine hs.imp_right fun hslot => h.binding?_keep ?_ hslot
  rcases hl with hrole | hrole <;> simp [hrole]

/-- The code of a statement, by what it does to the open constructions. The places of the locals
are those behind it. -/
inductive Shaped (m : Method) : List Construction → StmtKind → Slots → List Insn →
    List Construction → Prop
  | object {opened : List Construction} {k : StmtKind} {slots : Slots} {l : Local} {n : String} :
      k.opens? m = some (.object l) →
      Shaped m opened k slots [.type .new n, .simple .dup] (.object l :: opened)
  | receiver {opened : List Construction} {k : StmtKind} {slots : Slots} {l : Local} :
      k.opens? m = some (.receiver l) →
      Shaped m opened k slots [.var .aload 0] (.receiver l :: opened)
  | completion {opened : List Construction} {k : StmtKind} {slots : Slots} {con : Construction}
      {width : Nat} {values : List Insn} {call : Insn} {store : List Insn} :
      k.closes? = some con.base → Completion con slots width values call store →
      Shaped m (con :: opened) k slots (values ++ call :: store) opened
  | apart {opened : List Construction} {k : StmtKind} {slots : Slots} {code : List Insn} :
      k.IsApart m → Turns 0 0 code → Quiet code → Shaped m opened k slots code opened

/-- What is known of a statement of a body among nested constructions. -/
structure Behaved (m : Method) (b : Body) (k : StmtKind) : Prop where
  /-- Its locals have slots, or stand for the receiver. -/
  slotted : ∀ l, k.Mentions l → Slotted l
  /-- It leaves the operand stack as it is if it has nothing to do with constructions. -/
  neutral : k.IsApart m → StackNeutral m b k
  /-- If it calls a constructor, it does so as the descriptor asks for. -/
  suits : ∀ base sig args, k = .invoke (.special base sig args) → sig.isConstructor →
    Suits sig args

/-- A statement whose operands have the widths that are asked for behaves so, unless it takes an
exception or is a branch. -/
theorem behaved_of_fits {b : Body} {k : StmtKind}
    (hlocals : ∀ l, k.Mentions l → Slotted l ∧ l.ty ≠ .void)
    (hfits : k.opens? m = none → k.Fits m) (hcatch : k.isCatch = false)
    (htargets : k.targets = []) (hret : ∀ base sig args, k = .invoke (.special base sig args) →
      sig.isConstructor → sig.ret = .void) : Behaved m b k where
  slotted l hl := (hlocals l hl).1
  neutral hapart := by
    refine stackNeutral_of_fits (hfits hapart.opens) hapart (fun l hl => ?_) hcatch htargets
    obtain ⟨hrole, hvoid⟩ := hlocals l hl
    refine ⟨?_, ?_, hvoid⟩ <;> rcases hrole with hrole | hrole <;> simp [hrole]
  suits := by
    rintro base sig args rfl hsig
    exact suits_of_fits (hfits rfl) (hret base sig args rfl hsig)

/-- So do statements without branches and exceptions that fit, and whose constructors have no
result. -/
theorem behaved_of_forall {b : Body} {stmts : List Stmt}
    (hlocals : ∀ s ∈ stmts, ∀ l ∈ s.kind.uses ++ s.kind.def?.toList, Slotted l ∧ l.ty ≠ .void)
    (hfits : ∀ s ∈ stmts, s.kind.opens? m = none → s.kind.Fits m)
    (hkinds : ∀ s ∈ stmts, s.kind.isCatch = false ∧ s.kind.targets = [])
    (hret : ∀ s ∈ stmts, ∀ call ∈ s.kind.call?, call.method.isConstructor →
      call.method.ret = .void) : ∀ s ∈ stmts, Behaved m b s.kind := by
  intro s hs
  obtain ⟨hcatch, htargets⟩ := hkinds s hs
  refine behaved_of_fits (fun l hl => hlocals s hs l ?_) (hfits s hs) hcatch htargets ?_
  · rw [List.mem_append, Option.mem_toList]
    exact hl
  · intro base sig args hk
    exact hret s hs (.special base sig args) (by rw [hk]; rfl)

/-- A statement that opens a construction is an allocation, or takes the receiver of a
constructor. -/
theorem opens?_eq_some {k : StmtKind} {con : Construction} (h : k.opens? m = some con) :
    (∃ l n, k = .assign (.var l) (.new n) ∧ con = .object l) ∨
      ∃ l, k = .identity l .this ∧ (m.isStatic || !m.isConstructor) = false ∧
        con = .receiver l := by
  unfold StmtKind.opens? at h
  split at h
  · cases h
    exact .inl ⟨_, _, rfl, rfl⟩
  · split at h
    · cases h
    · rename_i hcond
      cases h
      exact .inr ⟨_, rfl, by simpa using hcond, rfl⟩
  · cases h

/-- A statement that closes a construction is a constructor call. -/
theorem closes?_eq_some {k : StmtKind} {l : Local} (h : k.closes? = some l) :
    ∃ sig args, k = .invoke (.special l sig args) ∧ sig.isConstructor := by
  unfold StmtKind.closes? at h
  split at h
  · split at h
    · rename_i hsig
      cases h
      exact ⟨_, _, rfl, hsig⟩
    · cases h
  · cases h

variable {b : Body} {layout : Layout} {labels : Labels} {opened opened' : List Construction}
  {outer : List Pending} {k : StmtKind}

/-- The arguments of a call are read by it, and so is its receiver. -/
theorem slotted_of_special {base : Local} {sig : MethodSignature} {args : List Operand}
    (hk : Behaved m b (.invoke (.special base sig args))) :
    Slotted base ∧ ∀ l ∈ Ir.localsOf args, Slotted l := by
  refine ⟨hk.slotted base (.inl ?_), fun l hl => hk.slotted l (.inl ?_)⟩
  · simp [StmtKind.uses, Invocation.uses, Invocation.base?]
  · simp [StmtKind.uses, Invocation.uses, Invocation.args, hl]

/-- The code of a statement among nested constructions, which opens one, closes the latest one, or
leaves the operand stack as it is. -/
theorem shaped_of_run (hk : Behaved m b k) (hnest : k.nest m opened = some opened')
    (hp : Keeps opened outer p) (h : lowerStmt ⟨m, b, layout, labels⟩ k p = .ok (code, p')) :
    Shaped m opened k p'.slots code opened' ∧ p'.pending = opened'.map waiting ++ outer := by
  rcases StmtKind.nest_eq_some_iff.1 hnest with ⟨con, hopens, rfl⟩ | ⟨con, hcloses, rfl⟩ |
    ⟨hapart, rfl⟩
  · -- What is opened waits in front of all that waited before.
    rcases opens?_eq_some hopens with ⟨l, n, rfl, rfl⟩ | ⟨l, rfl, hcond, rfl⟩
    · obtain ⟨_, q, hq, h⟩ := bind_run_iff.1 h
      obtain ⟨rfl, rfl⟩ := pure_run_iff.1 h
      obtain rfl := modify_run_iff.1 hq
      exact ⟨.object hopens, by simp [hp.pending, waiting]⟩
    · simp only [lowerStmt, lowerIdentity, hcond] at h
      obtain ⟨_, q, hq, h⟩ := bind_run_iff.1 h
      obtain ⟨rfl, rfl⟩ := pure_run_iff.1 h
      obtain rfl := modify_run_iff.1 hq
      exact ⟨.receiver hopens, by simp [hp.pending, waiting]⟩
  · obtain ⟨sig, args, rfl, hsig⟩ := closes?_eq_some hcloses
    obtain ⟨hbase, hargs⟩ := slotted_of_special hk
    have hcon := hp.completes_base List.mem_cons_self
    obtain ⟨width, values, call, store, hcompletion, rfl, hpending⟩ :=
      completion_of_run hp.offStack hsig hargs (hk.suits _ _ _ rfl hsig) hbase
        (show p.pending = [] ++ _ :: _ from hp.pending) (List.forall_mem_nil _) hcon h
    exact ⟨.completion hcloses hcompletion, hpending⟩
  · obtain ⟨hquiet, hpending, -⟩ :=
      inert_lowerStmt (c := ⟨m, b, layout, labels⟩) hapart p.slots p.pending code p' h
    exact ⟨.apart hapart (hk.neutral hapart _ _ _ _ _ hp.offStack h) hquiet,
      hpending.trans hp.pending⟩

/-- The code that opens a construction. -/
theorem Shaped.of_opens {slots : Slots} {con : Construction}
    (h : Shaped m opened k slots code opened') (hopens : k.opens? m = some con) :
    opened' = con :: opened ∧ match con with
      | .object _ => ∃ n, code = [.type .new n, .simple .dup]
      | .receiver _ => code = [.var .aload 0] := by
  cases h with
  | object hopens' =>
    cases hopens.symm.trans hopens'
    exact ⟨rfl, _, rfl⟩
  | receiver hopens' =>
    cases hopens.symm.trans hopens'
    exact ⟨rfl, rfl⟩
  | completion hcloses =>
    rw [StmtKind.opens?_of_closes? hcloses] at hopens
    cases hopens
  | apart hapart =>
    rw [hapart.opens] at hopens
    cases hopens

/-- The code that closes a construction, which is the latest one. -/
theorem Shaped.of_closes {slots : Slots} {l : Local} (h : Shaped m opened k slots code opened')
    (hcloses : k.closes? = some l) : ∃ con width values call store, opened = con :: opened' ∧
      con.base = l ∧ Completion con slots width values call store ∧
      code = values ++ call :: store := by
  cases h with
  | object hopens | receiver hopens =>
    rw [StmtKind.opens?_of_closes? hcloses] at hopens
    cases hopens
  | completion hcloses' hcompletion =>
    exact ⟨_, _, _, _, _, rfl, Option.some.inj (hcloses'.symm.trans hcloses), hcompletion, rfl⟩
  | apart hapart =>
    rw [hapart.closes] at hcloses
    cases hcloses

/-- The code of a statement that has nothing to do with constructions. -/
theorem Shaped.of_isApart {slots : Slots} (h : Shaped m opened k slots code opened')
    (hapart : k.IsApart m) : opened' = opened ∧ Turns 0 0 code ∧ Quiet code := by
  cases h with
  | object hopens | receiver hopens =>
    rw [hapart.opens] at hopens
    cases hopens
  | completion hcloses =>
    rw [hapart.closes] at hcloses
    cases hcloses
  | apart _ hturns hquiet => exact ⟨rfl, hturns, hquiet⟩

/-- Places may be given out to further locals. -/
theorem Shaped.touches {slots slots' : Slots} (h : Shaped m opened k slots code opened')
    (hk : ∀ l, k.closes? = some l → Slotted l) (htouches : Slots.Touches Slotted slots slots') :
    Shaped m opened k slots' code opened' := by
  cases h with
  | object hopens => exact .object hopens
  | receiver hopens => exact .receiver hopens
  | apart hapart hturns hquiet => exact .apart hapart hturns hquiet
  | @completion _ _ _ con _ _ _ _ hcloses h =>
    refine .completion hcloses ⟨h.pushes, h.quiet, h.isInit, h.takes, ?_⟩
    cases con with
    | receiver l => exact h.stores
    | object l =>
      obtain ⟨op, n, hslot, hstore, heffect, hwidth⟩ := h.stores
      refine ⟨op, n, htouches.binding?_keep ?_ hslot, hstore, heffect, hwidth⟩
      -- The slot of the local is not taken away, because the local is no handler.
      rcases hk l hcloses with hrole | hrole <;> simp [hrole]

/-- The code of nested statements, each behind labels and line numbers. -/
inductive Shapes (m : Method) (slots : Slots) : List Construction → List Stmt →
    List (List Insn) → List Construction → Prop
  | nil {opened : List Construction} : Shapes m slots opened [] [] opened
  | cons {opened between opened' : List Construction} {s : Stmt} {stmts : List Stmt}
      {front code : List Insn} {items : List (List Insn)} :
      (∀ i ∈ front, i.isMark) → Shaped m opened s.kind slots code between →
      Shapes m slots between stmts items opened' →
      Shapes m slots opened (s :: stmts) ((front ++ code) :: items) opened'

/-- What is known while constructions are open is known behind one more statement. -/
theorem Keeps.step (hk : Behaved m b k) (hnest : k.nest m opened = some opened')
    (hreceiver : ∀ l, k.opens? m = some (.receiver l) → completes p.slots l .receiver)
    (hp : Keeps opened outer p) (htouches : Slots.Touches Slotted p.slots p'.slots)
    (h : lowerStmt ⟨m, b, layout, labels⟩ k p = .ok (code, p')) : Keeps opened' outer p' := by
  obtain ⟨-, hpending⟩ := shaped_of_run hk hnest hp h
  refine ⟨hpending, hp.offStack.touches htouches, fun l hl => ?_⟩
  -- A local that stood for the receiver does so still, whatever places are given out.
  have hkeep : Slotted l ∧ completes p.slots l .receiver →
      Slotted l ∧ completes p'.slots l .receiver :=
    fun ⟨hslotted, hcompletes⟩ =>
      ⟨hslotted, completes_of_touches hslotted htouches hcompletes⟩
  rcases StmtKind.nest_eq_some_iff.1 hnest with ⟨con, hopens, rfl⟩ | ⟨con, -, rfl⟩ | ⟨-, rfl⟩
  · rcases List.mem_cons.1 hl with rfl | hl
    · rcases opens?_eq_some hopens with ⟨_, _, _, heq⟩ | ⟨_, rfl, _, heq⟩
      · cases heq
      · cases heq
        exact hkeep ⟨hk.slotted l (.inr rfl), hreceiver l hopens⟩
    · exact hkeep (hp.receivers l hl)
  · exact hkeep (hp.receivers l (List.mem_cons_of_mem con hl))
  · exact hkeep (hp.receivers l hl)

/-- The code of nested statements is made statement by statement. -/
theorem shapes_of_items {stmts : List Stmt} {items : List (List Insn)}
    (hitems : Items ⟨m, b, layout, labels⟩ p stmts items p') (hnest : Nests m opened stmts opened')
    (hbehaved : ∀ s ∈ stmts, Behaved m b s.kind)
    (htouch : ∀ s ∈ stmts, ∀ q code q', lowerStmt ⟨m, b, layout, labels⟩ s.kind q =
      .ok (code, q') → Slots.Touches Slotted q.slots q'.slots)
    (hreceiver : ∀ s ∈ stmts, ∀ l, s.kind.opens? m = some (.receiver l) →
      completes p.slots l .receiver)
    (hp : Keeps opened outer p) :
    Shapes m p'.slots opened stmts items opened' ∧ Keeps opened' outer p' := by
  induction hitems generalizing opened with
  | nil =>
    obtain rfl := Nests.nil_iff.1 hnest
    exact ⟨.nil, hp⟩
  | @cons _ q _ s stmts _ _ _ hfront hcode hitems ih =>
    obtain ⟨between, hs, hstmts⟩ := Nests.cons_iff.1 hnest
    obtain ⟨hk, hbehaved⟩ := List.forall_mem_cons.1 hbehaved
    obtain ⟨hhere, htouch⟩ := List.forall_mem_cons.1 htouch
    obtain ⟨htakes, hreceiver⟩ := List.forall_mem_cons.1 hreceiver
    have htouches := hhere _ _ _ hcode
    obtain ⟨hshaped, -⟩ := shaped_of_run hk hs hp hcode
    have hkeeps := Keeps.step hk hs htakes hp htouches hcode
    -- The assumption on the receiver is about the places in front of each statement.
    have hrest : ∀ s ∈ stmts, ∀ l, s.kind.opens? m = some (.receiver l) →
        completes q.slots l .receiver := by
      intro s hmem l hopens
      rcases opens?_eq_some hopens with ⟨_, _, _, heq⟩ | ⟨_, hkind, -, heq⟩
      · cases heq
      · cases heq
        refine completes_of_touches ((hbehaved s hmem).slotted l (.inr ?_)) htouches
          (hreceiver s hmem l hopens)
        rw [hkind]
        rfl
    obtain ⟨hshapes, hend⟩ := ih hstmts hbehaved htouch hrest hkeeps
    refine ⟨.cons hfront (hshaped.touches (fun l hl => ?_) (hitems.touches htouch)) hshapes, hend⟩
    obtain ⟨sig, args, hkind, -⟩ := closes?_eq_some hl
    exact (slotted_of_special (hkind ▸ hk)).1

end Shape

section Widths

/-- The cells of the objects whose constructions are open: a new object is on the operand stack
twice. -/
def cells (opened : List Construction) : Nat :=
  (opened.map fun con => if con.isReceiver then 1 else 2).sum

/-- A new object is on the stack twice. -/
theorem cells_object (l : Local) (opened : List Construction) :
    cells (.object l :: opened) = cells opened + 2 := by
  simp [cells, Construction.isReceiver, Nat.add_comm]

/-- The receiver is on the stack once. -/
theorem cells_receiver (l : Local) (opened : List Construction) :
    cells (.receiver l :: opened) = cells opened + 1 := by
  simp [cells, Construction.isReceiver, Nat.add_comm]

/-- Labels and line numbers leave the operand stack as it is. -/
theorem turns_of_isMark (h : ∀ i ∈ code, i.isMark) : Turns 0 0 code := by
  induction code with
  | nil => exact .nil
  | cons i code ih =>
    obtain ⟨hi, hrest⟩ := List.forall_mem_cons.1 h
    cases i with
    | label | lineNumber => exact .cons rfl (ih hrest)
    | _ => cases hi

/-- A constructor call takes the object from the operand stack, and the store takes it again. -/
theorem Completion.depthAfter {con : Construction} {slots : Slots} {width d e : Nat}
    {values : List Insn} {call : Insn} {store : List Insn}
    (h : Completion con slots width values call store)
    (hd : depthAfter d (values ++ call :: store) = some e) :
    match con with
    | .object l => d = e + 1 + l.ty.width ∧ 1 ≤ l.ty.width
    | .receiver _ => d = e + 1 := by
  rw [depthAfter_append, ← Nat.add_zero d, h.pushes, Option.bind_some, ← List.singleton_append,
    depthAfter_append] at hd
  obtain ⟨d', hcall, hstore⟩ := Option.bind_eq_some_iff.1 hd
  obtain ⟨pops, pushes, heffect, hpops, rfl⟩ := depthAfter_singleton_iff.1 hcall
  cases heffect.symm.trans h.takes
  cases con with
  | receiver l =>
    obtain rfl := h.stores
    cases hstore
    dsimp only
    omega
  | object l =>
    obtain ⟨op, n, -, rfl, hop, hwidth⟩ := h.stores
    obtain ⟨_, _, heffect, hpops', rfl⟩ := depthAfter_singleton_iff.1 hstore
    cases heffect.symm.trans hop
    exact ⟨by omega, hwidth⟩

variable {opened opened' : List Construction} {k : StmtKind} {slots : Slots} {stmts : List Stmt}
  {items : List (List Insn)}

/-- The new objects whose constructions are open go to locals of one slot. -/
def Narrow (opened : List Construction) : Prop :=
  ∀ l, .object l ∈ opened → l.ty.width = 1

theorem narrow_object_iff {l : Local} :
    Narrow (.object l :: opened) ↔ l.ty.width = 1 ∧ Narrow opened := by
  simp [Narrow]

theorem narrow_receiver_iff {l : Local} : Narrow (.receiver l :: opened) ↔ Narrow opened := by
  simp [Narrow]

/-- The objects that are open behind a statement go to locals of one slot if those in front of it
do, and the one that it makes. -/
theorem Shaped.narrow_behind (h : Shaped m opened k slots code opened') (hopened : Narrow opened)
    (hobject : ∀ l, k.opens? m = some (.object l) → l.ty.width = 1) : Narrow opened' := by
  cases h with
  | object hopens => exact narrow_object_iff.2 ⟨hobject _ hopens, hopened⟩
  | receiver => exact narrow_receiver_iff.2 hopened
  | completion => exact fun l hl => hopened l (List.mem_cons_of_mem _ hl)
  | apart => exact hopened

/-- A statement that leaves all that is open behind it on the operand stack has found there all that
was open in front of it. If it has found nothing else, then it leaves nothing else, and what is said
of the objects behind it holds of those in front of it, and of the one that it makes. -/
theorem Shaped.narrow (h : Shaped m opened k slots code opened') {d e : Nat}
    (hcode : depthAfter d code = some e) (hle : cells opened' ≤ e) :
    cells opened ≤ d ∧ (d = cells opened → e = cells opened' ∧ (Narrow opened' →
      Narrow opened ∧ ∀ l, k.opens? m = some (.object l) → l.ty.width = 1)) := by
  cases h with
  | @object _ _ _ l n hopens =>
    obtain rfl : d + 2 = e := Option.some.inj hcode
    rw [cells_object] at hle ⊢
    refine ⟨by omega, fun hd => ⟨by omega, fun hnarrow => ?_⟩⟩
    obtain ⟨hl, hopened⟩ := narrow_object_iff.1 hnarrow
    refine ⟨hopened, fun l' hl' => ?_⟩
    cases hopens.symm.trans hl'
    exact hl
  | @receiver _ _ _ l hopens =>
    obtain rfl : d + 1 = e := Option.some.inj hcode
    rw [cells_receiver] at hle ⊢
    refine ⟨by omega, fun hd => ⟨by omega, fun hnarrow => ?_⟩⟩
    refine ⟨narrow_receiver_iff.1 hnarrow, fun l' hl' => ?_⟩
    cases hopens.symm.trans hl'
  | @completion _ _ _ con _ _ _ _ hcloses hcompletion =>
    have hdepth := hcompletion.depthAfter hcode
    have hnone : ∀ l, k.opens? m = some (.object l) → l.ty.width = 1 := by
      intro l hl
      rw [StmtKind.opens?_of_closes? hcloses] at hl
      cases hl
    cases con with
    | receiver l =>
      dsimp only at hdepth
      rw [cells_receiver, narrow_receiver_iff]
      exact ⟨by omega, fun hd => ⟨by omega, fun hnarrow => ⟨hnarrow, hnone⟩⟩⟩
    | object l =>
      obtain ⟨hdepth, hwidth⟩ := hdepth
      rw [cells_object, narrow_object_iff]
      refine ⟨by omega, fun hd => ?_⟩
      -- The store takes what is below the object too if its local has two slots.
      have hone : l.ty.width = 1 := by omega
      exact ⟨by omega, fun hnarrow => ⟨⟨hone, hnarrow⟩, hnone⟩⟩
  | apart hapart hturns hquiet =>
    obtain rfl : d = e := Option.some.inj ((hturns d).symm.trans hcode)
    refine ⟨hle, fun hd => ⟨hd, fun hnarrow => ⟨hnarrow, fun l hl => ?_⟩⟩⟩
    rw [hapart.opens] at hl
    cases hl

/-- If nothing is open behind nested statements, the operand stack in front of them has all that is
open there, and if it has nothing else, new objects go to locals of one slot. -/
theorem Shapes.narrow (h : Shapes m slots opened stmts items []) {d e : Nat}
    (hd : depthAfter d items.flatten = some e) :
    cells opened ≤ d ∧ (d = cells opened → Narrow opened ∧
      ∀ s ∈ stmts, ∀ l, s.kind.opens? m = some (.object l) → l.ty.width = 1) := by
  generalize hnil : ([] : List Construction) = rest at h
  -- The bound is known behind the statements, so it is carried from the last one to the first one.
  induction h generalizing d with
  | nil =>
    subst hnil
    simp [cells, Narrow]
  | cons hfront hshaped _ ih =>
    rw [List.flatten_cons, List.append_assoc, depthAfter_append, ← Nat.add_zero d,
      turns_of_isMark hfront, Option.bind_some, Nat.add_zero, depthAfter_append] at hd
    obtain ⟨d', hcode, hrest⟩ := Option.bind_eq_some_iff.1 hd
    obtain ⟨hle, hbehind⟩ := ih hrest hnil
    obtain ⟨hle', hhere⟩ := hshaped.narrow hcode hle
    refine ⟨hle', fun hd => ?_⟩
    obtain ⟨hd', hstep⟩ := hhere hd
    obtain ⟨hnarrow, hstmts⟩ := hbehind hd'
    obtain ⟨hopened, hstmt⟩ := hstep hnarrow
    exact ⟨hopened, List.forall_mem_cons.2 ⟨hstmt, hstmts⟩⟩

end Widths

section Run

variable {α : Type} {f : Leavings α} {s s' : Snapshot α} {k : StmtKind} {slots : Slots}
  {opened opened' : List Construction} {stmts : List Stmt} {items : List (List Insn)}

/-- The operand stack has the objects whose constructions are open, the latest one on top, and other
cells below them. -/
inductive Stacked : List Construction → List (Cell α) → List (Cell α) → Prop
  | nil {below : List (Cell α)} : Stacked [] below below
  | object {opened : List Construction} {stack below : List (Cell α)} {l : Local} {a : Cell α} :
      Stacked opened stack below → Stacked (.object l :: opened) (a :: a :: stack) below
  | receiver {opened : List Construction} {stack below : List (Cell α)} {l : Local} {a : Cell α} :
      Stacked opened stack below → Stacked (.receiver l :: opened) (a :: stack) below

/-- An allocation leaves the new object on the stack twice. -/
theorem run_object (n : String) : s.run f [.type .new n, .simple .dup] =
    some { s with
      stack := .object s.made :: .object s.made :: s.stack
      made := s.made + 1 } := by
  have hflow : (Insn.type .new n).endsFlow = false := rfl
  rw [Snapshot.run, Snapshot.step_new, Option.bind_some, hflow, if_neg Bool.false_ne_true,
    Snapshot.run_singleton]
  exact Snapshot.step_dup rfl

/-- The receiver is put on the stack. -/
theorem run_receiver :
    s.run f [.var .aload 0] = some { s with stack := s.vars 0 :: s.stack } := by
  rw [Snapshot.run_singleton]
  exact Snapshot.step_load rfl

/-- Code that leaves the stack as it is leaves its cells as they are, and calls no constructor. -/
theorem run_apart (hturns : Turns 0 0 code) (hquiet : Quiet code) (hcode : Sequential code) :
    ∃ s', s.run f code = some s' ∧ s'.stack = s.stack ∧ s'.completed = s.completed := by
  obtain ⟨s', top', hrun, hstack, htop⟩ :=
    Snapshot.exists_run (s := s) (f := f) hcode (hturns 0) (Nat.zero_le _)
  obtain rfl := List.length_eq_zero_iff.1 htop
  exact ⟨s', hrun, hstack, Snapshot.completed_of_run hquiet hrun⟩

/-- A constructor is called on the cell on top of the stack, whatever it is. -/
theorem Completion.exists_call {con : Construction} {width : Nat} {values : List Insn}
    {call : Insn} {store : List Insn} (h : Completion con slots width values call store)
    (hcode : Sequential (values ++ call :: store)) {a : Cell α} {rest : List (Cell α)}
    (hs : s.stack = a :: rest) :
    ∃ s' : Snapshot α, s.run f (values ++ call :: store) = s'.run f store ∧
      s'.stack = rest ∧ s'.completed = a :: s.completed := by
  obtain ⟨s₁, args, hvalues, hstack₁, hargs⟩ :=
    Snapshot.exists_run (s := s) (f := f) hcode.left (h.pushes 0) (Nat.zero_le _)
  have hcompleted₁ := Snapshot.completed_of_run h.quiet hvalues
  rw [Nat.zero_add] at hargs
  rw [Nat.add_zero, List.drop_zero, hs] at hstack₁
  have hinit := Snapshot.step_init (f := f) h.isInit (hargs ▸ h.takes) hstack₁
  refine ⟨{ s₁ with stack := rest, completed := a :: s₁.completed }, ?_, rfl, by rw [hcompleted₁]⟩
  have hright := hcode.right
  rw [Snapshot.run_append hcode, hvalues, Option.bind_some]
  rw [← List.singleton_append] at hright ⊢
  rw [Snapshot.run_append hright, Snapshot.run_singleton, hinit, Option.bind_some]

/-- Its constructor is the only one that is called. -/
theorem Completion.completed_of_run {con : Construction} {width : Nat} {values : List Insn}
    {call : Insn} {store : List Insn} (h : Completion con slots width values call store)
    (hcode : Sequential (values ++ call :: store)) {a : Cell α} {rest : List (Cell α)}
    (hs : s.stack = a :: rest) (hrun : s.run f (values ++ call :: store) = some s') :
    s'.completed = a :: s.completed := by
  obtain ⟨s₁, hcall, -, hcompleted⟩ := h.exists_call (f := f) hcode hs
  rw [hcall] at hrun
  exact (Snapshot.completed_of_run h.quiet_store hrun).trans hcompleted

/-- The constructor call of a receiver does nothing else. -/
theorem Completion.exists_run_receiver {l : Local} {width : Nat} {values : List Insn} {call : Insn}
    {store : List Insn} (h : Completion (.receiver l) slots width values call store)
    (hcode : Sequential (values ++ call :: store)) {a : Cell α} {rest : List (Cell α)}
    (hs : s.stack = a :: rest) :
    ∃ s', s.run f (values ++ call :: store) = some s' ∧ s'.stack = rest ∧
      s'.completed = a :: s.completed := by
  obtain ⟨s', hrun, hstack, hcompleted⟩ := h.exists_call (f := f) hcode hs
  obtain rfl := h.stores
  exact ⟨s', hrun, hstack, hcompleted⟩

/-- The constructor call of a new object stores the cell below in the slot of its local. -/
theorem Completion.exists_run_object {l : Local} {width : Nat} {values : List Insn} {call : Insn}
    {store : List Insn} (h : Completion (.object l) slots width values call store)
    (hcode : Sequential (values ++ call :: store)) (hwidth : l.ty.width = 1) {a a' : Cell α}
    {rest : List (Cell α)} (hs : s.stack = a :: a' :: rest) :
    ∃ s' n, s.run f (values ++ call :: store) = some s' ∧ s'.stack = rest ∧
      s'.completed = a :: s.completed ∧ slots.binding? l = some (.slot n) ∧ s'.vars n = a' := by
  obtain ⟨s₁, hrun, hstack, hcompleted⟩ := h.exists_call (f := f) hcode hs
  obtain ⟨op, n, hslot, rfl, hop, -⟩ := h.stores
  rw [hwidth] at hop
  rw [Snapshot.run_singleton, Snapshot.step_store hop hstack] at hrun
  exact ⟨_, n, hrun, rfl, hcompleted, hslot, Function.update_self _ _ _⟩

/-- A statement leaves the cells below those of the open constructions as they are. -/
theorem Shaped.exists_run (h : Shaped m opened k slots code opened') (hcode : Sequential code)
    (hopened : Narrow opened) {below : List (Cell α)} (hs : Stacked opened s.stack below) :
    ∃ s', s.run f code = some s' ∧ Stacked opened' s'.stack below := by
  cases h with
  | object => exact ⟨_, run_object _, .object hs⟩
  | receiver => exact ⟨_, run_receiver, .receiver hs⟩
  | completion _ hcompletion =>
    generalize hstack : s.stack = stack at hs
    cases hs with
    | object hs =>
      have hwidth := hopened _ List.mem_cons_self
      obtain ⟨s', n, hrun, rfl, -⟩ :=
        hcompletion.exists_run_object (f := f) hcode hwidth hstack
      exact ⟨s', hrun, hs⟩
    | receiver hs =>
      obtain ⟨s', hrun, rfl, -⟩ := hcompletion.exists_run_receiver (f := f) hcode hstack
      exact ⟨s', hrun, hs⟩
  | apart _ hturns hquiet =>
    obtain ⟨s', hrun, hstack, -⟩ := run_apart (s := s) (f := f) hturns hquiet hcode
    exact ⟨s', hrun, hstack ▸ hs⟩

/-- So do nested statements. -/
theorem Shapes.exists_run (h : Shapes m slots opened stmts items opened')
    (hcode : Sequential items.flatten) (hopened : Narrow opened)
    (hstmts : ∀ s ∈ stmts, ∀ l, s.kind.opens? m = some (.object l) → l.ty.width = 1)
    {below : List (Cell α)} (hs : Stacked opened s.stack below) :
    ∃ s', s.run f items.flatten = some s' ∧ Stacked opened' s'.stack below := by
  induction h generalizing s with
  | nil => exact ⟨s, rfl, hs⟩
  | cons hfront hshaped _ ih =>
    obtain ⟨hstmt, hstmts⟩ := List.forall_mem_cons.1 hstmts
    rw [List.flatten_cons, List.append_assoc] at hcode ⊢
    obtain ⟨s', hrun, hstacked⟩ := hshaped.exists_run (f := f) hcode.right.left hopened hs
    rw [Snapshot.run_isMark_append hfront, Snapshot.run_append hcode.right, hrun, Option.bind_some]
    exact ih hcode.right.right (hshaped.narrow_behind hopened hstmt) hstmts hstacked

end Run

end BytecodeLowering.Lowering
