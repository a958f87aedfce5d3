import BytecodeLowering.Proofs.Lowering.Access

/-!
# Footprints of statements

The locals that a statement names bound what its lowering does: which locals get other places, and
which slots its code loads from and stores to.

* `Opcode.isLoad`, `Opcode.isStore`: the operations on local variables.
* `Reads`, `Writes`, `NamesArgument`: what a statement names.
* `InSlot`: a local is in a slot while the code of a statement is emitted.
* `footprint`, `covers_footprint`: what a statement names is all that its code accesses.
* `lowerStmt_footprint`: the places, the loads and the stores of a statement.
-/

namespace BytecodeLowering.Machine.Opcode

/-- Whether the operation pushes the value of a local variable. -/
def isLoad : Opcode → Bool
  | iload | lload | fload | dload | aload => true
  | _ => false

/-- Whether the operation pops a value into a local variable. -/
def isStore : Opcode → Bool
  | istore | lstore | fstore | dstore | astore => true
  | _ => false

/-- No operation does both. -/
theorem isStore_of_isLoad {o : Opcode} (h : o.isLoad = true) : o.isStore = false := by
  cases o <;> first | rfl | cases h

end BytecodeLowering.Machine.Opcode

namespace BytecodeLowering.Lowering

open Ir Machine

/-- The locals that the code of a statement may read: those that the statement uses, and those that
a return uses which stands in the place of a goto. -/
def Reads (c : MethodContext) (k : StmtKind) (l : Local) : Prop :=
  l ∈ k.uses ∨ ∃ x, InlinedReturn c k x ∧ l ∈ x.kind.uses

/-- The locals that the code of a statement may write: the one that the statement assigns, and the
one of a new object that a constructor call completes. -/
def Writes (p : Progress) (k : StmtKind) (l : Local) : Prop :=
  k.def? = some l ∨ ∃ sig args, k.call? = some (.special l sig args) ∧ Allocates p l sig

/-- An identity statement names the argument in a slot: the receiver, which is in the first one, or
a parameter. -/
def NamesArgument (s : Slots) (k : StmtKind) (n : Nat) : Prop :=
  (∃ l, k = .identity l .this ∧ n = 0) ∨
    ∃ l index t, k = .identity l (.parameter index t) ∧ s.param? index = some n

/-- A local is in a slot behind a change to the places of locals, and it was there before if it had
a place at all. -/
def InSlot (s s' : Slots) (l : Local) (n : Nat) : Prop :=
  s'.binding? l = some (.slot n) ∧ ∀ b, s.binding? l = some b → b = .slot n

/-- What the code of a statement may access. -/
def footprint (c : MethodContext) (p : Progress) (k : StmtKind) : Scope where
  reads := Reads c k
  writes := Writes p k
  takes source := ∃ l, k = .identity l source

variable {c : MethodContext} {p p' : Progress} {k : StmtKind} {code : List Insn} {l : Local}
  {cat : Category} {o : Opcode} {n : Nat} {s s' : Slots}

theorem isLoad_of_loadOp (h : loadOp cat = .ok o) : o.isLoad = true := by
  cases cat <;> cases h <;> rfl

theorem isStore_of_storeOp (h : storeOp cat = .ok o) : o.isStore = true := by
  cases cat <;> cases h <;> rfl

/-- It is all that the code accesses. -/
theorem covers_footprint (c : MethodContext) (p : Progress) (k : StmtKind) :
    (footprint c p k).Covers c p k where
  uses _ hl := .inl hl
  returns x hx _ hl := .inr ⟨x, hx, hl⟩
  defines _ hl := .inl hl
  completes _ sig args hcall hallocates := .inr ⟨sig, args, hcall, hallocates⟩
  names l _ hk := ⟨l, hk⟩

/-- The local that a constructor is called on is one that the statement uses. -/
theorem mem_uses_of_call? {sig : MethodSignature} {args : List Operand}
    (h : k.call? = some (.special l sig args)) : l ∈ k.uses := by
  unfold StmtKind.call? at h
  split at h
  · cases h
    simp [StmtKind.uses, Invocation.uses, Invocation.base?]
  · cases h
    simp [StmtKind.uses, Expr.uses, Invocation.uses, Invocation.base?]
  · cases h

/-- A statement names the locals that it uses, or a return in its place, and the one that it
assigns. -/
theorem reads_or_def_of_names (h : (footprint c p k).names l) : Reads c k l ∨ k.def? = some l := by
  rcases h with hreads | hdef | ⟨sig, args, hcall, -⟩
  · exact .inl hreads
  · exact .inr hdef
  · exact .inl (.inl (mem_uses_of_call? hcall))

/-- A place that is kept is the one that the local had before. -/
theorem inSlot_of_fills {P : Local → Prop} (h : Slots.Fills P s s')
    (hn : s'.binding? l = some (.slot n)) : InSlot s s' l n := by
  refine ⟨hn, fun b hb => ?_⟩
  have hkept : s'.binding? l = some b := h.keeps l b hb
  rw [hn] at hkept
  exact (Option.some.inj hkept).symm

/-- An access to a local variable loads a local that is read, or an argument that is named, or it
stores a local that is written. -/
theorem load_or_store_of_access {m : Method} (hfills : Slots.Fills (footprint c p k).names s s')
    (h : Access m (footprint c p k) s' (.var o n)) :
    o.isLoad = true ∧ ((∃ l, Reads c k l ∧ InSlot s s' l n) ∨ NamesArgument s k n) ∨
      o.isStore = true ∧ ∃ l, Writes p k l ∧ InSlot s s' l n := by
  cases h with
  | other hi => cases hi
  | @read l _ _ hl hn ho =>
    have hload : o.isLoad = true := by
      rcases ho with ho | rfl
      · exact isLoad_of_loadOp ho
      · rfl
    exact .inl ⟨hload, .inl ⟨l, hl, inSlot_of_fills hfills hn⟩⟩
  | @write l _ _ hl hn ho =>
    exact .inr ⟨isStore_of_storeOp ho, l, hl, inSlot_of_fills hfills hn⟩
  | @argument index _ _ t' _ htakes hn _ ho =>
    obtain ⟨l, hk⟩ := htakes
    -- The slots of the arguments are the same as before.
    have hparam : s.param? index = some n := by
      rw [Slots.param?, ← hfills.touches.fixed.1]
      exact hn
    exact .inl ⟨isLoad_of_loadOp ho, .inr (.inr ⟨l, index, t', hk, hparam⟩)⟩
  | receiver htakes _ =>
    obtain ⟨l, hk⟩ := htakes
    exact .inl ⟨rfl, .inr (.inl ⟨l, hk, rfl⟩)⟩

/-- The locals that a statement names bound what its lowering does. Every local that it does not
name keeps its place, or has none as before. Every instruction on a local variable is a load or a
store. Each load is from the slot of a local that is read, or from that of the argument that an
identity statement names; each store is to the slot of a local that is written. -/
theorem lowerStmt_footprint (h : lowerStmt c k p = .ok (code, p')) :
    (∀ l, ¬ Reads c k l → k.def? ≠ some l → p'.slots.binding? l = p.slots.binding? l) ∧
    (∀ o n, .var o n ∈ code → o.isLoad = true ∨ o.isStore = true) ∧
    (∀ o n, .var o n ∈ code → o.isLoad = true →
      (∃ l, Reads c k l ∧ InSlot p.slots p'.slots l n) ∨ NamesArgument p.slots k n) ∧
    (∀ o n, .var o n ∈ code → o.isStore = true →
      ∃ l, Writes p k l ∧ InSlot p.slots p'.slots l n) := by
  have hlowered := unmoved_or_silent_of_lowerStmt rfl (covers_footprint c p k) h
  have htouches : Slots.Touches (footprint c p k).names p.slots p'.slots := by
    rcases hlowered with hunmoved | ⟨-, hsilent⟩
    · exact hunmoved.fills.touches
    · exact hsilent
  have haccess : ∀ o n, .var o n ∈ code →
      o.isLoad = true ∧ ((∃ l, Reads c k l ∧ InSlot p.slots p'.slots l n) ∨
        NamesArgument p.slots k n) ∨
      o.isStore = true ∧ ∃ l, Writes p k l ∧ InSlot p.slots p'.slots l n := by
    intro o n hi
    rcases hlowered with hunmoved | ⟨rfl, -⟩
    · exact load_or_store_of_access hunmoved.fills (hunmoved.access _ hi)
    · -- A local that is moved is moved without code.
      cases hi
  refine ⟨fun l hreads hdef => ?_, fun o n hi => ?_, fun o n hi hload => ?_,
    fun o n hi hstore => ?_⟩
  · refine htouches.binding?_eq fun hnames => ?_
    rcases reads_or_def_of_names hnames with h | h
    · exact hreads h
    · exact hdef h
  · exact (haccess o n hi).imp And.left And.left
  · rcases haccess o n hi with ⟨-, hslot⟩ | ⟨hstore, -⟩
    · exact hslot
    · rw [Opcode.isStore_of_isLoad hload] at hstore
      cases hstore
  · rcases haccess o n hi with ⟨hload, -⟩ | ⟨-, hslot⟩
    · rw [Opcode.isStore_of_isLoad hload] at hstore
      cases hstore
    · exact hslot

section Parcel

/-- A new object whose constructor is called. -/
def parcelBox : Local := ⟨"box", .object ⟨"Box"⟩, .ordinary⟩

/-- What the constructor is given. -/
def parcelSize : Local := ⟨"size", .prim .int, .ordinary⟩

/-- The call of the constructor. -/
def parcelCall : StmtKind :=
  .invoke (.special parcelBox ⟨⟨"Box"⟩, "<init>", [.prim .int], .void⟩ [.var parcelSize])

/-- The method that the call is in. -/
def parcelContext : MethodContext where
  method := ⟨"wrap", [], [.prim .int], .void, [], none, none⟩
  body := ⟨[], [], ⟨[]⟩⟩
  layout := ⟨[], [], [], [], [], []⟩
  labels := ⟨[], none⟩

/-- The object waits for its constructor and has no slot yet. -/
def parcelStart : Progress where
  slots := { bindings := [(parcelSize, .slot 1)], next := 2 }
  pending := [.allocation parcelBox]

/-- The object is in a slot. -/
def parcelEnd : Progress where
  slots := { bindings := [(parcelBox, .slot 2), (parcelSize, .slot 1)], next := 3 }
  pending := []

/-- The code of the call. -/
def parcelCode : List Insn :=
  [.var .iload 1, .method .invokespecial "Box" "<init>" "(I)V" false, .var .astore 2]

/-- `lowerStmt_footprint` at a call that completes a new object: the argument is loaded from its
slot, and the object is stored in the slot that its local gets. -/
theorem parcel_footprint :
    lowerStmt parcelContext parcelCall parcelStart = .ok (parcelCode, parcelEnd) ∧
      (∃ l, Reads parcelContext parcelCall l ∧
        InSlot parcelStart.slots parcelEnd.slots l 1) ∧
      ∃ l, Writes parcelStart parcelCall l ∧ InSlot parcelStart.slots parcelEnd.slots l 2 := by
  have hrun : lowerStmt parcelContext parcelCall parcelStart = .ok (parcelCode, parcelEnd) := rfl
  obtain ⟨-, -, hloads, hstores⟩ := lowerStmt_footprint hrun
  refine ⟨hrun, ?_, hstores .astore 2 (by simp [parcelCode]) rfl⟩
  rcases hloads .iload 1 (by simp [parcelCode]) rfl with hread | hargument
  · exact hread
  · -- A call is no identity statement.
    rcases hargument with ⟨l, hk, -⟩ | ⟨l, index, t, hk, -⟩ <;> cases hk

end Parcel

end BytecodeLowering.Lowering
