import BytecodeLowering.Proofs.Lowering.Disjoint

/-!
# Runs of operations on slots

What holds of the slots of a method after any operations on them, failed ones and forced moves of
locals included.

* `InPlace`: operations that change the slots where they stand. What such an operation has changed
  stays changed if it fails later on.
* `Operation`, `Operation.perform`, `Operation.perform_eq`: the operations in place, and that they
  are those on `Slots` where a failed one has changed nothing.
* `Slots.Bounded`: the slots that were taken reach behind every local, and not behind the last slot.
* `Slots.Framed`, `Slots.framed_of_ofMethod`: at the start of a method they reach behind the
  receiver and the arguments, too.
* `Operation.Binds`, `Operation.answer_ok`: what an operation binds, if it binds a local at all.
* `Slots.bounded_performAll`, `Slots.invariants_of_performAll`: what holds after any operations.
-/

namespace BytecodeLowering.Lowering

open Ir

/-- An operation that changes the slots where they stand, and that may fail in between. -/
abbrev InPlace := EStateM LowerError Slots

namespace InPlace

variable {α : Type}

/-- A step that does not change the slots. -/
def lift (x : Lowered α) : InPlace α :=
  fun s =>
    match x with
    | .ok a => .ok a s
    | .error e => .error e s

/-- An operation that changes the slots as a whole, or not at all if it fails. -/
def commit (f : Slots → Lowered (α × Slots)) : InPlace α :=
  fun s =>
    match f s with
    | .ok (a, s') => .ok a s'
    | .error e => .error e s

/-- Binds a local: the slots that it takes are counted, then the binding is entered. -/
def bind (l : Local) (b : Binding) : InPlace Unit := do
  match b with
  | .slot n =>
    let behind ← lift (slotBehind n l.slots l.name)
    modify fun s => { s with next := max s.next behind }
  | .stack => pure ()
  modify fun s => { s with bindings := (l, b) :: s.bindings.filter fun p => p.1 ≠ l }

/-- The binding of a local, made when it is first asked for. -/
def resolve (l : Local) : InPlace Binding := do
  let s ← get
  match s.binding? l with
  | some b => return b
  | none =>
    bind l (s.fresh l)
    return s.fresh l

/-- The binding of a local, by preference the one by its declaration. -/
def resolveDeclared (l : Local) : InPlace Binding := do
  let s ← get
  match s.binding? l with
  | some b => return b
  | none =>
    match s.declaredSlot? l with
    | some n =>
      bind l (.slot n)
      return .slot n
    | none => resolve l

/-- The binding of an operand, which has to be a local. -/
def resolveOperand : Operand → InPlace Binding
  | .var l => resolve l
  | .const c => throw (.slots (.constant c))

/-- Whether a local lives on the operand stack. -/
def isStackResident (l : Local) : InPlace Bool := do
  return (← resolve l) = .stack

section Commit

variable {l : Local} {b : Binding}

/-- A local is bound as a whole or not at all: the check comes before the first change. -/
theorem bind_eq : bind l b = commit fun s => (s.bind l b).map fun s' => ((), s') := by
  funext s
  cases b with
  | stack => rfl
  | slot n =>
    -- Whether the slots suffice is checked in front of both changes.
    by_cases h : n + l.slots ≤ slotLimit
    · simp [bind, commit, lift, Slots.bind, slotBehind, h, Bind.bind, EStateM.bind, modify,
        modifyGet, MonadStateOf.modifyGet, EStateM.modifyGet, Except.bind, Except.map, pure,
        Except.pure]
    · simp [bind, commit, lift, Slots.bind, slotBehind, h, Bind.bind, EStateM.bind, Except.bind,
        Except.map]

/-- A step behind the reading of the slots is taken with them. -/
theorem get_bind {α : Type} (f : Slots → InPlace α) (s : Slots) : (get >>= f) s = f s s :=
  rfl

/-- The answer of an operation can be replaced by any value. -/
theorem commit_bind_pure {α β : Type} (f : Slots → Lowered (α × Slots)) (g : α → β) :
    (commit f >>= fun a => pure (g a)) = commit fun s => (f s).map fun x => (g x.1, x.2) := by
  funext s
  simp only [commit, Bind.bind, EStateM.bind]
  cases f s <;> rfl

/-- A local is resolved as a whole or not at all. -/
theorem resolve_eq : resolve l = commit fun s => s.resolve l := by
  funext s
  rw [resolve, get_bind]
  cases hb : s.binding? l with
  | some b => simp only [commit, Slots.resolve, hb]; rfl
  | none =>
    rw [bind_eq, commit_bind_pure]
    simp only [commit, Slots.resolve, hb]
    cases s.bind l (s.fresh l) <;> rfl

/-- A local is resolved by its declaration as a whole or not at all. -/
theorem resolveDeclared_eq : resolveDeclared l = commit fun s => s.resolveDeclared l := by
  funext s
  rw [resolveDeclared, get_bind, resolve_eq]
  cases hb : s.binding? l with
  | some b => simp only [commit, Slots.resolveDeclared, Slots.resolve, hb]; rfl
  | none =>
    -- Without a declared slot, the local is resolved like any other.
    cases hn : s.declaredSlot? l with
    | none => simp only [commit, Slots.resolveDeclared, hb, hn]
    | some n =>
      simp only [bind_eq, commit_bind_pure]
      simp only [commit, Slots.resolveDeclared, hb, hn]
      cases s.bind l (.slot n) <;> rfl

/-- An operand is resolved as a whole or not at all. -/
theorem resolveOperand_eq {op : Operand} :
    resolveOperand op = commit fun s => s.resolveOperand op := by
  cases op with
  | var l => exact resolve_eq
  | const c => rfl

/-- The question whether a local is on the operand stack binds it as a whole or not at all. -/
theorem isStackResident_eq : isStackResident l = commit fun s => s.isStackResident l := by
  rw [isStackResident, resolve_eq, commit_bind_pure]
  rfl

end Commit

end InPlace

/-- An operation on the slots of a method. -/
inductive Operation where
  /-- A question about the place of a local. -/
  | ask (q : Slots.Lookup)
  /-- A local is moved to any place. -/
  | reassign (l : Local) (b : Binding)
  deriving DecidableEq, Repr

/-- What an operation answers. -/
inductive Answer where
  /-- The place of a local. -/
  | place (b : Binding)
  /-- Whether a local is on the operand stack. -/
  | resident (r : Bool)
  /-- Nothing. -/
  | done
  deriving DecidableEq, Repr

namespace Operation

/-- An operation in place. -/
def perform : Operation → InPlace Answer
  | ask (.resolve l) => do return .place (← InPlace.resolve l)
  | ask (.declared l) => do return .place (← InPlace.resolveDeclared l)
  | ask (.operand op) => do return .place (← InPlace.resolveOperand op)
  | ask (.resident l) => do return .resident (← InPlace.isStackResident l)
  | reassign l b => do
    InPlace.bind l b
    return .done

/-- The answer of an operation and the slots behind it. -/
def answer : Operation → Slots → Lowered (Answer × Slots)
  | ask (.resolve l), s => (s.resolve l).map fun x => (.place x.1, x.2)
  | ask (.declared l), s => (s.resolveDeclared l).map fun x => (.place x.1, x.2)
  | ask (.operand op), s => (s.resolveOperand op).map fun x => (.place x.1, x.2)
  | ask (.resident l), s => (s.isStackResident l).map fun x => (.resident x.1, x.2)
  | reassign l b, s => (s.bind l b).map fun s' => (.done, s')

/-- An operation in place changes the slots as a whole, or not at all if it fails. -/
theorem perform_eq (op : Operation) : op.perform = InPlace.commit op.answer := by
  cases op with
  | ask q =>
    cases q with
    | resolve l => rw [perform, InPlace.resolve_eq, InPlace.commit_bind_pure]; rfl
    | declared l => rw [perform, InPlace.resolveDeclared_eq, InPlace.commit_bind_pure]; rfl
    | operand op => rw [perform, InPlace.resolveOperand_eq, InPlace.commit_bind_pure]; rfl
    | resident l => rw [perform, InPlace.isStackResident_eq, InPlace.commit_bind_pure]; rfl
  | reassign l b =>
    rw [perform, InPlace.bind_eq, InPlace.commit_bind_pure]
    funext s
    simp only [InPlace.commit, answer]
    cases s.bind l b <;> rfl

/-- An operation in place succeeds as it does on the slots. -/
theorem perform_ok_iff {s s' : Slots} {op : Operation} {x : Answer} :
    op.perform s = .ok x s' ↔ op.answer s = .ok (x, s') := by
  rw [perform_eq, InPlace.commit]
  cases op.answer s <;> simp [Prod.ext_iff]

/-- An operation in place that fails has changed nothing. -/
theorem eq_of_perform_error {s s' : Slots} {op : Operation} {e : LowerError}
    (h : op.perform s = .error e s') : s' = s := by
  rw [perform_eq, InPlace.commit] at h
  cases ha : op.answer s with
  | ok x =>
    rw [ha] at h
    cases h
  | error e =>
    rw [ha] at h
    cases h
    rfl

/-- The slots behind an operation, whether it fails or not. -/
def slotsAfter (s : Slots) (op : Operation) : Slots :=
  match op.perform s with
  | .ok _ s' | .error _ s' => s'

/-- A binding that an operation makes. -/
inductive Binds (s : Slots) : Operation → Local → Binding → Prop
  /-- A local without a place gets that of its role. -/
  | fresh {q : Slots.Lookup} {l : Local} : q.local? = some l → s.binding? l = none →
      Binds s (ask q) l (s.fresh l)
  /-- A local without a place gets the slot by its declaration. -/
  | declared {l : Local} {n : Nat} : s.binding? l = none → s.declaredSlot? l = some n →
      Binds s (ask (.declared l)) l (.slot n)
  /-- A local is moved. -/
  | move {l : Local} {b : Binding} : Binds s (reassign l b) l b

variable {s s' : Slots} {op : Operation} {l : Local} {b : Binding} {x : Answer}

/-- An operation that succeeds binds at most one local. -/
theorem answer_ok (h : op.answer s = .ok (x, s')) :
    s = s' ∨ ∃ l b, op.Binds s l b ∧ s.bind l b = .ok s' := by
  -- A local that is resolved had a place, or is bound to a fresh one.
  have hresolve : ∀ {q : Slots.Lookup} {l : Local} {b : Binding} {s' : Slots},
      q.local? = some l → s.resolve l = .ok (b, s') →
      s = s' ∨ ∃ l b, Binds s (ask q) l b ∧ s.bind l b = .ok s' := by
    intro q l b s' hq hb
    rcases Slots.resolve_ok_iff.1 hb with ⟨-, rfl⟩ | ⟨hnone, rfl, hbind⟩
    · exact .inl rfl
    · exact .inr ⟨l, _, .fresh hq hnone, hbind⟩
  cases op with
  | ask q =>
    cases q with
    | resolve l =>
      obtain ⟨⟨b, _⟩, hl, ⟨⟩⟩ := map_eq_ok_iff.1 h
      exact hresolve rfl hl
    | declared l =>
      obtain ⟨⟨b, _⟩, hl, ⟨⟩⟩ := map_eq_ok_iff.1 h
      rcases Slots.resolveDeclared_ok hl with ⟨n, hnone, hslot, rfl, hbind⟩ | hl
      · exact .inr ⟨l, .slot n, .declared hnone hslot, hbind⟩
      · exact hresolve rfl hl
    | operand op =>
      obtain ⟨⟨b, _⟩, hop, ⟨⟩⟩ := map_eq_ok_iff.1 h
      cases op with
      | var l => exact hresolve rfl hop
      | const c => cases hop
    | resident l =>
      obtain ⟨⟨r, _⟩, hl, ⟨⟩⟩ := map_eq_ok_iff.1 h
      obtain ⟨⟨b, _⟩, hl, ⟨⟩⟩ := map_eq_ok_iff.1 hl
      exact hresolve rfl hl
  | reassign l b =>
    obtain ⟨_, hbind, ⟨⟩⟩ := map_eq_ok_iff.1 h
    exact .inr ⟨l, b, .move, hbind⟩

/-- The slots behind an operation are the same as before, or a local was bound in them. -/
theorem slotsAfter_cases (s : Slots) (op : Operation) :
    slotsAfter s op = s ∨ ∃ l b, op.Binds s l b ∧ s.bind l b = .ok (slotsAfter s op) := by
  unfold slotsAfter
  rw [perform_eq, InPlace.commit]
  cases h : op.answer s with
  | error e => exact .inl rfl
  | ok r =>
    rcases answer_ok h with heq | hbind
    · exact .inl heq.symm
    · exact .inr hbind

end Operation

namespace Slots

variable {s s' start : Slots} {l l' : Local} {b x : Binding} {n n' : Nat} {ops : List Operation}

/-- The slots that were taken reach behind every local, and not behind the last slot. -/
structure Bounded (s : Slots) : Prop where
  /-- The slots that were taken reach behind every local. -/
  slot_le : ∀ l n, s.binding? l = some (.slot n) → n + l.slots ≤ s.next
  /-- They do not reach behind the last slot. -/
  next_le : s.next ≤ slotLimit

namespace Bounded

/-- A local may be bound to any place where it ends within the slots of a method. -/
theorem bind (hs : Bounded s) (h : s.bind l b = .ok s') : Bounded s' := by
  refine ⟨slot_le_next_of_bind h hs.slot_le, ?_⟩
  obtain ⟨hle, rfl⟩ := bind_ok_iff.1 h
  exact Nat.max_le.2 ⟨hs.next_le, hle⟩

/-- Nothing is bound at first. -/
theorem empty : Bounded {} :=
  ⟨by simp [binding?], Nat.zero_le _⟩

end Bounded

/-- The slots of parameters end within the slots of a method. -/
theorem paramSlots_le {owner : String} {slot behind : Nat} {ts : List Ty} {slots : List Nat}
    (hslot : slot ≤ slotLimit) (h : paramSlots owner slot ts = .ok (slots, behind)) :
    behind ≤ slotLimit := by
  induction ts generalizing slot slots with
  | nil =>
    cases h
    exact hslot
  | cons t ts ih =>
    -- The check of each parameter keeps what is behind it within the limit.
    obtain ⟨hle, rest, hrest, -⟩ := paramSlots_cons_eq_ok_iff.1 h
    exact ih hle hrest

/-- The slots that were taken reach behind every local, every argument and the receiver. -/
structure Framed (m : Method) (s : Slots) : Prop extends Bounded s where
  /-- They reach behind every argument. -/
  argument_le : ∀ index n t, s.param? index = some n → m.params[index]? = some t →
    n + t.width ≤ s.next
  /-- They reach behind the receiver, if there is one. -/
  receiver_le : m.isStatic = false → 1 ≤ s.next

/-- Binding a local leaves no slot behind. -/
theorem Framed.bind {m : Method} (hs : Framed m s) (h : s.bind l b = .ok s') :
    Framed m s' := by
  have hle := next_le_of_bind h
  have hbounded := hs.toBounded.bind h
  obtain ⟨-, rfl⟩ := bind_ok_iff.1 h
  exact
    { toBounded := hbounded
      argument_le := fun index n t hn ht => Nat.le_trans (hs.argument_le index n t hn ht) hle
      receiver_le := fun hstatic => Nat.le_trans (hs.receiver_le hstatic) hle }

/-- At the start of a method the slots that were taken reach behind everything that it was entered
with. -/
theorem framed_of_ofMethod {m : Method} {body : Body} (h : ofMethod m body = .ok start) :
    Framed m start := by
  obtain ⟨⟨params, behind⟩, hslots, h⟩ := bind_eq_ok_iff.1 h
  refine foldlM_induct h ?_ fun x _ s s' hs hx => ?_
  · have hlimit : behind ≤ slotLimit := by
      refine paramSlots_le ?_ hslots
      split <;> decide
    obtain ⟨rfl, rfl⟩ := paramSlots_eq_ok hslots
    refine
      { slot_le := by simp [binding?], next_le := hlimit, argument_le := ?_, receiver_le := ?_ }
    · -- A parameter starts behind those in front of it, and the slots begin behind the last one.
      intro index n t hn ht
      have hle := argumentPlace_add_le_length ht
      obtain ⟨i, hi, rfl⟩ : ∃ i, (List.range m.params.length)[index]? = some i ∧
          (if m.isStatic then 0 else 1) + argumentPlace m.params i = n := by
        simpa [param?] using hn
      obtain rfl : index = i := by
        obtain ⟨hlt, heq⟩ := List.getElem?_eq_some_iff.1 hi
        simpa using heq
      show _ ≤ (if m.isStatic then 0 else 1) + argumentPlace m.params m.params.length
      omega
    · intro hstatic
      simp [hstatic]
  · rcases seed_ok hx with rfl | ⟨l, source, n, -, -, -, hbind⟩
    · exact hs
    · exact hs.bind hbind

/-- The slots behind operations, of which some may fail. -/
def performAll (ops : List Operation) (s : Slots) : Slots :=
  ops.foldl Operation.slotsAfter s

/-- Operations keep what every binding keeps that they make. -/
theorem performAll_induct {P : Slots → Prop} (hs : P s)
    (hstep : ∀ op ∈ ops, ∀ s s' l b, op.Binds s l b → s.bind l b = .ok s' → P s → P s') :
    P (performAll ops s) := by
  induction ops generalizing s with
  | nil => exact hs
  | cons op ops ih =>
    refine ih ?_ fun op' hop => hstep op' (List.mem_cons_of_mem _ hop)
    rcases Operation.slotsAfter_cases s op with heq | ⟨l, b, hbinds, hbind⟩
    · rw [heq]
      exact hs
    · exact hstep op List.mem_cons_self _ _ l b hbinds hbind hs

/-- Operations keep the slots bounded. -/
theorem bounded_performAll (hs : Bounded s) : Bounded (performAll ops s) :=
  performAll_induct hs fun _ _ _ _ _ _ _ hbind hs => hs.bind hbind

/-- Operations give up no slot that was taken. -/
theorem next_le_performAll : s.next ≤ (performAll ops s).next :=
  performAll_induct (P := fun s' => s.next ≤ s'.next) (Nat.le_refl _)
    fun _ _ _ _ _ _ _ hbind hle => Nat.le_trans hle (next_le_of_bind hbind)

/-- Operations leave a local with a place there, unless one of them moves it. -/
theorem binding?_performAll (hl : s.binding? l = some b)
    (hops : ∀ b', .reassign l b' ∉ ops) : (performAll ops s).binding? l = some b := by
  refine performAll_induct (P := fun s' => s'.binding? l = some b) hl ?_
  intro op hop s s' l' b' hbinds hbind hl
  have hne : l ≠ l' := by
    rintro rfl
    -- Only a local without a place, or one that is moved, is bound.
    cases hbinds with
    | fresh _ hnone => simp [hnone] at hl
    | declared hnone _ => simp [hnone] at hl
    | move => exact hops _ hop
  rw [binding?_bind hbind, if_neg hne, hl]

/-- The span of a local is apart from that of another one if one of them ends where the other one
starts, or before. -/
theorem disjoint_span (h : n + l.slots ≤ n' ∨ n' + l'.slots ≤ n) :
    Disjoint (span l n) (span l' n') := by
  rw [span, span, Set.Ico_disjoint_Ico]
  simp only [Local.slots] at h
  omega

/-- A slot that is chosen for a local without a place is free, if the local does not stand for the
receiver. -/
theorem disjoint_of_binds {q : Lookup} (hs : Bounded s) (h : (Operation.ask q).Binds s l b)
    (hrole : l.role = .ordinary ∨ l.role = .handlerRef) (hb : b = .slot n)
    (hl' : s.binding? l' = some (.slot n')) : Disjoint (span l n) (span l' n') := by
  refine disjoint_span ?_
  cases h with
  | fresh =>
    have hfresh : s.fresh l = .slot s.next := by
      rcases hrole with hrole | hrole <;> simp [fresh, hrole]
    cases hfresh.symm.trans hb
    exact .inr (hs.slot_le l' n' hl')
  | declared _ hslot =>
    cases hb
    exact (declaredSlot?_eq_some hslot).2.2 l' n' hl'

/-- A question about a local binds no other one. -/
theorem eq_of_binds {q : Lookup} (hq : q.local? = some l)
    (h : (Operation.ask q).Binds s l' b) : l' = l := by
  cases h with
  | fresh hq' => exact Option.some.inj (hq'.symm.trans hq)
  | declared => exact Option.some.inj hq

/-- A slot that a local without a place gets by a question is free, if the local does not stand for
the receiver. -/
theorem disjoint_of_answer {q : Lookup} {a : Answer} (hs : Bounded s) (hq : q.local? = some l)
    (hrole : l.role = .ordinary ∨ l.role = .handlerRef) (hnone : s.binding? l = none)
    (h : (Operation.ask q).answer s = .ok (a, s')) (hn : s'.binding? l = some (.slot n))
    (hl' : s.binding? l' = some (.slot n')) : Disjoint (span l n) (span l' n') := by
  rcases Operation.answer_ok h with rfl | ⟨l₁, b, hbinds, hbind⟩
  · rw [hnone] at hn
    cases hn
  · obtain rfl := eq_of_binds hq hbinds
    rw [binding?_bind hbind, if_pos rfl] at hn
    exact disjoint_of_binds hs hbinds hrole (Option.some.inj hn) hl'

/-- A local has the place that it resolves to by its declaration from then on. -/
theorem binding?_resolveDeclared (h : s.resolveDeclared l = .ok (b, s')) :
    s'.binding? l = some b := by
  rcases resolveDeclared_ok h with ⟨n, -, -, -, hbind⟩ | h
  · rw [binding?_bind hbind, if_pos rfl]
  · exact binding?_resolve h

/-- The slots of a method after any operations on them, from none or from those of a method at its
start: they reach behind every local, and not behind the last slot. Whatever comes later, no slot is
given up, and a local with a place stays there unless it is moved. A slot chosen for a local that
does not stand for the receiver is free, and an operation that fails changes nothing. -/
theorem invariants_of_performAll
    (hstart : start = {} ∨ ∃ m body, ofMethod m body = .ok start)
    (hs : performAll ops start = s) :
    (∀ l n, s.binding? l = some (.slot n) → n + max l.ty.width 1 ≤ s.next) ∧ s.next ≤ 65535 ∧
    (∀ later, s.next ≤ (performAll later s).next ∧ ∀ l b, s.binding? l = some b →
      (∀ b', .reassign l b' ∉ later) → (performAll later s).binding? l = some b) ∧
    (∀ l n s', l.role = .ordinary ∨ l.role = .handlerRef → s.binding? l = none →
      (Operation.ask (.resolve l)).perform s = .ok (.place (.slot n)) s' ∨
        (Operation.ask (.declared l)).perform s = .ok (.place (.slot n)) s' →
      s'.binding? l = some (.slot n) ∧
        ∀ l' n', s.binding? l' = some (.slot n') → Disjoint (span l n) (span l' n')) ∧
    ∀ op : Operation, ∀ e s', op.perform s = .error e s' → s' = s := by
  have hbounded : Bounded s := by
    rw [← hs]
    refine bounded_performAll ?_
    rcases hstart with rfl | ⟨m, body, hstart⟩
    · exact .empty
    · exact (framed_of_ofMethod hstart).toBounded
  refine ⟨hbounded.slot_le, hbounded.next_le, fun later => ⟨next_le_performAll, ?_⟩, ?_, ?_⟩
  · intro l b hl hlater
    exact binding?_performAll hl hlater
  · intro l n s' hrole hnone h
    rcases h with h | h <;> rw [Operation.perform_ok_iff] at h
    · obtain ⟨⟨_, _⟩, hl, ⟨⟩⟩ := map_eq_ok_iff.1 h
      have hn := binding?_resolve hl
      exact ⟨hn, fun l' n' hl' => disjoint_of_answer hbounded rfl hrole hnone h hn hl'⟩
    · obtain ⟨⟨_, _⟩, hl, ⟨⟩⟩ := map_eq_ok_iff.1 h
      have hn := binding?_resolveDeclared hl
      exact ⟨hn, fun l' n' hl' => disjoint_of_answer hbounded rfl hrole hnone h hn hl'⟩
  · intro op e s' h
    exact Operation.eq_of_perform_error h

section Forced

/-- A local that takes one slot. -/
def lateNarrow : Local := ⟨"y", .prim .int, .ordinary⟩

/-- A local that takes two slots. -/
def lateWide : Local := ⟨"z", .prim .long, .ordinary⟩

/-- Operations on the slots of `mix` that move one local over another, and one close to the last
slot. -/
def forced : List Operation :=
  [.ask (.declared mixWide), .reassign mixNarrow (.slot 5), .reassign mixInt (.slot 65533)]

/-- `invariants_of_performAll` at moves that leave a single slot: it is taken by a narrow local, and
the operation that asks for a wide one fails. -/
theorem forced_invariants : ∃ start s s' s'' e, ofMethod mix mixBody = .ok start ∧
    performAll forced start = s ∧ s.next = 65534 ∧
    (Operation.ask (.resolve lateNarrow)).perform s = .ok (.place (.slot 65534)) s' ∧
    Disjoint (span lateNarrow 65534) (span mixInt 65533) ∧
    s.binding? mixWide = some (.slot 5) ∧
    (performAll [.reassign mixNarrow .stack] s).binding? mixWide = some (.slot 5) ∧
    (Operation.ask (.declared lateWide)).perform s = .error e s'' ∧ s'' = s := by
  obtain ⟨-, -, hlater, hfree, hfailed⟩ :=
    invariants_of_performAll (.inr ⟨mix, mixBody, rfl⟩) (rfl : performAll forced _ = _)
  refine ⟨_, _, _, _, _, rfl, rfl, rfl, rfl, ?_, rfl, ?_, rfl, ?_⟩
  · exact (hfree lateNarrow 65534 _ (.inl rfl) rfl (.inl rfl)).2 mixInt 65533 rfl
  · exact (hlater _).2 mixWide _ rfl (by simp [mixWide, mixNarrow])
  · exact hfailed (.ask (.declared lateWide)) _ _ rfl

end Forced

end Slots

end BytecodeLowering.Lowering
