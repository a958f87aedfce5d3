import BytecodeLowering.Lowering.Error

/-!
# Slots of locals

Where the locals of a method live while it is lowered.

* `Binding`: a numbered slot, or the operand stack.
* `Slots`: the bindings made so far.
* `Slots.ofMethod`: the slots of a method at its start: the receiver and the parameters are bound.
* `Slots.resolve`: the binding of a local, made when it is first asked for.
* `Slots.resolveDeclared`: the same, but by preference in the order of declaration.

There are 65535 slots; a local that would reach behind them has no place.
-/

namespace BytecodeLowering.Lowering

open Ir

/-- Where a local lives. -/
inductive Binding where
  /-- In a slot, and in the one behind it if the local takes two. -/
  | slot (n : Nat)
  /-- On the operand stack, between its assignment and its use. -/
  | stack
  deriving DecidableEq, Repr

/-- The text of a binding. -/
def Binding.render : Binding → String
  | slot n => "slot " ++ toString n
  | stack => "stack"

/-- The bindings of a method. -/
structure Slots where
  /-- The locals that are bound. -/
  bindings : List (Local × Binding) := []
  /-- The slot behind all that were taken. -/
  next : Nat := 0
  /-- The slots of the parameters. -/
  params : List Nat := []
  /-- The first slot behind the parameters. -/
  first : Nat := 0
  /-- The locals that are assigned, the one assigned last first. -/
  declared : List Local := []
  deriving Repr

/-- The number of slots of a method. -/
def slotLimit : Nat := 65535

/-- The slot behind a value. -/
def slotBehind (slot width : Nat) (owner : String) : Lowered Nat :=
  if slot + width ≤ slotLimit then .ok (slot + width)
  else .error (.slots (.exhausted owner slot width))

/-- The slots of parameters from a slot on, and the slot behind them. -/
def paramSlots (owner : String) (slot : Nat) : List Ty → Lowered (List Nat × Nat)
  | [] => .ok ([], slot)
  | t :: ts => do
    let next ← slotBehind slot t.width owner
    let (slots, behind) ← paramSlots owner next ts
    return (slot :: slots, behind)

namespace Slots

/-- The binding of a local, if it has one. -/
def binding? (s : Slots) (l : Local) : Option Binding :=
  s.bindings.lookup l

/-- Binds a local, or binds it anew. -/
def bind (s : Slots) (l : Local) (b : Binding) : Lowered Slots := do
  let next ←
    match b with
    | .slot n => (slotBehind n l.slots l.name).map (max s.next)
    | .stack => pure s.next
  return { s with bindings := (l, b) :: s.bindings.filter fun p => p.1 ≠ l, next := next }

/-- The slot of a parameter. -/
def param? (s : Slots) (index : Nat) : Option Nat :=
  s.params[index]?

/-- The place where an identity statement finds its value, if the local can stay there. -/
def home? (s : Slots) (isStatic : Bool) (l : Local) : Source → Option Nat
  | .this => if isStatic then none else some 0
  | .parameter index _ => if l.role = .stackTemp then none else s.param? index
  | .caughtException => none

/-- Binds the local of an identity statement to the place of its value. -/
def seed (isStatic : Bool) (s : Slots) : Stmt → Lowered Slots
  | ⟨_, _, .identity l source⟩ =>
    -- The first identity statement of a local decides.
    match s.binding? l, s.home? isStatic l source with
    | none, some n => s.bind l (.slot n)
    | _, _ => .ok s
  | _ => .ok s

/-- The slots of a method at its start. The receiver takes slot 0, the parameters follow it, and the
locals that identity statements give them are bound there. -/
def ofMethod (m : Method) (b : Body) : Lowered Slots := do
  let (params, behind) ← paramSlots m.name (if m.isStatic then 0 else 1) m.params
  b.stmts.foldlM (seed m.isStatic)
    { params := params, next := behind, first := behind, declared := b.defs.reverse }

/-- The binding that a local gets when it is first asked for. -/
def fresh (s : Slots) (l : Local) : Binding :=
  match l.role with
  | .receiver => .slot 0
  | .stackTemp => .stack
  | .ordinary | .handlerRef => .slot s.next

/-- The binding of a local. -/
def resolve (s : Slots) (l : Local) : Lowered (Binding × Slots) :=
  match s.binding? l with
  | some b => .ok (b, s)
  | none => (s.bind l (s.fresh l)).map fun s' => (s.fresh l, s')

/-- The binding of an operand, which has to be a local. -/
def resolveOperand (s : Slots) : Operand → Lowered (Binding × Slots)
  | .var l => s.resolve l
  | .const c => .error (.slots (.constant c))

/-- Whether a local lives on the operand stack. -/
def isStackResident (s : Slots) (l : Local) : Lowered (Bool × Slots) :=
  (s.resolve l).map fun (b, s) => (b = .stack, s)

/-- The place of a local among the assigned ones, the one assigned last first. -/
def declaration? (s : Slots) (l : Local) : Option Nat :=
  s.declared.idxOf? l

/-- Whether no local is bound to one of the given slots. -/
def isFree (s : Slots) (slot width : Nat) : Bool :=
  s.bindings.all fun (l, b) =>
    match b with
    | .slot n => slot + width ≤ n || n + l.slots ≤ slot
    | .stack => true

/-- The slot of a local by its declaration, if it is free. -/
def declaredSlot? (s : Slots) (l : Local) : Option Nat := do
  if l.role ≠ .ordinary then none
  let slot := s.first + (← s.declaration? l)
  if slot ≤ slotLimit ∧ s.isFree slot l.slots then some slot else none

/-- The binding of a local; if it has none, the one by its declaration if that slot is free. -/
def resolveDeclared (s : Slots) (l : Local) : Lowered (Binding × Slots) :=
  match s.binding? l, s.declaredSlot? l with
  | none, some slot => (s.bind l (.slot slot)).map fun s' => (.slot slot, s')
  | _, _ => s.resolve l

end Slots

end BytecodeLowering.Lowering
