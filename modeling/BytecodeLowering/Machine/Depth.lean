import BytecodeLowering.Machine.Descriptor
import BytecodeLowering.Machine.Insn
import BytecodeLowering.Repeat

/-!
# Stack depth

How deep the operand stack of a method gets, and how many local variables it has.

* `CodeError`: why an instruction list cannot run.
* `effect`: the slots that an instruction takes from and leaves on the operand stack.
* `Walk`: a walk along the paths of an instruction list. It follows control from instruction to
  instruction, notes the depth in front of each, and comes back later for the targets of branches.
* `maxSizes`: the sizes of the frame of a method, if every path is sound.
-/

namespace BytecodeLowering.Machine

/-- How an instruction does not fit its operation. -/
inductive MisusedOp where
  /-- The operation does not access a field. -/
  | notField (op : Opcode)
  /-- The operation does not call a method. -/
  | notMethod (op : Opcode)
  /-- The operation does not load or store a local variable. -/
  | notVariable (op : Opcode)
  /-- The effect of the operation depends on operands that the instruction lacks. -/
  | needsOperands (op : Opcode)
  deriving DecidableEq, Repr

/-- The wording of a misused operation. -/
def MisusedOp.message : MisusedOp → String
  | notField op => op.mnemonic ++ " is not a field instruction"
  | notMethod op => op.mnemonic ++ " is not a method instruction"
  | notVariable op => op.mnemonic ++ " is not a local variable instruction"
  | needsOperands op => op.mnemonic ++ " needs an operand-specific form"

/-- Why an instruction list cannot run. -/
inductive CodeError where
  /-- A text is no descriptor. -/
  | descriptor (e : DescriptorError)
  /-- An instruction does not fit its operation. -/
  | invalidInsn (e : MisusedOp)
  /-- An instruction takes more from the operand stack than there is. -/
  | underflow (index : Nat) (insn : String) (depth needed : Nat)
  /-- Two paths reach an instruction with operand stacks of different depth. -/
  | inconsistent (index expected found : Nat)
  /-- A label is used and bound nowhere. -/
  | unbound (l : Label)
  /-- A label is bound twice. -/
  | duplicate (l : Label)
  /-- A path leads behind the last instruction. -/
  | fallOffEnd
  deriving DecidableEq, Repr

/-- The wording of a code error. -/
def CodeError.message : CodeError → String
  | descriptor e => "descriptor error: " ++ e.message
  | invalidInsn e => "invalid instruction: " ++ e.message
  | underflow index insn depth needed =>
    "stack underflow at " ++ toString index ++ " (" ++ insn ++ "): depth " ++ toString depth ++
      ", needs " ++ toString needed
  | inconsistent index expected found =>
    "inconsistent stack depth at " ++ toString index ++ ": " ++ toString expected ++
      " on one path, " ++ toString found ++ " on another"
  | unbound l => "label " ++ l.render ++ " is referenced but never bound"
  | duplicate l => "label " ++ l.render ++ " is bound twice"
  | fallOffEnd => "execution falls off the end of the code"

/-- The slots that an instruction takes from the operand stack and leaves on it. -/
def effect : Insn → Except CodeError (Nat × Nat)
  | .label _ | .lineNumber .. => .ok (0, 0)
  | .ldc c => .ok (0, c.width)
  | .field op _ _ desc => do
    let w ← (fieldWidth desc).mapError .descriptor
    match op with
    | .getstatic => return (0, w)
    | .putstatic => return (w, 0)
    | .getfield => return (1, w)
    | .putfield => return (1 + w, 0)
    | op => throw (.invalidInsn (.notField op))
  | .method op _ _ desc _ => do
    let (args, ret) ← (methodWidths desc).mapError .descriptor
    match op with
    | .invokestatic => return (args, ret)
    | .invokevirtual | .invokespecial | .invokeinterface => return (args + 1, ret)
    | op => throw (.invalidInsn (.notMethod op))
  | .invokeDynamic _ desc _ _ => (methodWidths desc).mapError .descriptor
  | .multiNewArray _ dims => .ok (dims, 1)
  | .simple op | .int op _ | .var op _ | .type op _ | .jump op _ => fixed op
  | .tableSwitch .. => fixed .tableswitch
  | .lookupSwitch .. => fixed .lookupswitch
where
  /-- The effect of an operation that needs no operands for it. -/
  fixed (op : Opcode) : Except CodeError (Nat × Nat) :=
    match op.effect? with
    | some e => .ok e
    | none => .error (.invalidInsn (.needsOperands op))

/-- The place of the instruction that binds a label. -/
def place? (code : List Insn) (l : Label) : Option Nat :=
  code.findIdx? fun i => i.bound? = some l

/-- The place of a label, which has to be bound. -/
def resolve (code : List Insn) (l : Label) : Except CodeError Nat :=
  match place? code l with
  | some i => .ok i
  | none => .error (.unbound l)

/-- A walk along the paths of an instruction list. -/
structure Walk where
  /-- The depth of the operand stack in front of each instruction met so far, the last one first. -/
  met : List (Nat × Nat)
  /-- Where to go on later, and with which depth; the first one comes first. -/
  pending : List (Nat × Nat)
  /-- The instruction that comes next on the path at hand, with the depth in front of it. -/
  here : Option (Nat × Nat)
  /-- The greatest depth so far. -/
  peak : Nat
  deriving Repr

namespace Walk

/-- The walk that starts at the given places. -/
def start (entries : List (Nat × Nat)) : Walk :=
  ⟨[], entries, none, 0⟩

/-- The depth in front of an instruction, if it was met. -/
def depth? (w : Walk) (i : Nat) : Option Nat :=
  w.met.lookup i

/-- Meets the next instruction. A path ends at an instruction met before, which has to have been met
with the same depth. Otherwise the targets of the instruction become pending, the last one first,
and the path goes on behind it unless control does not. -/
def visit (code : List Insn) (w : Walk) (i depth : Nat) : Except CodeError Walk :=
  match code[i]? with
  | none => .error .fallOffEnd
  | some insn =>
    match w.depth? i with
    | some seen =>
      if seen = depth then .ok { w with here := none }
      else .error (.inconsistent i seen depth)
    | none => do
      let (pops, pushes) ← effect insn
      if depth < pops then throw (.underflow i insn.render depth pops)
      let after := depth - pops + pushes
      let targets ← insn.targets.mapM (resolve code)
      return {
        met := (i, depth) :: w.met
        pending := (targets.map fun t => (t, after)).reverse ++ w.pending
        here := if insn.endsFlow then none else some (i + 1, after)
        peak := max (max w.peak depth) after }

/-- The number of instructions not met yet. -/
def unmet (code : List Insn) (w : Walk) : Nat :=
  (List.range code.length).countP fun i => (w.depth? i).isNone

/-- Twice the number of pending paths, and one for the path at hand. -/
def load (w : Walk) : Nat :=
  2 * w.pending.length + if w.here.isSome then 1 else 0

/-- A narrower predicate that drops an element of the list counts fewer of its elements. -/
private theorem countP_lt {α : Type} {p q : α → Bool} {xs : List α} {x : α} (hx : x ∈ xs)
    (hle : ∀ y, p y = true → q y = true) (hp : p x = false) (hq : q x = true) :
    xs.countP p < xs.countP q := by
  induction xs with
  | nil => cases hx
  | cons y ys ih =>
    have hmono : ys.countP p ≤ ys.countP q := List.countP_mono_left fun z _ => hle z
    rcases List.mem_cons.1 hx with rfl | hmem
    · simp only [List.countP_cons, hp, hq]
      simp
      omega
    · have := ih hmem
      simp only [List.countP_cons]
      by_cases h : p y = true
      · rw [if_pos h, if_pos (hle y h)]
        omega
      · rw [if_neg h]
        split <;> omega

/-- Meeting an instruction ends the path at hand or leaves fewer instructions to meet. -/
theorem visit_decreases {code : List Insn} {w w' : Walk} {i depth : Nat}
    (hw : w.here = some (i, depth)) (h : visit code w i depth = .ok w') :
    w'.unmet code < w.unmet code ∨ w'.unmet code = w.unmet code ∧ w'.load < w.load := by
  unfold visit at h
  split at h
  · cases h
  · rename_i insn hinsn
    split at h
    · split at h
      · cases h
        exact .inr ⟨rfl, by simp [load, hw]⟩
      · cases h
    · rename_i hnew
      left
      -- The instruction was not met before, and is met now.
      have hmet : w'.met = (i, depth) :: w.met := by
        cases he : effect insn with
        | error e => simp [he, bind, Except.bind] at h
        | ok r =>
          obtain ⟨pops, pushes⟩ := r
          cases ht : insn.targets.mapM (resolve code) with
          | error e =>
            by_cases hd : depth < pops <;>
              simp [he, ht, hd, bind, Except.bind, throw, throwThe, MonadExceptOf.throw] at h
          | ok ts =>
            by_cases hd : depth < pops
            · simp [he, hd, bind, Except.bind, throw, throwThe, MonadExceptOf.throw] at h
            · simp [he, ht, hd, bind, Except.bind, pure, Except.pure] at h
              rw [← h]
      have hi : i < code.length := (List.getElem?_eq_some_iff.1 hinsn).1
      refine countP_lt (List.mem_range.2 hi) ?_ ?_ ?_
      · intro j hj
        simp only [depth?, hmet, List.lookup_cons] at hj ⊢
        split at hj
        · simp at hj
        · exact hj
      · simp [depth?, hmet]
      · simp [hnew]

/-- Follows a walk to its end: the path at hand first, then the pending ones. -/
def finish (code : List Insn) (w : Walk) : Except CodeError Walk :=
  match _hw : w.here with
  | some (i, depth) =>
    match _h : visit code w i depth with
    | .error e => .error e
    | .ok w' => finish code w'
  | none =>
    match _hp : w.pending with
    | [] => .ok w
    | p :: rest => finish code { w with pending := rest, here := some p }
termination_by (w.unmet code, w.load)
decreasing_by
  · -- A step along the path at hand.
    rcases visit_decreases (by assumption) (by assumption) with h | ⟨h, h'⟩
    · exact .left _ _ h
    · rw [h]
      exact .right _ h'
  · -- A pending path becomes the path at hand, which weighs less.
    refine .right _ ?_
    simp only [load, _hw, _hp, List.length_cons]
    simp
    omega

end Walk

/-- The sizes of the frame of a method. -/
structure Sizes where
  /-- The greatest depth of the operand stack. -/
  stack : Nat
  /-- The number of local variables. -/
  locals : Nat
  deriving DecidableEq, Repr

/-- The number of local variables of an instruction list, which is at least `least`. -/
def localsOf (least : Nat) : List Insn → Except CodeError Nat
  | [] => .ok least
  | .var op slot :: rest =>
    match op.varWidth? with
    | some w => localsOf (max least (slotEnd slot w)) rest
    | none => .error (.invalidInsn (.notVariable op))
  | _ :: rest => localsOf least rest

/-- The place of the handler of an entry of the exception table; all its labels have to be bound. -/
def handlerPlace (code : List Insn) (g : Guard) : Except CodeError Nat := do
  let _ ← resolve code g.start
  let _ ← resolve code g.stop
  resolve code g.handler

/-- Where the paths of a method start: at its first instruction with an empty operand stack, and at
each handler with the exception on it. The last one is followed first. -/
def entries (code : List Insn) (handlers : List Nat) : List (Nat × Nat) :=
  (if code.isEmpty then [] else [(0, 0)]) ++ handlers.map fun i => (i, 1)

/-- Line numbers need bound labels, whether they are reached or not. -/
def checkLines (code : List Insn) : Except CodeError Unit :=
  code.forM fun
    | .lineNumber _ start => (resolve code start).map fun _ => ()
    | _ => .ok ()

/-- The sizes of the frame of a method with the given instructions, exception table and number of
slots for its arguments. Fails if an operand stack runs empty, if two paths disagree on its depth,
if a label is bound twice or used without being bound, or if a path leads behind the last
instruction. -/
def maxSizes (code : List Insn) (guards : List Guard) (argSlots : Nat) :
    Except CodeError Sizes := do
  if let some l := firstRepeat? (code.filterMap Insn.bound?) then throw (.duplicate l)
  let locals ← localsOf argSlots code
  let handlers ← guards.mapM (handlerPlace code)
  let walk ← (Walk.start (entries code handlers).reverse).finish code
  checkLines code
  return ⟨walk.peak, locals⟩

end BytecodeLowering.Machine
