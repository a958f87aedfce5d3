import BytecodeLowering.Machine.Depth
import BytecodeLowering.Proofs.Machine.Plain
import BytecodeLowering.Proofs.Value

/-!
# Runs of code

What the instructions of a method do to its operand stack and its local variables, one after the
other. Only integers are computed with: everything else has no meaning here.

* `Frame`: the local variables, a word of 32 bits each, and `Frame.Holds`, the value in one or two
  of them.
* `Opcode.compute`, `Opcode.access`, `Opcode.branches`: what the operations do.
* `Insn.perform`, `Insn.choose`: what the instructions do that name no labels, and where the others
  go.
* `State`, `step`: the instruction that comes next, and what it does.
* `exec`, `run_code`: a stretch of code without jumps, which is run by its instructions one after
  the other.
* `Chooses`: code that goes on, or to a label, by its last instruction.
-/

namespace BytecodeLowering.Machine

/-- The local variables of a method, a word each. -/
abbrev Frame := Nat → BitVec 32

namespace Frame

/-- The 32-bit integer in a local variable. -/
def int (f : Frame) (n : Nat) : Int32 :=
  .ofBitVec (f n)

/-- The 64-bit integer in two local variables, its high word in the first one. -/
def long (f : Frame) (n : Nat) : Int64 :=
  .ofBitVec (f n ++ f (n + 1))

/-- Puts a 32-bit integer into a local variable. -/
def setInt (f : Frame) (n : Nat) (v : Int32) : Frame :=
  fun k => if k = n then v.toBitVec else f k

/-- Puts a 64-bit integer into two local variables. -/
def setLong (f : Frame) (n : Nat) (v : Int64) : Frame :=
  fun k =>
    if k = n then v.toBitVec.extractLsb' 32 32
    else if k = n + 1 then v.toBitVec.extractLsb' 0 32 else f k

/-- Puts a value into as many local variables as it takes. -/
def set (f : Frame) (n : Nat) : Value → Frame
  | .int v => f.setInt n v
  | .long v => f.setLong n v

/-- Whether a value is in the local variables from a given one on. -/
def Holds (f : Frame) (n : Nat) : Value → Prop
  | .int v => f.int n = v
  | .long v => f.long n = v

variable {f : Frame} {n k : Nat} {v w : Value}

/-- The halves of a 64-bit word make it up. -/
theorem append_halves (x : BitVec 64) : x.extractLsb' 32 32 ++ x.extractLsb' 0 32 = x := by
  apply BitVec.eq_of_getLsbD_eq
  intro i hi
  rw [BitVec.getLsbD_append, BitVec.getLsbD_extractLsb', BitVec.getLsbD_extractLsb']
  by_cases hlow : i < 32
  · simp [hlow]
  · have hhigh : i - 32 < 32 := by omega
    have hsum : 32 + (i - 32) = i := by omega
    simp [hlow, hhigh, hsum]

/-- A value is where it was put. -/
theorem holds_set : (f.set n v).Holds n v := by
  cases v with
  | int a => simp [set, setInt, Holds, int]
  | long a => simp [set, setLong, Holds, long, append_halves]

/-- A value stays where another one is put beside it. -/
theorem holds_set_of_apart (h : f.Holds k w)
    (hapart : k + w.width ≤ n ∨ n + v.width ≤ k) : (f.set n v).Holds k w := by
  -- None of the words of the value is overwritten.
  have hword : ∀ i, k ≤ i → i < k + w.width → f.set n v i = f i := by
    intro i hi hi'
    cases v with
    | int a =>
      have hwidth : (Value.int a).width = 1 := rfl
      have hne : i ≠ n := by omega
      simp [set, setInt, hne]
    | long a =>
      have hwidth : (Value.long a).width = 2 := rfl
      have hne : i ≠ n ∧ i ≠ n + 1 := by omega
      simp [set, setLong, hne]
  cases w with
  | int a =>
    have hk := hword k (Nat.le_refl k) (Nat.lt_add_one k)
    simpa only [Holds, int, hk] using h
  | long a =>
    have hk := hword k (Nat.le_refl k) (by simp [Value.width])
    have hk' := hword (k + 1) (Nat.le_succ k) (by simp [Value.width])
    simpa only [Holds, long, hk, hk'] using h

/-- Words of zeros hold the value zero. -/
theorem holds_zero {c : Ir.Category} (h : ∀ i, n ≤ i → f i = 0) : f.Holds n (.zero c) := by
  unfold Value.zero
  split
  · simp only [Holds, long, h n (Nat.le_refl n), h (n + 1) (Nat.le_succ n)]
    rfl
  · simp only [Holds, int, h n (Nat.le_refl n)]
    rfl

end Frame

/-- What a method computes with. -/
structure Store where
  /-- The operand stack, the top first. A 64-bit integer is one entry. -/
  stack : List Value
  /-- The local variables. -/
  frame : Frame

/-- Pushes a value. -/
def Store.push (x : Store) (v : Value) : Store :=
  { x with stack := v :: x.stack }

section Operations

/-- Computes with a 32-bit integer. -/
def onInt (f : Int32 → Value) : List Value → Result (List Value)
  | .int a :: stack => .done (f a :: stack)
  | _ => .stuck

/-- Computes with a 64-bit integer. -/
def onLong (f : Int64 → Value) : List Value → Result (List Value)
  | .long a :: stack => .done (f a :: stack)
  | _ => .stuck

/-- Computes with two 32-bit integers; the second one is on top. -/
def onInts (f : Int32 → Int32 → Result Value) : List Value → Result (List Value)
  | .int b :: .int a :: stack => (f a b).map fun v => v :: stack
  | _ => .stuck

/-- Computes with two 64-bit integers; the second one is on top. -/
def onLongs (f : Int64 → Int64 → Result Value) : List Value → Result (List Value)
  | .long b :: .long a :: stack => (f a b).map fun v => v :: stack
  | _ => .stuck

/-- Shifts a 64-bit integer by the 32-bit integer on top of it. -/
def onShift (f : Int64 → Int32 → Int64) : List Value → Result (List Value)
  | .int n :: .long a :: stack => .done (.long (f a n) :: stack)
  | _ => .stuck

/-- Leaves the method with a value of the given category. -/
def leave (c : Ir.Category) : List Value → Result (List Value)
  | v :: _ => if v.category = c then .ends (.returned (some v)) else .stuck
  | [] => .stuck

end Operations

namespace Opcode

/-- What an operation without operands does to the operand stack. -/
def compute (op : Opcode) (stack : List Value) : Result (List Value) :=
  match op with
  | nop => .done stack
  | iconstM1 => .done (.int (-1) :: stack)
  | iconst0 => .done (.int 0 :: stack)
  | iconst1 => .done (.int 1 :: stack)
  | iconst2 => .done (.int 2 :: stack)
  | iconst3 => .done (.int 3 :: stack)
  | iconst4 => .done (.int 4 :: stack)
  | iconst5 => .done (.int 5 :: stack)
  | lconst0 => .done (.long 0 :: stack)
  | lconst1 => .done (.long 1 :: stack)
  | iadd => onInts (fun a b => .done (.int (a + b))) stack
  | ladd => onLongs (fun a b => .done (.long (a + b))) stack
  | isub => onInts (fun a b => .done (.int (a - b))) stack
  | lsub => onLongs (fun a b => .done (.long (a - b))) stack
  | imul => onInts (fun a b => .done (.int (a * b))) stack
  | lmul => onLongs (fun a b => .done (.long (a * b))) stack
  | idiv => onInts (fun a b => (divide a b).map .int) stack
  | ldiv => onLongs (fun a b => (divideLong a b).map .long) stack
  | irem => onInts (fun a b => (remainder a b).map .int) stack
  | lrem => onLongs (fun a b => (remainderLong a b).map .long) stack
  | ineg => onInt (fun a => .int (-a)) stack
  | lneg => onLong (fun a => .long (-a)) stack
  | ishl => onInts (fun a n => .done (.int (shiftLeft a n))) stack
  | lshl => onShift shiftLeftLong stack
  | ishr => onInts (fun a n => .done (.int (shiftRight a n))) stack
  | lshr => onShift shiftRightLong stack
  | iushr => onInts (fun a n => .done (.int (shiftRightZero a n))) stack
  | lushr => onShift shiftRightZeroLong stack
  | iand => onInts (fun a b => .done (.int (a &&& b))) stack
  | land => onLongs (fun a b => .done (.long (a &&& b))) stack
  | ior => onInts (fun a b => .done (.int (a ||| b))) stack
  | lor => onLongs (fun a b => .done (.long (a ||| b))) stack
  | ixor => onInts (fun a b => .done (.int (a ^^^ b))) stack
  | lxor => onLongs (fun a b => .done (.long (a ^^^ b))) stack
  | i2l => onInt (fun a => .long a.toInt64) stack
  | l2i => onLong (fun a => .int a.toInt32) stack
  | lcmp => onLongs (fun a b => .done (.int (compareLong a b))) stack
  | ireturn => leave .int stack
  | lreturn => leave .long stack
  | «return» => .ends (.returned none)
  | _ => .stuck

/-- What an operation on a local variable does. -/
def access (op : Opcode) (n : Nat) (x : Store) : Result Store :=
  match op, x.stack with
  | iload, _ => .done (x.push (.int (x.frame.int n)))
  | lload, _ => .done (x.push (.long (x.frame.long n)))
  | istore, .int v :: stack => .done ⟨stack, x.frame.setInt n v⟩
  | lstore, .long v :: stack => .done ⟨stack, x.frame.setLong n v⟩
  | _, _ => .stuck

/-- Whether a jump is taken by a 32-bit integer. -/
def byInt (p : Int32 → Bool) : List Value → Result (Bool × List Value)
  | .int a :: stack => .done (p a, stack)
  | _ => .stuck

/-- Whether a jump is taken by two 32-bit integers; the second one is on top. -/
def byInts (p : Int32 → Int32 → Bool) : List Value → Result (Bool × List Value)
  | .int b :: .int a :: stack => .done (p a b, stack)
  | _ => .stuck

/-- Whether a jump is taken, with the operand stack behind it. -/
def branches (op : Opcode) (stack : List Value) : Result (Bool × List Value) :=
  match op with
  | goto => .done (true, stack)
  | ifeq => byInt (fun a => a = 0) stack
  | ifne => byInt (fun a => a ≠ 0) stack
  | iflt => byInt (fun a => a < 0) stack
  | ifle => byInt (fun a => a ≤ 0) stack
  | ifgt => byInt (fun a => 0 < a) stack
  | ifge => byInt (fun a => 0 ≤ a) stack
  | ifIcmpeq => byInts (fun a b => a = b) stack
  | ifIcmpne => byInts (fun a b => a ≠ b) stack
  | ifIcmplt => byInts (fun a b => a < b) stack
  | ifIcmple => byInts (fun a b => a ≤ b) stack
  | ifIcmpgt => byInts (fun a b => b < a) stack
  | ifIcmpge => byInts (fun a b => b ≤ a) stack
  | _ => .stuck

end Opcode

/-- The label of a key in a table that starts with the key `min`. -/
def tableLabel (min max : Int32) (default : Label) (labels : List Label) (key : Int32) : Label :=
  if min ≤ key ∧ key ≤ max then (labels[(key.toInt - min.toInt).toNat]?).getD default else default

/-- The label of a key in a list of keys. -/
def lookupLabel (default : Label) (keys : List Int32) (labels : List Label) (key : Int32) : Label :=
  ((keys.zip labels).lookup key).getD default

namespace Insn

/-- What an instruction that names no labels does. -/
def perform (i : Insn) (x : Store) : Result Store :=
  match i with
  | simple op => (op.compute x.stack).map fun stack => { x with stack := stack }
  | int .bipush v => .done (x.push (.int v.toInt8.toInt32))
  | int .sipush v => .done (x.push (.int v.toInt16.toInt32))
  | var op n => op.access n x
  | ldc (.int v) => .done (x.push (.int v))
  | ldc (.long v) => .done (x.push (.long v))
  | label _ | lineNumber .. => .done x
  | _ => .stuck

/-- Where an instruction that names labels goes, if not on, with the operand stack behind it. -/
def choose (i : Insn) (stack : List Value) : Result (Option Label × List Value) :=
  match i, stack with
  | jump op l, stack =>
    (op.branches stack).map fun (taken, stack) => (if taken then some l else none, stack)
  | tableSwitch min max default labels, .int key :: stack =>
    .done (some (tableLabel min max default labels key), stack)
  | lookupSwitch default keys labels, .int key :: stack =>
    .done (some (lookupLabel default keys labels key), stack)
  | _, _ => .stuck

end Insn

/-- A state of a run. -/
structure State where
  /-- The place of the instruction that comes next. -/
  pc : Nat
  /-- What is computed with. -/
  store : Store

/-- Goes on at a label, or behind the instruction. -/
def State.follow (code : List Insn) (s : State) : Option Label × List Value → Result State
  | (none, stack) => .done ⟨s.pc + 1, { s.store with stack := stack }⟩
  | (some l, stack) =>
    match place? code l with
    | some pc => .done ⟨pc, { s.store with stack := stack }⟩
    | none => .stuck

/-- A step of a run: the instruction that comes next. -/
def step (code : List Insn) (s : State) : Result State :=
  match code[s.pc]? with
  | none => .stuck
  | some i =>
    if i.targets = [] then (i.perform s.store).map fun store => ⟨s.pc + 1, store⟩
    else (i.choose s.store.stack).bind (s.follow code)

/-- What a stretch of code without jumps does. -/
def exec : List Insn → Store → Result Store
  | [], x => .done x
  | i :: code, x => (i.perform x).bind (exec code)

variable {code code' rest insns : List Insn} {x : Store} {pc : Nat}

/-- Nothing is done by no code. -/
@[simp]
theorem exec_nil : exec [] x = .done x := rfl

/-- One instruction does what it does. -/
@[simp]
theorem exec_singleton {i : Insn} : exec [i] x = i.perform x :=
  Outcome.map_id'

/-- Code is executed one stretch after the other. -/
theorem exec_append : exec (code ++ code') x = (exec code x).bind (exec code') := by
  induction code generalizing x with
  | nil => rfl
  | cons i code ih =>
    rw [List.cons_append, exec, exec, Outcome.bind_assoc]
    exact Outcome.bind_congr fun x' _ => ih

/-- Labels and line numbers do nothing. -/
theorem exec_of_isMark (h : ∀ i ∈ code, i.isMark) : exec code x = .done x := by
  induction code with
  | nil => rfl
  | cons i code ih =>
    obtain ⟨hi, hcode⟩ := List.forall_mem_cons.1 h
    have hperform : i.perform x = .done x := by
      cases i <;> first | rfl | cases hi
    rw [exec, hperform, Outcome.done_bind, ih hcode]

/-- The instruction at the start of a rest of the code comes next there. -/
theorem getElem?_of_drop {i : Insn} (h : insns.drop pc = i :: rest) : insns[pc]? = some i := by
  rw [← List.head?_drop, h, List.head?_cons]

/-- Behind a stretch of code comes the rest of the code. -/
theorem drop_add_of_drop (h : insns.drop pc = code ++ rest) :
    insns.drop (pc + code.length) = rest := by
  rw [← List.drop_drop, h, List.drop_left]

/-- A stretch of code without jumps is run by its instructions one after the other. -/
theorem run_code (hcode : ∀ i ∈ code, i.targets = []) (h : insns.drop pc = code ++ rest) :
    run (step insns) code.length ⟨pc, x⟩ =
      (exec code x).map fun x => ⟨pc + code.length, x⟩ := by
  induction code generalizing pc x with
  | nil => rfl
  | cons i code ih =>
    have hget := getElem?_of_drop h
    have hfront : insns.drop pc = [i] ++ (code ++ rest) := h
    have hrest : insns.drop (pc + 1) = code ++ rest := drop_add_of_drop hfront
    -- Without jumps, the machine does what the instruction does and goes on behind it.
    have hi : i.targets = [] := hcode i List.mem_cons_self
    rw [List.length_cons, run, step, hget]
    simp only [hi, if_true, exec, Outcome.bind_map, Outcome.map_bind]
    refine Outcome.bind_congr fun x' _ => ?_
    rw [ih (fun i hi => hcode i (List.mem_cons_of_mem _ hi)) hrest, Nat.add_right_comm,
      Nat.add_assoc]

/-- An instruction that names labels goes where it chooses. -/
theorem run_choose {i : Insn} (hi : i.targets ≠ []) (h : insns.drop pc = i :: rest) :
    run (step insns) 1 ⟨pc, x⟩ =
      (i.choose x.stack).bind (State.follow insns ⟨pc, x⟩) := by
  have hget := getElem?_of_drop h
  rw [run, step, hget]
  simp only [hi, if_false, Outcome.bind_assoc]
  refine Outcome.bind_congr fun y _ => ?_
  cases State.follow insns ⟨pc, x⟩ y <;> rfl

/-- Nothing is run behind the end of the code. -/
theorem run_off_end (hcode : ∀ i ∈ code, i.targets = []) (h : insns.drop pc = code) {x' : Store}
    (hexec : exec code x = .done x') : run (step insns) (code.length + 1) ⟨pc, x⟩ = .stuck := by
  have hdrop : insns.drop pc = code ++ [] := by rw [h, List.append_nil]
  have hnone : insns[pc + code.length]? = none := by
    rw [← List.head?_drop, drop_add_of_drop hdrop, List.head?_nil]
  rw [run_add, run_code hcode hdrop, hexec, Outcome.map_done, Outcome.done_bind, run, step]
  simp only [hnone]
  rfl

/-- Code that starts with an empty operand stack and chooses with its last instruction where to go:
to a label, or on. -/
def Chooses (code : List Insn) (f : Frame) (target : Option Label) : Prop :=
  ∃ front i stack, code = front ++ [i] ∧ (∀ i ∈ front, i.targets = []) ∧ i.targets ≠ [] ∧
    exec front ⟨[], f⟩ = .done ⟨stack, f⟩ ∧ i.choose stack = .done (target, [])

namespace Chooses

variable {f : Frame} {target : Option Label} {l : Label}

/-- Labels and line numbers in front of the code choose nothing. -/
theorem append_left (h : Chooses code f target) (hmark : ∀ i ∈ code', i.isMark) :
    Chooses (code' ++ code) f target := by
  obtain ⟨front, i, stack, rfl, hfront, hi, hexec, hchoose⟩ := h
  refine ⟨code' ++ front, i, stack, by rw [List.append_assoc], fun j hj => ?_, hi, ?_, hchoose⟩
  · rcases List.mem_append.1 hj with hj | hj
    · exact Insn.targets_of_isMark (hmark j hj)
    · exact hfront j hj
  · rw [exec_append, exec_of_isMark hmark, Outcome.done_bind, hexec]

/-- The code goes where it chooses, and control takes at least one step. -/
theorem run_eq (h : Chooses code f target) (hdrop : insns.drop pc = code ++ rest) :
    ∃ n, n + 1 = code.length ∧ run (step insns) (n + 1) ⟨pc, ⟨[], f⟩⟩ =
      State.follow insns ⟨pc + n, ⟨[], f⟩⟩ (target, []) := by
  obtain ⟨front, i, stack, rfl, hfront, hi, hexec, hchoose⟩ := h
  rw [List.append_assoc] at hdrop
  refine ⟨front.length, by simp, ?_⟩
  rw [run_add, run_code hfront hdrop, hexec, Outcome.map_done, Outcome.done_bind,
    run_choose hi (drop_add_of_drop hdrop)]
  simp only [hchoose, Outcome.done_bind]
  cases target <;> rfl

/-- Code that chooses to go on is left behind it. -/
theorem run_none (h : Chooses code f none) (hdrop : insns.drop pc = code ++ rest) :
    ∃ n, run (step insns) (n + 1) ⟨pc, ⟨[], f⟩⟩ = .done ⟨pc + code.length, ⟨[], f⟩⟩ := by
  obtain ⟨n, hn, hrun⟩ := h.run_eq hdrop
  refine ⟨n, ?_⟩
  rw [hrun, ← hn]
  rfl

/-- Code that chooses a label goes where the label is bound. -/
theorem run_some (h : Chooses code f (some l)) (hdrop : insns.drop pc = code ++ rest) {pc' : Nat}
    (hplace : place? insns l = some pc') :
    ∃ n, run (step insns) (n + 1) ⟨pc, ⟨[], f⟩⟩ = .done ⟨pc', ⟨[], f⟩⟩ := by
  obtain ⟨n, -, hrun⟩ := h.run_eq hdrop
  refine ⟨n, ?_⟩
  rw [hrun, State.follow]
  simp only [hplace]

end Chooses

end BytecodeLowering.Machine
