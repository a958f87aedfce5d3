import BytecodeLowering.Machine.Insn

/-!
# Plain instructions

* `Insn.Formed`: the instructions whose operands fit each other.
* `Insn.isPlain`: the instructions that control comes to from in front of them and goes on behind.
* `Insn.isExit`: the instructions that control may leave the code of a block by.
* `Insn.isMark`: the entries that say something about the code and do nothing.
* `Insn.targets_of_isPlain`, `Insn.endsFlow_of_isPlain`, `Insn.bound?_of_isPlain`,
  `Insn.formed_of_isPlain`: plain instructions jump nowhere, stop nothing, bind nothing, and their
  operands fit each other.
-/

namespace BytecodeLowering.Machine.Insn

/-- The operands of an instruction fit each other: the element type of a new array exists, a table
has a label for each key of its range, and a lookup for each of its keys, which ascend. -/
def Formed : Insn → Prop
  | int .newarray operand => ∃ k, ArrayKind.ofCode? operand.toInt = some k
  | tableSwitch min max _ labels => max.toInt - min.toInt + 1 = labels.length
  | lookupSwitch _ keys labels =>
    keys.length = labels.length ∧ keys.Pairwise fun a b => a.toInt < b.toInt
  | _ => True

/-- Whether control comes to the instruction from the one in front of it only, and goes on to the
one behind it only. A new array has to be of an element type that exists. -/
def isPlain : Insn → Bool
  | simple op | type op _ | field op .. | method op .. => !op.endsFlow
  | int op operand =>
    !op.endsFlow && (op != .newarray || (ArrayKind.ofCode? operand.toInt).isSome)
  | var op _ => op.varWidth?.isSome
  | ldc _ | invokeDynamic .. | multiNewArray .. => true
  | jump .. | tableSwitch .. | lookupSwitch .. | label _ | lineNumber .. => false

/-- Whether the instruction is an operation that can jump, or one without operands. -/
def isExit : Insn → Bool
  | simple _ | jump .. | tableSwitch .. | lookupSwitch .. => true
  | _ => false

/-- Whether the entry is the binding of a label or the line of the code there. -/
def isMark : Insn → Bool
  | label _ | lineNumber .. => true
  | _ => false

variable {i : Insn}

/-- A plain instruction jumps nowhere. -/
theorem targets_of_isPlain (h : i.isPlain) : i.targets = [] := by
  cases i <;> simp_all [isPlain, targets]

/-- Control goes on behind a plain instruction. -/
theorem endsFlow_of_isPlain (h : i.isPlain) : i.endsFlow = false := by
  cases i with
  | var op _ =>
    cases op <;> simp_all [isPlain, endsFlow, opcode?, Opcode.endsFlow, Opcode.varWidth?]
  | _ => simp_all [isPlain, endsFlow, opcode?, Opcode.endsFlow]

/-- A plain instruction binds no label. -/
theorem bound?_of_isPlain (h : i.isPlain) : i.bound? = none := by
  cases i <;> simp_all [isPlain, bound?]

/-- An instruction that control leaves by binds no label. -/
theorem bound?_of_isExit (h : i.isExit) : i.bound? = none := by
  cases i <;> first | rfl | cases h

/-- An entry that does nothing jumps nowhere. -/
theorem targets_of_isMark (h : i.isMark) : i.targets = [] := by
  cases i <;> first | rfl | cases h

/-- Control goes on behind an entry that does nothing. -/
theorem endsFlow_of_isMark (h : i.isMark) : i.endsFlow = false := by
  cases i <;> first | rfl | cases h

/-- The operands of a plain instruction fit each other. -/
theorem formed_of_isPlain (h : i.isPlain) : i.Formed := by
  cases i with
  | int op operand =>
    by_cases hop : op = .newarray
    · subst hop
      exact Option.isSome_iff_exists.1 h
    · unfold Formed
      split <;> simp_all
  | _ => trivial

end BytecodeLowering.Machine.Insn
