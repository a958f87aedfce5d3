import BytecodeLowering.Machine.Depth

/-!
# Code under construction

* `MethodCode`: the finished code of a method.
* `CodeBuffer`: the code of a method that is being assembled. It hands out labels, takes
  instructions and entries of the exception table, and keeps the sizes of the frame once they are
  computed, until the code changes.
-/

namespace BytecodeLowering.Machine

/-- The finished code of a method. -/
structure MethodCode where
  /-- The instructions. -/
  insns : List Insn
  /-- The exception table. -/
  guards : List Guard
  /-- The sizes of the frame. -/
  sizes : Sizes
  deriving DecidableEq, Repr

/-- The code of a method that is being assembled. -/
structure CodeBuffer where
  /-- The instructions so far. -/
  insns : List Insn := []
  /-- The exception table so far. -/
  guards : List Guard := []
  /-- The number of the next new label, a word of 32 bits that starts over behind the last one. -/
  nextLabel : UInt32 := 0
  /-- The number of slots of the arguments, with the receiver if there is one. -/
  argSlots : Nat
  /-- The sizes of the frame, if they were computed since the last change. -/
  sizes : Option Sizes := none
  deriving DecidableEq, Repr

namespace CodeBuffer

/-- An empty buffer for a method whose arguments take the given number of slots. -/
def new (argSlots : Nat) : CodeBuffer :=
  { argSlots := argSlots }

/-- An empty buffer for a method with the given descriptor; a receiver takes one more slot. -/
def forDescriptor (isStatic : Bool) (desc : String) : Except CodeError CodeBuffer :=
  ((methodWidths desc).mapError .descriptor).map fun (args, _) =>
    new (if isStatic then args else args + 1)

/-- Hands out a new label. -/
def newLabel (b : CodeBuffer) : Label × CodeBuffer :=
  (⟨b.nextLabel.toNat⟩, { b with nextLabel := b.nextLabel + 1 })

/-- Appends instructions. -/
def append (b : CodeBuffer) (code : List Insn) : CodeBuffer :=
  { b with insns := b.insns ++ code, sizes := none }

/-- Appends an instruction. -/
def emit (b : CodeBuffer) (i : Insn) : CodeBuffer :=
  b.append [i]

/-- Adds an entry to the exception table. -/
def guard (b : CodeBuffer) (g : Guard) : CodeBuffer :=
  { b with guards := b.guards ++ [g], sizes := none }

/-- The sizes of the frame of the code so far. -/
def maxSizes (b : CodeBuffer) : Except CodeError Sizes :=
  Machine.maxSizes b.insns b.guards b.argSlots

/-- Computes the sizes of the frame and keeps them. -/
def measure (b : CodeBuffer) : Except CodeError (Sizes × CodeBuffer) :=
  b.maxSizes.map fun sizes => (sizes, { b with sizes := some sizes })

/-- The finished code, with the sizes that were kept or else computed now. -/
def finish (b : CodeBuffer) : Except CodeError MethodCode := do
  let sizes ←
    match b.sizes with
    | some sizes => pure sizes
    | none => b.maxSizes
  return ⟨b.insns, b.guards, sizes⟩

end CodeBuffer

end BytecodeLowering.Machine
