import BytecodeLowering.Lowering.Error

/-!
# Operation selection

Which operation of the machine does what a value of a given type or category needs.

* `loadOp`, `storeOp`, `returnOp`, `popOp`: moving values, by their categories.
* `arrayLoadOp`, `arrayStoreOp`, `arrayKind`: array elements, by their types.
* `binaryOp`, `negOp`: arithmetic, by the category of the operands.
* `compareOp?`, `ifZeroOp`, `ifIntOp`, `ifReferenceOp`: comparisons and branches.
* `conversion`: the operations that convert between primitive types.
-/

namespace BytecodeLowering.Lowering

open Ir Machine

/-- Loads a local variable. -/
def loadOp : Category → Lowered Opcode
  | .int => .ok .iload
  | .long => .ok .lload
  | .float => .ok .fload
  | .double => .ok .dload
  | .reference => .ok .aload
  | .void => unsupported .voidLoad

/-- Stores into a local variable. -/
def storeOp : Category → Lowered Opcode
  | .int => .ok .istore
  | .long => .ok .lstore
  | .float => .ok .fstore
  | .double => .ok .dstore
  | .reference => .ok .astore
  | .void => unsupported .voidStore

/-- Leaves a method with a value, or without one. -/
def returnOp : Category → Opcode
  | .int => .ireturn
  | .long => .lreturn
  | .float => .freturn
  | .double => .dreturn
  | .reference => .areturn
  | .void => .return

/-- Drops a value of the given width, if there is one. -/
def popOp : Nat → Option Opcode
  | 0 => none
  | 1 => some .pop
  | _ => some .pop2

/-- Loads an array element. -/
def arrayLoadOp : Ty → Opcode
  | .prim .boolean | .prim .byte => .baload
  | .prim .char => .caload
  | .prim .short => .saload
  | .prim .int => .iaload
  | .prim .long => .laload
  | .prim .float => .faload
  | .prim .double => .daload
  | _ => .aaload

/-- Stores into an array element. -/
def arrayStoreOp : Ty → Opcode
  | .prim .boolean | .prim .byte => .bastore
  | .prim .char => .castore
  | .prim .short => .sastore
  | .prim .int => .iastore
  | .prim .long => .lastore
  | .prim .float => .fastore
  | .prim .double => .dastore
  | _ => .aastore

/-- The element type of a new array of primitive values. -/
def arrayKind : Prim → ArrayKind
  | .boolean => .boolean
  | .byte => .byte
  | .char => .char
  | .short => .short
  | .int => .int
  | .long => .long
  | .float => .float
  | .double => .double

/-- Computes a binary operation on operands of a category. -/
def binaryOp : BinOp → Category → Lowered Opcode
  | .add, .int => .ok .iadd
  | .add, .long => .ok .ladd
  | .add, .float => .ok .fadd
  | .add, .double => .ok .dadd
  | .sub, .int => .ok .isub
  | .sub, .long => .ok .lsub
  | .sub, .float => .ok .fsub
  | .sub, .double => .ok .dsub
  | .mul, .int => .ok .imul
  | .mul, .long => .ok .lmul
  | .mul, .float => .ok .fmul
  | .mul, .double => .ok .dmul
  | .div, .int => .ok .idiv
  | .div, .long => .ok .ldiv
  | .div, .float => .ok .fdiv
  | .div, .double => .ok .ddiv
  | .rem, .int => .ok .irem
  | .rem, .long => .ok .lrem
  | .rem, .float => .ok .frem
  | .rem, .double => .ok .drem
  | .and, .int => .ok .iand
  | .and, .long => .ok .land
  | .or, .int => .ok .ior
  | .or, .long => .ok .lor
  | .xor, .int => .ok .ixor
  | .xor, .long => .ok .lxor
  | .shl, .int => .ok .ishl
  | .shl, .long => .ok .lshl
  | .shr, .int => .ok .ishr
  | .shr, .long => .ok .lshr
  | .ushr, .int => .ok .iushr
  | .ushr, .long => .ok .lushr
  | .cmp, .long => .ok .lcmp
  | .cmpl, .float => .ok .fcmpl
  | .cmpl, .double => .ok .dcmpl
  | .cmpg, .float => .ok .fcmpg
  | .cmpg, .double => .ok .dcmpg
  | op, c => unsupported (.operator op c)

/-- Negates a value of a category. -/
def negOp : Category → Lowered Opcode
  | .int => .ok .ineg
  | .long => .ok .lneg
  | .float => .ok .fneg
  | .double => .ok .dneg
  | c => unsupported (.negation c)

/-- Branches if the value on the stack compares like this with zero. -/
def ifZeroOp : CmpOp → Opcode
  | .eq => .ifeq
  | .ne => .ifne
  | .lt => .iflt
  | .le => .ifle
  | .gt => .ifgt
  | .ge => .ifge

/-- Branches if two 32-bit integers compare like this. -/
def ifIntOp : CmpOp → Opcode
  | .eq => .ifIcmpeq
  | .ne => .ifIcmpne
  | .lt => .ifIcmplt
  | .le => .ifIcmple
  | .gt => .ifIcmpgt
  | .ge => .ifIcmpge

/-- Branches if two references are the same or not. -/
def ifReferenceOp : CmpOp → Lowered Opcode
  | .eq => .ok .ifAcmpeq
  | .ne => .ok .ifAcmpne
  | op => unsupported (.referenceOrder op)

/-- Compares two values of a category that no branch compares by itself; the result compares with
zero as they do. With `<` and `<=` a value that is no number counts as greater, so that the branch
is not taken. -/
def compareOp? (op : CmpOp) : Category → Option Opcode
  | .long => some .lcmp
  | .float => some (if less then .fcmpg else .fcmpl)
  | .double => some (if less then .dcmpg else .dcmpl)
  | .int | .reference | .void => none
where
  /-- Whether the comparison asks for a lesser value. -/
  less : Bool := op = .lt || op = .le

/-- Cuts a 32-bit integer down to the values of a type. -/
def narrowing : Prim → List Opcode
  | .byte => [.i2b]
  | .short => [.i2s]
  | .char => [.i2c]
  | _ => []

/-- Whether all values of one type are values of another, both computed with as 32-bit integers. -/
def fits (source target : Prim) : Bool :=
  match target with
  | .byte => source = .boolean || source = .byte
  | .short => source = .boolean || source = .byte || source = .short
  | .char => source = .boolean || source = .char
  | _ => true

/-- The operations that convert a value between two primitive types. -/
def conversion (source target : Prim) : List Opcode :=
  match source.category, target.category with
  | .int, .int => if fits source target then [] else narrowing target
  | .int, .long => [.i2l]
  | .int, .float => [.i2f]
  | .int, .double => [.i2d]
  | .long, .int => .l2i :: narrowing target
  | .long, .float => [.l2f]
  | .long, .double => [.l2d]
  | .float, .int => .f2i :: narrowing target
  | .float, .long => [.f2l]
  | .float, .double => [.f2d]
  | .double, .int => .d2i :: narrowing target
  | .double, .long => [.d2l]
  | .double, .float => [.d2f]
  | _, _ => []

end BytecodeLowering.Lowering
