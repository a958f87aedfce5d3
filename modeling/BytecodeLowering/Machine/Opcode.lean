/-!
# Opcodes

The operations of the machine that lowered code uses.

* `Opcode.code`, `Opcode.mnemonic`: the number and the name of an operation.
* `Opcode.isJump`, `Opcode.endsFlow`: what an operation does with control.
* `Opcode.varWidth?`: the width of the local variable that an operation loads or stores.
* `Opcode.effect?`: the slots that an operation takes from and leaves on the operand stack, where
  its operands do not matter.
-/

namespace BytecodeLowering.Machine

/-- An operation of the machine, in the order of the numbers. -/
inductive Opcode where
  | nop
  | aconstNull
  | iconstM1
  | iconst0
  | iconst1
  | iconst2
  | iconst3
  | iconst4
  | iconst5
  | lconst0
  | lconst1
  | fconst0
  | fconst1
  | fconst2
  | dconst0
  | dconst1
  | bipush
  | sipush
  | ldc
  | iload
  | lload
  | fload
  | dload
  | aload
  | iaload
  | laload
  | faload
  | daload
  | aaload
  | baload
  | caload
  | saload
  | istore
  | lstore
  | fstore
  | dstore
  | astore
  | iastore
  | lastore
  | fastore
  | dastore
  | aastore
  | bastore
  | castore
  | sastore
  | pop
  | pop2
  | dup
  | iadd
  | ladd
  | fadd
  | dadd
  | isub
  | lsub
  | fsub
  | dsub
  | imul
  | lmul
  | fmul
  | dmul
  | idiv
  | ldiv
  | fdiv
  | ddiv
  | irem
  | lrem
  | frem
  | drem
  | ineg
  | lneg
  | fneg
  | dneg
  | ishl
  | lshl
  | ishr
  | lshr
  | iushr
  | lushr
  | iand
  | land
  | ior
  | lor
  | ixor
  | lxor
  | i2l
  | i2f
  | i2d
  | l2i
  | l2f
  | l2d
  | f2i
  | f2l
  | f2d
  | d2i
  | d2l
  | d2f
  | i2b
  | i2c
  | i2s
  | lcmp
  | fcmpl
  | fcmpg
  | dcmpl
  | dcmpg
  | ifeq
  | ifne
  | iflt
  | ifge
  | ifgt
  | ifle
  | ifIcmpeq
  | ifIcmpne
  | ifIcmplt
  | ifIcmpge
  | ifIcmpgt
  | ifIcmple
  | ifAcmpeq
  | ifAcmpne
  | goto
  | tableswitch
  | lookupswitch
  | ireturn
  | lreturn
  | freturn
  | dreturn
  | areturn
  | return
  | getstatic
  | putstatic
  | getfield
  | putfield
  | invokevirtual
  | invokespecial
  | invokestatic
  | invokeinterface
  | invokedynamic
  | new
  | newarray
  | anewarray
  | arraylength
  | athrow
  | checkcast
  | instanceof
  | monitorenter
  | monitorexit
  | multianewarray
  | ifnull
  | ifnonnull
  deriving DecidableEq, Repr

namespace Opcode

/-- All operations, in the order of their numbers. -/
def all : List Opcode :=
  [.nop, .aconstNull, .iconstM1, .iconst0, .iconst1, .iconst2, .iconst3, .iconst4, .iconst5,
    .lconst0, .lconst1, .fconst0, .fconst1, .fconst2, .dconst0, .dconst1, .bipush, .sipush, .ldc,
    .iload, .lload, .fload, .dload, .aload, .iaload, .laload, .faload, .daload, .aaload, .baload,
    .caload, .saload, .istore, .lstore, .fstore, .dstore, .astore, .iastore, .lastore, .fastore,
    .dastore, .aastore, .bastore, .castore, .sastore, .pop, .pop2, .dup, .iadd, .ladd, .fadd,
    .dadd, .isub, .lsub, .fsub, .dsub, .imul, .lmul, .fmul, .dmul, .idiv, .ldiv, .fdiv, .ddiv,
    .irem, .lrem, .frem, .drem, .ineg, .lneg, .fneg, .dneg, .ishl, .lshl, .ishr, .lshr, .iushr,
    .lushr, .iand, .land, .ior, .lor, .ixor, .lxor, .i2l, .i2f, .i2d, .l2i, .l2f, .l2d, .f2i, .f2l,
    .f2d, .d2i, .d2l, .d2f, .i2b, .i2c, .i2s, .lcmp, .fcmpl, .fcmpg, .dcmpl, .dcmpg, .ifeq, .ifne,
    .iflt, .ifge, .ifgt, .ifle, .ifIcmpeq, .ifIcmpne, .ifIcmplt, .ifIcmpge, .ifIcmpgt, .ifIcmple,
    .ifAcmpeq, .ifAcmpne, .goto, .tableswitch, .lookupswitch, .ireturn, .lreturn, .freturn,
    .dreturn, .areturn, .return, .getstatic, .putstatic, .getfield, .putfield, .invokevirtual,
    .invokespecial, .invokestatic, .invokeinterface, .invokedynamic, .new, .newarray, .anewarray,
    .arraylength, .athrow, .checkcast, .instanceof, .monitorenter, .monitorexit, .multianewarray,
    .ifnull, .ifnonnull]

/-- The number of an operation in code. -/
def code : Opcode → Nat
  | .nop => 0x00
  | .aconstNull => 0x01
  | .iconstM1 => 0x02
  | .iconst0 => 0x03
  | .iconst1 => 0x04
  | .iconst2 => 0x05
  | .iconst3 => 0x06
  | .iconst4 => 0x07
  | .iconst5 => 0x08
  | .lconst0 => 0x09
  | .lconst1 => 0x0a
  | .fconst0 => 0x0b
  | .fconst1 => 0x0c
  | .fconst2 => 0x0d
  | .dconst0 => 0x0e
  | .dconst1 => 0x0f
  | .bipush => 0x10
  | .sipush => 0x11
  | .ldc => 0x12
  | .iload => 0x15
  | .lload => 0x16
  | .fload => 0x17
  | .dload => 0x18
  | .aload => 0x19
  | .iaload => 0x2e
  | .laload => 0x2f
  | .faload => 0x30
  | .daload => 0x31
  | .aaload => 0x32
  | .baload => 0x33
  | .caload => 0x34
  | .saload => 0x35
  | .istore => 0x36
  | .lstore => 0x37
  | .fstore => 0x38
  | .dstore => 0x39
  | .astore => 0x3a
  | .iastore => 0x4f
  | .lastore => 0x50
  | .fastore => 0x51
  | .dastore => 0x52
  | .aastore => 0x53
  | .bastore => 0x54
  | .castore => 0x55
  | .sastore => 0x56
  | .pop => 0x57
  | .pop2 => 0x58
  | .dup => 0x59
  | .iadd => 0x60
  | .ladd => 0x61
  | .fadd => 0x62
  | .dadd => 0x63
  | .isub => 0x64
  | .lsub => 0x65
  | .fsub => 0x66
  | .dsub => 0x67
  | .imul => 0x68
  | .lmul => 0x69
  | .fmul => 0x6a
  | .dmul => 0x6b
  | .idiv => 0x6c
  | .ldiv => 0x6d
  | .fdiv => 0x6e
  | .ddiv => 0x6f
  | .irem => 0x70
  | .lrem => 0x71
  | .frem => 0x72
  | .drem => 0x73
  | .ineg => 0x74
  | .lneg => 0x75
  | .fneg => 0x76
  | .dneg => 0x77
  | .ishl => 0x78
  | .lshl => 0x79
  | .ishr => 0x7a
  | .lshr => 0x7b
  | .iushr => 0x7c
  | .lushr => 0x7d
  | .iand => 0x7e
  | .land => 0x7f
  | .ior => 0x80
  | .lor => 0x81
  | .ixor => 0x82
  | .lxor => 0x83
  | .i2l => 0x85
  | .i2f => 0x86
  | .i2d => 0x87
  | .l2i => 0x88
  | .l2f => 0x89
  | .l2d => 0x8a
  | .f2i => 0x8b
  | .f2l => 0x8c
  | .f2d => 0x8d
  | .d2i => 0x8e
  | .d2l => 0x8f
  | .d2f => 0x90
  | .i2b => 0x91
  | .i2c => 0x92
  | .i2s => 0x93
  | .lcmp => 0x94
  | .fcmpl => 0x95
  | .fcmpg => 0x96
  | .dcmpl => 0x97
  | .dcmpg => 0x98
  | .ifeq => 0x99
  | .ifne => 0x9a
  | .iflt => 0x9b
  | .ifge => 0x9c
  | .ifgt => 0x9d
  | .ifle => 0x9e
  | .ifIcmpeq => 0x9f
  | .ifIcmpne => 0xa0
  | .ifIcmplt => 0xa1
  | .ifIcmpge => 0xa2
  | .ifIcmpgt => 0xa3
  | .ifIcmple => 0xa4
  | .ifAcmpeq => 0xa5
  | .ifAcmpne => 0xa6
  | .goto => 0xa7
  | .tableswitch => 0xaa
  | .lookupswitch => 0xab
  | .ireturn => 0xac
  | .lreturn => 0xad
  | .freturn => 0xae
  | .dreturn => 0xaf
  | .areturn => 0xb0
  | .return => 0xb1
  | .getstatic => 0xb2
  | .putstatic => 0xb3
  | .getfield => 0xb4
  | .putfield => 0xb5
  | .invokevirtual => 0xb6
  | .invokespecial => 0xb7
  | .invokestatic => 0xb8
  | .invokeinterface => 0xb9
  | .invokedynamic => 0xba
  | .new => 0xbb
  | .newarray => 0xbc
  | .anewarray => 0xbd
  | .arraylength => 0xbe
  | .athrow => 0xbf
  | .checkcast => 0xc0
  | .instanceof => 0xc1
  | .monitorenter => 0xc2
  | .monitorexit => 0xc3
  | .multianewarray => 0xc5
  | .ifnull => 0xc6
  | .ifnonnull => 0xc7

/-- The name of an operation. -/
def mnemonic : Opcode → String
  | .nop => "nop"
  | .aconstNull => "aconst_null"
  | .iconstM1 => "iconst_m1"
  | .iconst0 => "iconst_0"
  | .iconst1 => "iconst_1"
  | .iconst2 => "iconst_2"
  | .iconst3 => "iconst_3"
  | .iconst4 => "iconst_4"
  | .iconst5 => "iconst_5"
  | .lconst0 => "lconst_0"
  | .lconst1 => "lconst_1"
  | .fconst0 => "fconst_0"
  | .fconst1 => "fconst_1"
  | .fconst2 => "fconst_2"
  | .dconst0 => "dconst_0"
  | .dconst1 => "dconst_1"
  | .bipush => "bipush"
  | .sipush => "sipush"
  | .ldc => "ldc"
  | .iload => "iload"
  | .lload => "lload"
  | .fload => "fload"
  | .dload => "dload"
  | .aload => "aload"
  | .iaload => "iaload"
  | .laload => "laload"
  | .faload => "faload"
  | .daload => "daload"
  | .aaload => "aaload"
  | .baload => "baload"
  | .caload => "caload"
  | .saload => "saload"
  | .istore => "istore"
  | .lstore => "lstore"
  | .fstore => "fstore"
  | .dstore => "dstore"
  | .astore => "astore"
  | .iastore => "iastore"
  | .lastore => "lastore"
  | .fastore => "fastore"
  | .dastore => "dastore"
  | .aastore => "aastore"
  | .bastore => "bastore"
  | .castore => "castore"
  | .sastore => "sastore"
  | .pop => "pop"
  | .pop2 => "pop2"
  | .dup => "dup"
  | .iadd => "iadd"
  | .ladd => "ladd"
  | .fadd => "fadd"
  | .dadd => "dadd"
  | .isub => "isub"
  | .lsub => "lsub"
  | .fsub => "fsub"
  | .dsub => "dsub"
  | .imul => "imul"
  | .lmul => "lmul"
  | .fmul => "fmul"
  | .dmul => "dmul"
  | .idiv => "idiv"
  | .ldiv => "ldiv"
  | .fdiv => "fdiv"
  | .ddiv => "ddiv"
  | .irem => "irem"
  | .lrem => "lrem"
  | .frem => "frem"
  | .drem => "drem"
  | .ineg => "ineg"
  | .lneg => "lneg"
  | .fneg => "fneg"
  | .dneg => "dneg"
  | .ishl => "ishl"
  | .lshl => "lshl"
  | .ishr => "ishr"
  | .lshr => "lshr"
  | .iushr => "iushr"
  | .lushr => "lushr"
  | .iand => "iand"
  | .land => "land"
  | .ior => "ior"
  | .lor => "lor"
  | .ixor => "ixor"
  | .lxor => "lxor"
  | .i2l => "i2l"
  | .i2f => "i2f"
  | .i2d => "i2d"
  | .l2i => "l2i"
  | .l2f => "l2f"
  | .l2d => "l2d"
  | .f2i => "f2i"
  | .f2l => "f2l"
  | .f2d => "f2d"
  | .d2i => "d2i"
  | .d2l => "d2l"
  | .d2f => "d2f"
  | .i2b => "i2b"
  | .i2c => "i2c"
  | .i2s => "i2s"
  | .lcmp => "lcmp"
  | .fcmpl => "fcmpl"
  | .fcmpg => "fcmpg"
  | .dcmpl => "dcmpl"
  | .dcmpg => "dcmpg"
  | .ifeq => "ifeq"
  | .ifne => "ifne"
  | .iflt => "iflt"
  | .ifge => "ifge"
  | .ifgt => "ifgt"
  | .ifle => "ifle"
  | .ifIcmpeq => "if_icmpeq"
  | .ifIcmpne => "if_icmpne"
  | .ifIcmplt => "if_icmplt"
  | .ifIcmpge => "if_icmpge"
  | .ifIcmpgt => "if_icmpgt"
  | .ifIcmple => "if_icmple"
  | .ifAcmpeq => "if_acmpeq"
  | .ifAcmpne => "if_acmpne"
  | .goto => "goto"
  | .tableswitch => "tableswitch"
  | .lookupswitch => "lookupswitch"
  | .ireturn => "ireturn"
  | .lreturn => "lreturn"
  | .freturn => "freturn"
  | .dreturn => "dreturn"
  | .areturn => "areturn"
  | .return => "return"
  | .getstatic => "getstatic"
  | .putstatic => "putstatic"
  | .getfield => "getfield"
  | .putfield => "putfield"
  | .invokevirtual => "invokevirtual"
  | .invokespecial => "invokespecial"
  | .invokestatic => "invokestatic"
  | .invokeinterface => "invokeinterface"
  | .invokedynamic => "invokedynamic"
  | .new => "new"
  | .newarray => "newarray"
  | .anewarray => "anewarray"
  | .arraylength => "arraylength"
  | .athrow => "athrow"
  | .checkcast => "checkcast"
  | .instanceof => "instanceof"
  | .monitorenter => "monitorenter"
  | .monitorexit => "monitorexit"
  | .multianewarray => "multianewarray"
  | .ifnull => "ifnull"
  | .ifnonnull => "ifnonnull"

/-- The operation with the given name. -/
def ofMnemonic? (s : String) : Option Opcode :=
  all.find? fun op => op.mnemonic = s

/-- Whether the operation is a jump, conditional or not, to one label. -/
def isJump : Opcode → Bool
  | .ifeq | .ifne | .iflt | .ifge | .ifgt | .ifle | .ifIcmpeq | .ifIcmpne | .ifIcmplt | .ifIcmpge |
    .ifIcmpgt | .ifIcmple | .ifAcmpeq | .ifAcmpne | .goto | .ifnull | .ifnonnull => true
  | _ => false

/-- Whether control never goes on with the next instruction. -/
def endsFlow : Opcode → Bool
  | .goto | .tableswitch | .lookupswitch | .ireturn | .lreturn | .freturn | .dreturn | .areturn |
    .return | .athrow => true
  | _ => false

/-- The width of the local variable that the operation loads or stores, if it does. -/
def varWidth? : Opcode → Option Nat
  | .iload | .fload | .aload | .istore | .fstore | .astore => some 1
  | .lload | .dload | .lstore | .dstore => some 2
  | _ => none

/-- The slots that the operation takes from the operand stack and leaves on it; `none` where they
depend on a descriptor or a constant. -/
def effect? : Opcode → Option (Nat × Nat)
  | .nop | .goto | .return => some (0, 0)
  | .aconstNull | .iconstM1 | .iconst0 | .iconst1 | .iconst2 | .iconst3 | .iconst4 | .iconst5 |
    .fconst0 | .fconst1 | .fconst2 | .bipush | .sipush | .iload | .fload | .aload |
    .new => some (0, 1)
  | .lconst0 | .lconst1 | .dconst0 | .dconst1 | .lload | .dload => some (0, 2)
  | .istore | .fstore | .astore | .pop | .ifeq | .ifne | .iflt | .ifge | .ifgt | .ifle | .ifnull |
    .ifnonnull | .tableswitch | .lookupswitch | .ireturn | .freturn | .areturn | .athrow |
    .monitorenter | .monitorexit => some (1, 0)
  | .lstore | .dstore | .pop2 | .lreturn | .dreturn | .ifIcmpeq | .ifIcmpne | .ifIcmplt |
    .ifIcmpge | .ifIcmpgt | .ifIcmple | .ifAcmpeq | .ifAcmpne => some (2, 0)
  | .iaload | .faload | .aaload | .baload | .caload | .saload => some (2, 1)
  | .laload | .daload => some (2, 2)
  | .iastore | .fastore | .aastore | .bastore | .castore | .sastore => some (3, 0)
  | .lastore | .dastore => some (4, 0)
  | .dup => some (1, 2)
  | .iadd | .fadd | .isub | .fsub | .imul | .fmul | .idiv | .fdiv | .irem | .frem | .ishl | .ishr |
    .iushr | .iand | .ior | .ixor | .fcmpl | .fcmpg => some (2, 1)
  | .ladd | .dadd | .lsub | .dsub | .lmul | .dmul | .ldiv | .ddiv | .lrem | .drem | .land | .lor |
    .lxor => some (4, 2)
  | .lshl | .lshr | .lushr => some (3, 2)
  | .lcmp | .dcmpl | .dcmpg => some (4, 1)
  | .ineg | .fneg | .i2f | .f2i | .i2b | .i2c | .i2s | .newarray | .anewarray | .arraylength |
    .checkcast | .instanceof => some (1, 1)
  | .lneg | .dneg | .l2d | .d2l => some (2, 2)
  | .i2l | .i2d | .f2l | .f2d => some (1, 2)
  | .l2i | .l2f | .d2i | .d2f => some (2, 1)
  | .ldc | .getstatic | .putstatic | .getfield | .putfield | .invokevirtual | .invokespecial |
    .invokestatic | .invokeinterface | .invokedynamic | .multianewarray => none

end Opcode

end BytecodeLowering.Machine
