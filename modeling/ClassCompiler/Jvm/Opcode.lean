import ClassCompiler.Jvm.Ty

/-!
# Opcodes

The machine instructions the compiler emits, with their byte values and
mnemonics, and the choice of the instruction for a kind of value: which load,
store, return, array access, arithmetic or comparison a type calls for.
-/

namespace ClassCompiler

/-- A machine instruction, by its operation alone. -/
inductive Opcode where
  | nop
  | aconstNull
  | iconstM1
  | iconst0
  | iconst1
  | iconst2
  | iconst3
  | iconst4
  | iconst5
  | lconst0
  | lconst1
  | fconst0
  | fconst1
  | fconst2
  | dconst0
  | dconst1
  | bipush
  | sipush
  | ldc
  | ldcW
  | ldc2W
  | iload
  | lload
  | fload
  | dload
  | aload
  | istore
  | lstore
  | fstore
  | dstore
  | astore
  | iaload
  | laload
  | faload
  | daload
  | aaload
  | baload
  | caload
  | saload
  | iastore
  | lastore
  | fastore
  | dastore
  | aastore
  | bastore
  | castore
  | sastore
  | pop
  | pop2
  | dup
  | dupX1
  | dupX2
  | dup2
  | dup2X1
  | dup2X2
  | swap
  | iadd
  | ladd
  | fadd
  | dadd
  | isub
  | lsub
  | fsub
  | dsub
  | imul
  | lmul
  | fmul
  | dmul
  | idiv
  | ldiv
  | fdiv
  | ddiv
  | irem
  | lrem
  | frem
  | drem
  | ineg
  | lneg
  | fneg
  | dneg
  | iand
  | ior
  | ixor
  | i2l
  | i2f
  | i2d
  | l2i
  | l2f
  | l2d
  | f2i
  | f2l
  | f2d
  | d2i
  | d2l
  | d2f
  | i2b
  | i2c
  | i2s
  | lcmp
  | fcmpl
  | fcmpg
  | dcmpl
  | dcmpg
  | ifeq
  | ifne
  | iflt
  | ifge
  | ifgt
  | ifle
  | ifIcmpeq
  | ifIcmpne
  | ifIcmplt
  | ifIcmpge
  | ifIcmpgt
  | ifIcmple
  | ifAcmpeq
  | ifAcmpne
  | goto
  | ireturn
  | lreturn
  | freturn
  | dreturn
  | areturn
  | returnVoid
  | getstatic
  | putstatic
  | getfield
  | putfield
  | invokevirtual
  | invokespecial
  | invokestatic
  | invokeinterface
  | newObject
  | newarray
  | anewarray
  | arraylength
  | checkcast
  | instanceof
  | wide
  | ifnull
  | ifnonnull
  deriving DecidableEq, Repr, Inhabited

namespace Opcode

/-- Every opcode, in the order of their byte values within each group. -/
def all : List Opcode := [
  .nop, .aconstNull, .iconstM1, .iconst0, .iconst1, .iconst2, .iconst3, .iconst4, .iconst5,
  .lconst0, .lconst1, .fconst0, .fconst1, .fconst2, .dconst0, .dconst1, .bipush, .sipush, .ldc,
  .ldcW, .ldc2W, .iload, .lload, .fload, .dload, .aload, .istore, .lstore, .fstore, .dstore,
  .astore, .iaload, .laload, .faload, .daload, .aaload, .baload, .caload, .saload, .iastore,
  .lastore, .fastore, .dastore, .aastore, .bastore, .castore, .sastore, .pop, .pop2, .dup,
  .dupX1, .dupX2, .dup2, .dup2X1, .dup2X2, .swap, .iadd, .ladd, .fadd, .dadd, .isub, .lsub,
  .fsub, .dsub, .imul, .lmul, .fmul, .dmul, .idiv, .ldiv, .fdiv, .ddiv, .irem, .lrem, .frem,
  .drem, .ineg, .lneg, .fneg, .dneg, .iand, .ior, .ixor, .i2l, .i2f, .i2d, .l2i, .l2f, .l2d,
  .f2i, .f2l, .f2d, .d2i, .d2l, .d2f, .i2b, .i2c, .i2s, .lcmp, .fcmpl, .fcmpg, .dcmpl, .dcmpg,
  .ifeq, .ifne, .iflt, .ifge, .ifgt, .ifle, .ifIcmpeq, .ifIcmpne, .ifIcmplt, .ifIcmpge,
  .ifIcmpgt, .ifIcmple, .ifAcmpeq, .ifAcmpne, .goto, .ireturn, .lreturn, .freturn, .dreturn,
  .areturn, .returnVoid, .getstatic, .putstatic, .getfield, .putfield, .invokevirtual,
  .invokespecial, .invokestatic, .invokeinterface, .newObject, .newarray, .anewarray,
  .arraylength, .checkcast, .instanceof, .wide, .ifnull, .ifnonnull]

/-- The byte value of an opcode. -/
def byte : Opcode → Nat
  | .nop => 0x00
  | .aconstNull => 0x01
  | .iconstM1 => 0x02
  | .iconst0 => 0x03
  | .iconst1 => 0x04
  | .iconst2 => 0x05
  | .iconst3 => 0x06
  | .iconst4 => 0x07
  | .iconst5 => 0x08
  | .lconst0 => 0x09
  | .lconst1 => 0x0a
  | .fconst0 => 0x0b
  | .fconst1 => 0x0c
  | .fconst2 => 0x0d
  | .dconst0 => 0x0e
  | .dconst1 => 0x0f
  | .bipush => 0x10
  | .sipush => 0x11
  | .ldc => 0x12
  | .ldcW => 0x13
  | .ldc2W => 0x14
  | .iload => 0x15
  | .lload => 0x16
  | .fload => 0x17
  | .dload => 0x18
  | .aload => 0x19
  | .istore => 0x36
  | .lstore => 0x37
  | .fstore => 0x38
  | .dstore => 0x39
  | .astore => 0x3a
  | .iaload => 0x2e
  | .laload => 0x2f
  | .faload => 0x30
  | .daload => 0x31
  | .aaload => 0x32
  | .baload => 0x33
  | .caload => 0x34
  | .saload => 0x35
  | .iastore => 0x4f
  | .lastore => 0x50
  | .fastore => 0x51
  | .dastore => 0x52
  | .aastore => 0x53
  | .bastore => 0x54
  | .castore => 0x55
  | .sastore => 0x56
  | .pop => 0x57
  | .pop2 => 0x58
  | .dup => 0x59
  | .dupX1 => 0x5a
  | .dupX2 => 0x5b
  | .dup2 => 0x5c
  | .dup2X1 => 0x5d
  | .dup2X2 => 0x5e
  | .swap => 0x5f
  | .iadd => 0x60
  | .ladd => 0x61
  | .fadd => 0x62
  | .dadd => 0x63
  | .isub => 0x64
  | .lsub => 0x65
  | .fsub => 0x66
  | .dsub => 0x67
  | .imul => 0x68
  | .lmul => 0x69
  | .fmul => 0x6a
  | .dmul => 0x6b
  | .idiv => 0x6c
  | .ldiv => 0x6d
  | .fdiv => 0x6e
  | .ddiv => 0x6f
  | .irem => 0x70
  | .lrem => 0x71
  | .frem => 0x72
  | .drem => 0x73
  | .ineg => 0x74
  | .lneg => 0x75
  | .fneg => 0x76
  | .dneg => 0x77
  | .iand => 0x7e
  | .ior => 0x80
  | .ixor => 0x82
  | .i2l => 0x85
  | .i2f => 0x86
  | .i2d => 0x87
  | .l2i => 0x88
  | .l2f => 0x89
  | .l2d => 0x8a
  | .f2i => 0x8b
  | .f2l => 0x8c
  | .f2d => 0x8d
  | .d2i => 0x8e
  | .d2l => 0x8f
  | .d2f => 0x90
  | .i2b => 0x91
  | .i2c => 0x92
  | .i2s => 0x93
  | .lcmp => 0x94
  | .fcmpl => 0x95
  | .fcmpg => 0x96
  | .dcmpl => 0x97
  | .dcmpg => 0x98
  | .ifeq => 0x99
  | .ifne => 0x9a
  | .iflt => 0x9b
  | .ifge => 0x9c
  | .ifgt => 0x9d
  | .ifle => 0x9e
  | .ifIcmpeq => 0x9f
  | .ifIcmpne => 0xa0
  | .ifIcmplt => 0xa1
  | .ifIcmpge => 0xa2
  | .ifIcmpgt => 0xa3
  | .ifIcmple => 0xa4
  | .ifAcmpeq => 0xa5
  | .ifAcmpne => 0xa6
  | .goto => 0xa7
  | .ireturn => 0xac
  | .lreturn => 0xad
  | .freturn => 0xae
  | .dreturn => 0xaf
  | .areturn => 0xb0
  | .returnVoid => 0xb1
  | .getstatic => 0xb2
  | .putstatic => 0xb3
  | .getfield => 0xb4
  | .putfield => 0xb5
  | .invokevirtual => 0xb6
  | .invokespecial => 0xb7
  | .invokestatic => 0xb8
  | .invokeinterface => 0xb9
  | .newObject => 0xbb
  | .newarray => 0xbc
  | .anewarray => 0xbd
  | .arraylength => 0xbe
  | .checkcast => 0xc0
  | .instanceof => 0xc1
  | .wide => 0xc4
  | .ifnull => 0xc6
  | .ifnonnull => 0xc7

/-- The mnemonic of an opcode, as the instruction listings write it. -/
def mnemonic : Opcode → String
  | .nop => "NOP"
  | .aconstNull => "ACONST_NULL"
  | .iconstM1 => "ICONST_M1"
  | .iconst0 => "ICONST_0"
  | .iconst1 => "ICONST_1"
  | .iconst2 => "ICONST_2"
  | .iconst3 => "ICONST_3"
  | .iconst4 => "ICONST_4"
  | .iconst5 => "ICONST_5"
  | .lconst0 => "LCONST_0"
  | .lconst1 => "LCONST_1"
  | .fconst0 => "FCONST_0"
  | .fconst1 => "FCONST_1"
  | .fconst2 => "FCONST_2"
  | .dconst0 => "DCONST_0"
  | .dconst1 => "DCONST_1"
  | .bipush => "BIPUSH"
  | .sipush => "SIPUSH"
  | .ldc => "LDC"
  | .ldcW => "LDC_W"
  | .ldc2W => "LDC2_W"
  | .iload => "ILOAD"
  | .lload => "LLOAD"
  | .fload => "FLOAD"
  | .dload => "DLOAD"
  | .aload => "ALOAD"
  | .istore => "ISTORE"
  | .lstore => "LSTORE"
  | .fstore => "FSTORE"
  | .dstore => "DSTORE"
  | .astore => "ASTORE"
  | .iaload => "IALOAD"
  | .laload => "LALOAD"
  | .faload => "FALOAD"
  | .daload => "DALOAD"
  | .aaload => "AALOAD"
  | .baload => "BALOAD"
  | .caload => "CALOAD"
  | .saload => "SALOAD"
  | .iastore => "IASTORE"
  | .lastore => "LASTORE"
  | .fastore => "FASTORE"
  | .dastore => "DASTORE"
  | .aastore => "AASTORE"
  | .bastore => "BASTORE"
  | .castore => "CASTORE"
  | .sastore => "SASTORE"
  | .pop => "POP"
  | .pop2 => "POP2"
  | .dup => "DUP"
  | .dupX1 => "DUP_X1"
  | .dupX2 => "DUP_X2"
  | .dup2 => "DUP2"
  | .dup2X1 => "DUP2_X1"
  | .dup2X2 => "DUP2_X2"
  | .swap => "SWAP"
  | .iadd => "IADD"
  | .ladd => "LADD"
  | .fadd => "FADD"
  | .dadd => "DADD"
  | .isub => "ISUB"
  | .lsub => "LSUB"
  | .fsub => "FSUB"
  | .dsub => "DSUB"
  | .imul => "IMUL"
  | .lmul => "LMUL"
  | .fmul => "FMUL"
  | .dmul => "DMUL"
  | .idiv => "IDIV"
  | .ldiv => "LDIV"
  | .fdiv => "FDIV"
  | .ddiv => "DDIV"
  | .irem => "IREM"
  | .lrem => "LREM"
  | .frem => "FREM"
  | .drem => "DREM"
  | .ineg => "INEG"
  | .lneg => "LNEG"
  | .fneg => "FNEG"
  | .dneg => "DNEG"
  | .iand => "IAND"
  | .ior => "IOR"
  | .ixor => "IXOR"
  | .i2l => "I2L"
  | .i2f => "I2F"
  | .i2d => "I2D"
  | .l2i => "L2I"
  | .l2f => "L2F"
  | .l2d => "L2D"
  | .f2i => "F2I"
  | .f2l => "F2L"
  | .f2d => "F2D"
  | .d2i => "D2I"
  | .d2l => "D2L"
  | .d2f => "D2F"
  | .i2b => "I2B"
  | .i2c => "I2C"
  | .i2s => "I2S"
  | .lcmp => "LCMP"
  | .fcmpl => "FCMPL"
  | .fcmpg => "FCMPG"
  | .dcmpl => "DCMPL"
  | .dcmpg => "DCMPG"
  | .ifeq => "IFEQ"
  | .ifne => "IFNE"
  | .iflt => "IFLT"
  | .ifge => "IFGE"
  | .ifgt => "IFGT"
  | .ifle => "IFLE"
  | .ifIcmpeq => "IF_ICMPEQ"
  | .ifIcmpne => "IF_ICMPNE"
  | .ifIcmplt => "IF_ICMPLT"
  | .ifIcmpge => "IF_ICMPGE"
  | .ifIcmpgt => "IF_ICMPGT"
  | .ifIcmple => "IF_ICMPLE"
  | .ifAcmpeq => "IF_ACMPEQ"
  | .ifAcmpne => "IF_ACMPNE"
  | .goto => "GOTO"
  | .ireturn => "IRETURN"
  | .lreturn => "LRETURN"
  | .freturn => "FRETURN"
  | .dreturn => "DRETURN"
  | .areturn => "ARETURN"
  | .returnVoid => "RETURN"
  | .getstatic => "GETSTATIC"
  | .putstatic => "PUTSTATIC"
  | .getfield => "GETFIELD"
  | .putfield => "PUTFIELD"
  | .invokevirtual => "INVOKEVIRTUAL"
  | .invokespecial => "INVOKESPECIAL"
  | .invokestatic => "INVOKESTATIC"
  | .invokeinterface => "INVOKEINTERFACE"
  | .newObject => "NEW"
  | .newarray => "NEWARRAY"
  | .anewarray => "ANEWARRAY"
  | .arraylength => "ARRAYLENGTH"
  | .checkcast => "CHECKCAST"
  | .instanceof => "INSTANCEOF"
  | .wide => "WIDE"
  | .ifnull => "IFNULL"
  | .ifnonnull => "IFNONNULL"

/-- The opcode with a byte value. -/
def ofByte? (b : Nat) : Option Opcode := all.find? (·.byte == b)

/-- The opcode with a mnemonic. -/
def ofMnemonic? (s : String) : Option Opcode := all.find? (·.mnemonic == s)

/-- The returns. -/
def isReturn : Opcode → Bool
  | .ireturn | .lreturn | .freturn | .dreturn | .areturn | .returnVoid => true
  | _ => false

/-- The jumps, which take a label. -/
def isJump : Opcode → Bool
  | .ifeq | .ifne | .iflt | .ifge | .ifgt | .ifle
  | .ifIcmpeq | .ifIcmpne | .ifIcmplt | .ifIcmpge | .ifIcmpgt | .ifIcmple
  | .ifAcmpeq | .ifAcmpne | .goto | .ifnull | .ifnonnull => true
  | _ => false

/-- The instructions after which control never reaches the next one. -/
def endsBlock (op : Opcode) : Bool := op == .goto || op.isReturn

/-- The load of a local of a kind. -/
def loadFor : Kind → Opcode
  | .int => .iload
  | .long => .lload
  | .float => .fload
  | .double => .dload
  | .reference | .void => .aload

/-- The store into a local of a kind. -/
def storeFor : Kind → Opcode
  | .int => .istore
  | .long => .lstore
  | .float => .fstore
  | .double => .dstore
  | .reference | .void => .astore

/-- The return of a value of a kind. -/
def returnFor : Kind → Opcode
  | .void => .returnVoid
  | .int => .ireturn
  | .long => .lreturn
  | .float => .freturn
  | .double => .dreturn
  | .reference => .areturn

/-- The load of an array element of a type. -/
def arrayLoadFor : Ty → Opcode
  | .bool | .byte => .baload
  | .char => .caload
  | .short => .saload
  | .int => .iaload
  | .long => .laload
  | .float => .faload
  | .double => .daload
  | _ => .aaload

/-- The store of an array element of a type. -/
def arrayStoreFor : Ty → Opcode
  | .bool | .byte => .bastore
  | .char => .castore
  | .short => .sastore
  | .int => .iastore
  | .long => .lastore
  | .float => .fastore
  | .double => .dastore
  | _ => .aastore

/-- The element type code of `NEWARRAY` for a primitive element type. -/
def newarrayCode? : Ty → Option Nat
  | .bool => some 4
  | .char => some 5
  | .float => some 6
  | .double => some 7
  | .byte => some 8
  | .short => some 9
  | .int => some 10
  | .long => some 11
  | _ => none

/-- The four arithmetic operations and the remainder. -/
inductive Arith where
  | add | sub | mul | div | rem
  deriving DecidableEq, Repr

/-- The six comparisons. -/
inductive Comparison where
  | eq | ne | lt | le | gt | ge
  deriving DecidableEq, Repr

def Comparison.isEquality : Comparison → Bool
  | .eq | .ne => true
  | _ => false

/-- The arithmetic instruction for a kind of operands. -/
def arith : Arith → Kind → Option Opcode
  | .add, .int => some .iadd
  | .add, .long => some .ladd
  | .add, .float => some .fadd
  | .add, .double => some .dadd
  | .sub, .int => some .isub
  | .sub, .long => some .lsub
  | .sub, .float => some .fsub
  | .sub, .double => some .dsub
  | .mul, .int => some .imul
  | .mul, .long => some .lmul
  | .mul, .float => some .fmul
  | .mul, .double => some .dmul
  | .div, .int => some .idiv
  | .div, .long => some .ldiv
  | .div, .float => some .fdiv
  | .div, .double => some .ddiv
  | .rem, .int => some .irem
  | .rem, .long => some .lrem
  | .rem, .float => some .frem
  | .rem, .double => some .drem
  | _, _ => none

/-- The negation for a kind. -/
def negate : Kind → Option Opcode
  | .int => some .ineg
  | .long => some .lneg
  | .float => some .fneg
  | .double => some .dneg
  | _ => none

/-- The jump taken when the int on the stack compares to zero as asked. -/
def ifZero : Comparison → Opcode
  | .eq => .ifeq
  | .ne => .ifne
  | .lt => .iflt
  | .le => .ifle
  | .gt => .ifgt
  | .ge => .ifge

/-- The jump taken when two ints compare as asked. -/
def ifIcmp : Comparison → Opcode
  | .eq => .ifIcmpeq
  | .ne => .ifIcmpne
  | .lt => .ifIcmplt
  | .le => .ifIcmple
  | .gt => .ifIcmpgt
  | .ge => .ifIcmpge

/-- The jump taken when two references are the same or not; references have
    no order. -/
def ifAcmp : Comparison → Option Opcode
  | .eq => some .ifAcmpeq
  | .ne => some .ifAcmpne
  | _ => none

/-- The instruction comparing two wide or floating values into an int. For a
    "less" comparison the NaN case gives 1, so that the jump is not taken. -/
def compare (k : Kind) (c : Comparison) : Option Opcode :=
  let less := c == .lt || c == .le
  match k with
  | .long => some .lcmp
  | .float => some (if less then .fcmpg else .fcmpl)
  | .double => some (if less then .dcmpg else .dcmpl)
  | _ => none

end Opcode

end ClassCompiler
