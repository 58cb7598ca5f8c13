/-!
# Opcodes

The bytes that start encoded instructions, and the names by which listings show them. Of a
family of opcodes that differ in the kind of value or in the condition, only the first is
named; the others follow it in order.
-/

namespace ClassForge.Opcode

abbrev nop : UInt8 := 0x00
abbrev aconstNull : UInt8 := 0x01
abbrev iconst0 : UInt8 := 0x03
abbrev lconst0 : UInt8 := 0x09
abbrev fconst0 : UInt8 := 0x0b
abbrev dconst0 : UInt8 := 0x0e
abbrev bipush : UInt8 := 0x10
abbrev sipush : UInt8 := 0x11
abbrev ldc : UInt8 := 0x12
abbrev ldcW : UInt8 := 0x13
abbrev ldc2W : UInt8 := 0x14
abbrev iload : UInt8 := 0x15
abbrev iload0 : UInt8 := 0x1a
abbrev iaload : UInt8 := 0x2e
abbrev baload : UInt8 := 0x33
abbrev caload : UInt8 := 0x34
abbrev saload : UInt8 := 0x35
abbrev istore : UInt8 := 0x36
abbrev istore0 : UInt8 := 0x3b
abbrev iastore : UInt8 := 0x4f
abbrev bastore : UInt8 := 0x54
abbrev castore : UInt8 := 0x55
abbrev sastore : UInt8 := 0x56
abbrev pop : UInt8 := 0x57
abbrev pop2 : UInt8 := 0x58
abbrev dup : UInt8 := 0x59
abbrev dup2 : UInt8 := 0x5c
abbrev iadd : UInt8 := 0x60
abbrev isub : UInt8 := 0x64
abbrev imul : UInt8 := 0x68
abbrev idiv : UInt8 := 0x6c
abbrev irem : UInt8 := 0x70
abbrev ineg : UInt8 := 0x74
abbrev ishl : UInt8 := 0x78
abbrev ishr : UInt8 := 0x7a
abbrev iushr : UInt8 := 0x7c
abbrev iand : UInt8 := 0x7e
abbrev ior : UInt8 := 0x80
abbrev ixor : UInt8 := 0x82
abbrev iinc : UInt8 := 0x84
abbrev i2l : UInt8 := 0x85
abbrev i2f : UInt8 := 0x86
abbrev i2d : UInt8 := 0x87
abbrev l2i : UInt8 := 0x88
abbrev l2f : UInt8 := 0x89
abbrev l2d : UInt8 := 0x8a
abbrev f2i : UInt8 := 0x8b
abbrev f2l : UInt8 := 0x8c
abbrev f2d : UInt8 := 0x8d
abbrev d2i : UInt8 := 0x8e
abbrev d2l : UInt8 := 0x8f
abbrev d2f : UInt8 := 0x90
abbrev i2b : UInt8 := 0x91
abbrev i2c : UInt8 := 0x92
abbrev i2s : UInt8 := 0x93
abbrev lcmp : UInt8 := 0x94
abbrev fcmpl : UInt8 := 0x95
abbrev fcmpg : UInt8 := 0x96
abbrev dcmpl : UInt8 := 0x97
abbrev dcmpg : UInt8 := 0x98
abbrev ifeq : UInt8 := 0x99
abbrev ifIcmpeq : UInt8 := 0x9f
abbrev ifAcmpeq : UInt8 := 0xa5
abbrev goto : UInt8 := 0xa7
abbrev tableswitch : UInt8 := 0xaa
abbrev lookupswitch : UInt8 := 0xab
abbrev ireturn : UInt8 := 0xac
abbrev ret : UInt8 := 0xb1
abbrev getstatic : UInt8 := 0xb2
abbrev putstatic : UInt8 := 0xb3
abbrev getfield : UInt8 := 0xb4
abbrev putfield : UInt8 := 0xb5
abbrev invokevirtual : UInt8 := 0xb6
abbrev invokespecial : UInt8 := 0xb7
abbrev invokestatic : UInt8 := 0xb8
abbrev invokeinterface : UInt8 := 0xb9
abbrev new : UInt8 := 0xbb
abbrev newarray : UInt8 := 0xbc
abbrev anewarray : UInt8 := 0xbd
abbrev arraylength : UInt8 := 0xbe
abbrev athrow : UInt8 := 0xbf
abbrev checkcast : UInt8 := 0xc0
abbrev instanceof : UInt8 := 0xc1
abbrev monitorenter : UInt8 := 0xc2
abbrev monitorexit : UInt8 := 0xc3
abbrev wide : UInt8 := 0xc4
abbrev multianewarray : UInt8 := 0xc5
abbrev ifnull : UInt8 := 0xc6
abbrev ifnonnull : UInt8 := 0xc7
abbrev gotoW : UInt8 := 0xc8

/-- The names of the opcodes from zero on. -/
def mnemonics : Array String := #["nop", "aconst_null", "iconst_m1", "iconst_0", "iconst_1",
    "iconst_2", "iconst_3", "iconst_4", "iconst_5", "lconst_0", "lconst_1", "fconst_0",
    "fconst_1", "fconst_2", "dconst_0", "dconst_1", "bipush", "sipush", "ldc", "ldc_w", "ldc2_w",
    "iload", "lload", "fload", "dload", "aload", "iload_0", "iload_1", "iload_2", "iload_3",
    "lload_0", "lload_1", "lload_2", "lload_3", "fload_0", "fload_1", "fload_2", "fload_3",
    "dload_0", "dload_1", "dload_2", "dload_3", "aload_0", "aload_1", "aload_2", "aload_3",
    "iaload", "laload", "faload", "daload", "aaload", "baload", "caload", "saload", "istore",
    "lstore", "fstore", "dstore", "astore", "istore_0", "istore_1", "istore_2", "istore_3",
    "lstore_0", "lstore_1", "lstore_2", "lstore_3", "fstore_0", "fstore_1", "fstore_2",
    "fstore_3", "dstore_0", "dstore_1", "dstore_2", "dstore_3", "astore_0", "astore_1",
    "astore_2", "astore_3", "iastore", "lastore", "fastore", "dastore", "aastore", "bastore",
    "castore", "sastore", "pop", "pop2", "dup", "dup_x1", "dup_x2", "dup2", "dup2_x1", "dup2_x2",
    "swap", "iadd", "ladd", "fadd", "dadd", "isub", "lsub", "fsub", "dsub", "imul", "lmul",
    "fmul", "dmul", "idiv", "ldiv", "fdiv", "ddiv", "irem", "lrem", "frem", "drem", "ineg",
    "lneg", "fneg", "dneg", "ishl", "lshl", "ishr", "lshr", "iushr", "lushr", "iand", "land",
    "ior", "lor", "ixor", "lxor", "iinc", "i2l", "i2f", "i2d", "l2i", "l2f", "l2d", "f2i", "f2l",
    "f2d", "d2i", "d2l", "d2f", "i2b", "i2c", "i2s", "lcmp", "fcmpl", "fcmpg", "dcmpl", "dcmpg",
    "ifeq", "ifne", "iflt", "ifge", "ifgt", "ifle", "if_icmpeq", "if_icmpne", "if_icmplt",
    "if_icmpge", "if_icmpgt", "if_icmple", "if_acmpeq", "if_acmpne", "goto", "jsr", "ret",
    "tableswitch", "lookupswitch", "ireturn", "lreturn", "freturn", "dreturn", "areturn",
    "return", "getstatic", "putstatic", "getfield", "putfield", "invokevirtual", "invokespecial",
    "invokestatic", "invokeinterface", "invokedynamic", "new", "newarray", "anewarray",
    "arraylength", "athrow", "checkcast", "instanceof", "monitorenter", "monitorexit", "wide",
    "multianewarray", "ifnull", "ifnonnull", "goto_w"]

/-- The name of an opcode. -/
def mnemonic? (opcode : UInt8) : Option String :=
  mnemonics[opcode.toNat]?

end ClassForge.Opcode
