import ClassForge.Instruction.Basic
import ClassForge.Instruction.Opcode
import ClassForge.Pool.Entry

/-!
# Forms of constants and conversions

A literal has an opcode of its own, or is given in the operand of `bipush` or `sipush`, or is
loaded from the constant pool. A conversion between primitive types takes no opcode, one, or
two.
-/

namespace ClassForge

/-- How a literal gets onto the stack. -/
inductive ConstantForm where
  | opcode (op : UInt8)
  | bipush (value : UInt8)
  | sipush (value : UInt16)
  /-- By its index in the pool. A wide value always has an index of two bytes. -/
  | pooled (entry : PoolEntry) (wide : Bool)
  deriving DecidableEq

/-- The form of a literal. -/
def Constant.form : Constant → ConstantForm
  | .int value =>
    let n := value.toInt
    if -1 ≤ n ∧ n ≤ 5 then .opcode (Opcode.iconst0 + value.toUInt32.toUInt8)
    else if -128 ≤ n ∧ n ≤ 127 then .bipush value.toUInt32.toUInt8
    else if -32768 ≤ n ∧ n ≤ 32767 then .sipush value.toUInt32.toUInt16
    else .pooled (.integer value) false
  | .long value =>
    if value = 0 then .opcode Opcode.lconst0
    else if value = 1 then .opcode (Opcode.lconst0 + 1)
    else .pooled (.long value) true
  | .float bits =>
    if bits = 0 then .opcode Opcode.fconst0
    else if bits = 0x3f800000 then .opcode (Opcode.fconst0 + 1)
    else if bits = 0x40000000 then .opcode (Opcode.fconst0 + 2)
    else .pooled (.float bits) false
  | .double bits =>
    if bits = 0 then .opcode Opcode.dconst0
    else if bits = 0x3ff0000000000000 then .opcode (Opcode.dconst0 + 1)
    else .pooled (.double bits) true
  | .string text => .pooled (.string text) false
  | .classOf type => .pooled (.ofClass type) false
  | .null => .opcode Opcode.aconstNull

/-- The kind of value that the machine computes with for a primitive type. -/
def Primitive.kind : Primitive → Kind
  | .long => .long
  | .float => .float
  | .double => .double
  | _ => .int

/-- The opcode that converts between kinds of numbers. -/
def conversionStep? : Kind → Kind → Option UInt8
  | .int, .long => some Opcode.i2l
  | .int, .float => some Opcode.i2f
  | .int, .double => some Opcode.i2d
  | .long, .int => some Opcode.l2i
  | .long, .float => some Opcode.l2f
  | .long, .double => some Opcode.l2d
  | .float, .int => some Opcode.f2i
  | .float, .long => some Opcode.f2l
  | .float, .double => some Opcode.f2d
  | .double, .int => some Opcode.d2i
  | .double, .long => some Opcode.d2l
  | .double, .float => some Opcode.d2f
  | _, _ => none

/-- The opcode that narrows an `int` to a smaller type. -/
def narrowing? : Primitive → Option UInt8
  | .byte => some Opcode.i2b
  | .char => some Opcode.i2c
  | .short => some Opcode.i2s
  | _ => none

/-- The opcodes of a conversion: between the kinds, then down to the size of the target
unless every value of the source has it already. -/
def conversionOpcodes (source target : Primitive) : List UInt8 :=
  let fits := source = target || (source = .byte && target = .short)
  (conversionStep? source.kind target.kind).toList
    ++ if fits then [] else (narrowing? target).toList

end ClassForge
