import ClassForge.Bytes
import ClassForge.Instruction.Checked
import ClassForge.Instruction.Effect
import ClassForge.Instruction.LabelTable
import ClassForge.Pool.Frozen

/-!
# Encoding of instructions

The bytes of an instruction at an offset, and the number of bytes that layout reserves for it
there. The two agree except on a jump too far for two bytes, for which layout reserves the
near form, and on a switch whose length does not fit into 32 bits.
-/

namespace ClassForge

/-- A lookup in the pool on behalf of an instruction. -/
def FrozenPool.operand (pool : FrozenPool) (e : PoolEntry) : Except EncodeError UInt16 :=
  (pool.indexOf e).mapError .pool

/-- The zero bytes between a switch opcode at `offset` and its operands, which start at a
multiple of four. -/
def switchPadding (offset : Nat) : Nat :=
  (4 - (offset + 1) % 4) % 4

/-- What 32 bits hold of a number of bytes. -/
def wrap32 (n : Nat) : Nat :=
  n % 4294967296

/-- The bytes of a distance, as a signed 32-bit number. -/
def distanceBytes (distance : Int) : List UInt8 :=
  Bytes.ofUInt32 (Int32.ofInt distance).toUInt32

namespace Instruction

/-- The number of bytes of a switch at `offset`. -/
def switchLength (s : Switch) (offset : Nat) : Nat :=
  1 + switchPadding offset
    + match s.form with
      | .table low high => 12 + 4 * (Switch.span low high).toNat
      | .lookup => 8 + 8 * s.cases.length

/-- The number of bytes of a literal. -/
def constantSize (c : Constant) (pool : FrozenPool) : Except EncodeError Nat :=
  match c.form with
  | .opcode _ => return 1
  | .bipush _ => return 2
  | .sipush _ => return 3
  | .pooled _ true => return 3
  | .pooled entry false => return if (← pool.operand entry) < 255 then 2 else 3

/-- The number of bytes to reserve for an instruction at `offset`, as 32 bits hold it. -/
def size (pool : FrozenPool) (offset : Nat) : Instruction → Except EncodeError Nat
  | .label _ => return 0
  | .load slot _ | .store slot _ => return if slot ≤ 3 then 1 else if slot ≤ 255 then 2 else 4
  | .increment slot delta =>
    return if slot ≤ 255 ∧ -128 ≤ delta.toInt ∧ delta.toInt ≤ 127 then 3 else 6
  | .constant c => constantSize c pool
  | .convert source target => return (conversionOpcodes source target).length
  | .branch .. => return 3
  | .switch s => return wrap32 (switchLength s offset)
  | .new _ | .checkCast _ | .instanceOf _ | .getField .. | .putField .. => return 3
  | .newArray elem => return if elem.isReference then 3 else 2
  | .newArrays .. => return 4
  | .invoke _ mode => return if mode = .interface then 5 else 3
  | .arith .. | .neg _ | .compare .. | .dup _ | .pop _ | .arrayLength | .arrayLoad _
  | .arrayStore _ | .ret _ | .throw | .monitorEnter | .monitorExit | .nop => return 1

/-- The opcode of the first kind in the family of an arithmetic operation. -/
def arithOpcode : ArithOp → UInt8
  | .add => Opcode.iadd
  | .sub => Opcode.isub
  | .mul => Opcode.imul
  | .div => Opcode.idiv
  | .rem => Opcode.irem
  | .shl => Opcode.ishl
  | .shr => Opcode.ishr
  | .ushr => Opcode.iushr
  | .and => Opcode.iand
  | .or => Opcode.ior
  | .xor => Opcode.ixor

/-- The opcode of a comparison with three outcomes. -/
def compareOpcode : Kind → Bool → UInt8
  | .float, false => Opcode.fcmpl
  | .float, true => Opcode.fcmpg
  | .double, false => Opcode.dcmpl
  | .double, true => Opcode.dcmpg
  | _, _ => Opcode.lcmp

/-- The place of an element type within the opcodes of array access. -/
def elementIndex (elem : Ty) : UInt8 :=
  match elem.primitive? with
  | none => 4
  | some .boolean | some .byte => 5
  | some .char => 6
  | some .short => 7
  | some .long => 1
  | some .float => 2
  | some .double => 3
  | some .int | some .void => 0

/-- The opcode of a branch whose target is near. -/
def branchOpcode : BranchTest → UInt8
  | .always => Opcode.goto
  | .zero condition => Opcode.ifeq + condition.opcodeOffset
  | .compare .reference condition => Opcode.ifAcmpeq + condition.opcodeOffset
  | .compare _ condition => Opcode.ifIcmpeq + condition.opcodeOffset
  | .null => Opcode.ifnull
  | .nonNull => Opcode.ifnonnull

/-- The opcode of a call. -/
def invokeOpcode : InvokeMode → UInt8
  | .static => Opcode.invokestatic
  | .virtual => Opcode.invokevirtual
  | .special => Opcode.invokespecial
  | .interface => Opcode.invokeinterface

/-- The bytes that access a local: compact for the first four slots, with the slot in one byte
up to 255, and wide beyond. -/
def localBytes (compact general : UInt8) (slot : UInt16) (kind : Kind) : List UInt8 :=
  if slot ≤ 3 then [compact + 4 * kind.familyIndex + slot.toUInt8]
  else if slot ≤ 255 then [general + kind.familyIndex, slot.toUInt8]
  else Opcode.wide :: (general + kind.familyIndex) :: Bytes.ofUInt16 slot

/-- The bytes that add to a local. -/
def incrementBytes (slot : UInt16) (delta : Int16) : List UInt8 :=
  if slot ≤ 255 ∧ -128 ≤ delta.toInt ∧ delta.toInt ≤ 127 then
    [Opcode.iinc, slot.toUInt8, delta.toUInt16.toUInt8]
  else
    Opcode.wide :: Opcode.iinc :: Bytes.ofUInt16 slot ++ Bytes.ofUInt16 delta.toUInt16

/-- The bytes that push a literal. -/
def constantBytes (c : Constant) (pool : FrozenPool) : Except EncodeError (List UInt8) :=
  match c.form with
  | .opcode op => return [op]
  | .bipush value => return [Opcode.bipush, value]
  | .sipush value => return Opcode.sipush :: Bytes.ofUInt16 value
  | .pooled entry true => return Opcode.ldc2W :: Bytes.ofUInt16 (← pool.operand entry)
  | .pooled entry false => do
    let index ← pool.operand entry
    if index < 255 then return [Opcode.ldc, index.toUInt8]
    else return Opcode.ldcW :: Bytes.ofUInt16 index

/-- The bytes of a branch at `offset`. A jump that is always taken has a far form. -/
def branchBytes (test : BranchTest) (target : Label) (offset : Nat) (labels : LabelTable) :
    Except EncodeError (List UInt8) := do
  let distance : Int := (← labels.resolve target) - offset
  if -32768 ≤ distance ∧ distance ≤ 32767 then
    return branchOpcode test :: Bytes.ofUInt16 (Int16.ofInt distance).toUInt16
  else if test = .always then
    return Opcode.gotoW :: distanceBytes distance
  else
    .error (.branchOutOfRange target distance)

/-- The keys from `low` to `high`. -/
def tableKeys (low high : Int32) : List Int32 :=
  (List.range (Switch.span low high).toNat).map fun (i : Nat) => Int32.ofInt (low.toInt + i)

/-- The bytes of a switch at `offset`. -/
def switchBytes (s : Switch) (offset : Nat) (labels : LabelTable) :
    Except EncodeError (List UInt8) := do
  let distance (target : Label) : Except EncodeError (List UInt8) :=
    return distanceBytes ((← labels.resolve target) - offset)
  let fallback ← distance s.fallback
  let padding := List.replicate (switchPadding offset) 0
  match s.form with
  | .table low high =>
    let targets ← (tableKeys low high).mapM fun key => distance (s.target key)
    return Opcode.tableswitch :: padding ++ fallback ++ Bytes.ofUInt32 low.toUInt32
      ++ Bytes.ofUInt32 high.toUInt32 ++ targets.flatten
  | .lookup =>
    let pairs ← s.cases.mapM fun (key, target) =>
      return Bytes.ofUInt32 key.toUInt32 ++ (← distance target)
    return Opcode.lookupswitch :: padding ++ fallback
      ++ Bytes.ofUInt32 (UInt32.ofNat s.cases.length) ++ pairs.flatten

/-- The bytes that follow an opcode with the index of an entry. -/
def indexed (opcode : UInt8) (pool : FrozenPool) (e : PoolEntry) :
    Except EncodeError (List UInt8) :=
  return opcode :: Bytes.ofUInt16 (← pool.operand e)

/-- The bytes that create an array with one dimension. -/
def newArrayBytes (elem : Ty) (pool : FrozenPool) : Except EncodeError (List UInt8) :=
  match elem.primitive? >>= Primitive.arrayCode? with
  | some code => return [Opcode.newarray, code]
  | none => indexed Opcode.anewarray pool (.ofClass elem)

/-- The bytes of a call. A call through an interface also counts its arguments and the
receiver, in one byte. -/
def invokeBytes (method : MethodRef) (mode : InvokeMode) (pool : FrozenPool) :
    Except EncodeError (List UInt8) := do
  let bytes ← indexed (invokeOpcode mode) pool (method.entry mode)
  if mode ≠ .interface then
    return bytes
  else
    let slots := method.type.argSlots
    if slots + 1 ≤ 255 then return bytes ++ [(slots + 1).toUInt8, 0]
    else .error (.tooManyArguments slots.toNat)

/-- The bytes of an instruction at `offset`. -/
def encode (labels : LabelTable) (pool : FrozenPool) (offset : Nat) :
    Instruction → Except EncodeError (List UInt8)
  | .label _ => return []
  | .load slot kind => return localBytes Opcode.iload0 Opcode.iload slot kind
  | .store slot kind => return localBytes Opcode.istore0 Opcode.istore slot kind
  | .increment slot delta => return incrementBytes slot delta
  | .constant c => constantBytes c pool
  | .arith op kind => return [arithOpcode op + kind.familyIndex]
  | .neg kind => return [Opcode.ineg + kind.familyIndex]
  | .convert source target => return conversionOpcodes source target
  | .compare kind nanGreater => return [compareOpcode kind nanGreater]
  | .branch test target => branchBytes test target offset labels
  | .switch s => switchBytes s offset labels
  | .dup slots => return [if slots = 2 then Opcode.dup2 else Opcode.dup]
  | .pop slots => return [if slots = 2 then Opcode.pop2 else Opcode.pop]
  | .new type => indexed Opcode.new pool (.ofClass type)
  | .newArray elem => newArrayBytes elem pool
  | .newArrays type dims => return (← indexed Opcode.multianewarray pool (.ofClass type)) ++ [dims]
  | .arrayLength => return [Opcode.arraylength]
  | .arrayLoad elem => return [Opcode.iaload + elementIndex elem]
  | .arrayStore elem => return [Opcode.iastore + elementIndex elem]
  | .checkCast type => indexed Opcode.checkcast pool (.ofClass type)
  | .instanceOf type => indexed Opcode.instanceof pool (.ofClass type)
  | .getField field isStatic =>
    indexed (if isStatic then Opcode.getstatic else Opcode.getfield) pool field.entry
  | .putField field isStatic =>
    indexed (if isStatic then Opcode.putstatic else Opcode.putfield) pool field.entry
  | .invoke method mode => invokeBytes method mode pool
  | .ret none => return [Opcode.ret]
  | .ret (some kind) => return [Opcode.ireturn + kind.familyIndex]
  | .throw => return [Opcode.athrow]
  | .monitorEnter => return [Opcode.monitorenter]
  | .monitorExit => return [Opcode.monitorexit]
  | .nop => return [Opcode.nop]

end Instruction

end ClassForge
