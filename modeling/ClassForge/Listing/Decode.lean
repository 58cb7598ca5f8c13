import ClassForge.Instruction.Encode
import ClassForge.Instruction.Opcode
import ClassForge.Reader

/-!
# Reading code back

Every opcode that has a name takes operands of a certain form. Code is read from the first
byte to the last; each instruction starts where the one before it ended. What cannot be read
as an instruction ends the sweep.
-/

namespace ClassForge

/-- The form of an opcode's operands. -/
inductive OperandForm where
  | none
  | int8
  | int16
  | pool8
  | pool16
  | slot
  | increment
  | near
  | far
  | interfaceCall
  | dynamicCall
  | element
  | arrays
  | wide
  | table
  | lookup
  deriving DecidableEq, Repr

/-- The operands of an instruction as they stand in code. Distances count from the opcode. -/
inductive Operands where
  | none
  | int8 (value : Int8)
  | int16 (value : Int16)
  | pool8 (index : UInt8)
  | pool16 (index : UInt16)
  | slot (number : UInt8)
  | increment (slot : UInt8) (delta : Int8)
  | near (distance : Int16)
  | far (distance : Int32)
  | interfaceCall (index : UInt16) (count : UInt8)
  | dynamicCall (index : UInt16)
  | element (type : Primitive)
  | arrays (index : UInt16) (dimensions : UInt8)
  /-- A load, store or return with a slot of two bytes. -/
  | wideSlot (opcode : UInt8) (slot : UInt16)
  | wideIncrement (slot : UInt16) (delta : Int16)
  | table (fallback low high : Int32) (distances : List Int32)
  | lookup (fallback : Int32) (cases : List (Int32 × Int32))
  deriving DecidableEq, Repr

namespace Opcode

/-- Whether the operand of an opcode is a local slot of one byte. -/
def takesSlot (opcode : UInt8) : Bool :=
  (iload ≤ opcode && opcode ≤ 0x19) || (istore ≤ opcode && opcode ≤ 0x3a) || opcode = 0xa9

/-- Whether the operand of an opcode is a pool index of two bytes. -/
def takesPoolIndex (opcode : UInt8) : Bool :=
  opcode = ldcW || opcode = ldc2W || (getstatic ≤ opcode && opcode ≤ invokestatic)
    || opcode = new || opcode = anewarray || opcode = checkcast || opcode = instanceof

/-- Whether the operand of an opcode is a distance of two bytes. -/
def takesDistance (opcode : UInt8) : Bool :=
  (ifeq ≤ opcode && opcode ≤ 0xa8) || opcode = ifnull || opcode = ifnonnull

/-- The form of the operands of an opcode. -/
def form (opcode : UInt8) : OperandForm :=
  if opcode = bipush then .int8
  else if opcode = sipush then .int16
  else if opcode = ldc then .pool8
  else if takesPoolIndex opcode then .pool16
  else if takesSlot opcode then .slot
  else if opcode = iinc then .increment
  else if takesDistance opcode then .near
  else if opcode = gotoW then .far
  else if opcode = invokeinterface then .interfaceCall
  else if opcode = 0xba then .dynamicCall
  else if opcode = newarray then .element
  else if opcode = multianewarray then .arrays
  else if opcode = wide then .wide
  else if opcode = tableswitch then .table
  else if opcode = lookupswitch then .lookup
  else .none

end Opcode

namespace Reader

/-- Reads a signed byte. -/
def i8 : Reader Int8 := do
  let value ← u8
  return value.toInt8

/-- Reads a signed 16-bit number. -/
def i16 : Reader Int16 := do
  let value ← u16
  return value.toInt16

/-- Reads a signed 32-bit number. -/
def i32 : Reader Int32 := do
  let value ← u32
  return value.toInt32

end Reader

/-- The primitive type that a code stands for where an array is made. -/
def Primitive.ofArrayCode? (code : UInt8) : Option Primitive :=
  [boolean, char, float, double, byte, short, int, long].find? (·.arrayCode? = some code)

namespace Operands

/-- Reads a switch by a table of distances, whose keys run from a lowest to a highest. -/
def readTable : Reader Operands := do
  let fallback ← Reader.i32
  let low ← Reader.i32
  let high ← Reader.i32
  let span := high.toInt - low.toInt + 1
  if span ≤ 0 ∨ 65536 < span then throw .endOfInput
  let distances ← Reader.times span.toNat Reader.i32
  return .table fallback low high distances

/-- Reads a key with the distance that it leads to. -/
def readCase : Reader (Int32 × Int32) := do
  let key ← Reader.i32
  let distance ← Reader.i32
  return (key, distance)

/-- Reads a switch by pairs of keys and distances. -/
def readLookup : Reader Operands := do
  let fallback ← Reader.i32
  let count ← Reader.i32
  if count.toInt < 0 ∨ 65536 ≤ count.toInt then throw .endOfInput
  let cases ← Reader.times count.toInt.toNat readCase
  return .lookup fallback cases

/-- Reads the opcode and the slot that follow a `wide`. -/
def readWide : Reader Operands := do
  let opcode ← Reader.u8
  let slot ← Reader.u16
  if opcode = Opcode.iinc then
    let delta ← Reader.i16
    return .wideIncrement slot delta
  else if Opcode.takesSlot opcode then
    return .wideSlot opcode slot
  else
    throw .endOfInput

/-- Reads the element type of an array. -/
def readElement : Reader Operands := do
  let code ← Reader.u8
  match Primitive.ofArrayCode? code with
  | .some type => return .element type
  | .none => throw .endOfInput

/-- Reads the operands of an opcode that stands at `offset`. -/
def read (offset : Nat) : OperandForm → Reader Operands
  | .none => return .none
  | .int8 => return .int8 (← Reader.i8)
  | .int16 => return .int16 (← Reader.i16)
  | .pool8 => return .pool8 (← Reader.u8)
  | .pool16 => return .pool16 (← Reader.u16)
  | .slot => return .slot (← Reader.u8)
  | .increment => do
    let slot ← Reader.u8
    return .increment slot (← Reader.i8)
  | .near => return .near (← Reader.i16)
  | .far => return .far (← Reader.i32)
  | .interfaceCall => do
    let index ← Reader.u16
    let count ← Reader.u8
    let _ ← Reader.u8
    return .interfaceCall index count
  | .dynamicCall => do
    let index ← Reader.u16
    let _ ← Reader.u16
    return .dynamicCall index
  | .element => readElement
  | .arrays => do
    let index ← Reader.u16
    return .arrays index (← Reader.u8)
  | .wide => readWide
  | .table => do
    let _ ← Reader.bytes (switchPadding offset)
    readTable
  | .lookup => do
    let _ ← Reader.bytes (switchPadding offset)
    readLookup

/-- The number of bytes of the operands of an opcode that stands at `offset`. -/
def size (offset : Nat) : Operands → Nat
  | .none => 0
  | .int8 _ | .pool8 _ | .slot _ | .element _ => 1
  | .int16 _ | .pool16 _ | .increment .. | .near _ => 2
  | .arrays .. | .wideSlot .. => 3
  | .far _ | .interfaceCall .. | .dynamicCall _ => 4
  | .wideIncrement .. => 5
  | .table _ _ _ distances => switchPadding offset + 12 + 4 * distances.length
  | .lookup _ cases => switchPadding offset + 8 + 8 * cases.length

end Operands

/-- An instruction as it stands in code. -/
structure Decoded where
  name : String
  operands : Operands
  deriving DecidableEq, Repr

namespace Decoded

/-- The number of bytes of an instruction at `offset`. -/
def size (offset : Nat) (d : Decoded) : Nat :=
  1 + d.operands.size offset

/-- The instruction at the front of some code, which stands at `offset`. -/
def ofCode? (offset : Nat) : List UInt8 → Option Decoded
  | [] => none
  | opcode :: rest => do
    let name ← Opcode.mnemonic? opcode
    match Operands.read offset (Opcode.form opcode) rest with
    | .ok (operands, _) => some ⟨name, operands⟩
    | .error _ => none

end Decoded

/-- A place in code: an instruction, or what cannot be read as one. -/
inductive CodeItem where
  | instruction (offset : Nat) (decoded : Decoded)
  | malformed (offset : Nat)
  deriving DecidableEq, Repr

namespace CodeItem

/-- The instructions of code that stands at `offset`, after those of `done` in reverse. -/
def sweepOnto (done : List CodeItem) (offset : Nat) (code : List UInt8) : List CodeItem :=
  match code, Decoded.ofCode? offset code with
  | [], _ => done.reverse
  | _ :: _, none => (malformed offset :: done).reverse
  | _ :: rest, some d =>
    sweepOnto (instruction offset d :: done) (offset + d.size offset)
      (rest.drop (d.operands.size offset))
termination_by code.length
decreasing_by
  simp only [List.length_drop, List.length_cons]
  omega

/-- The instructions of some code, in order. -/
def sweep (code : List UInt8) : List CodeItem :=
  sweepOnto [] 0 code

end CodeItem

end ClassForge
