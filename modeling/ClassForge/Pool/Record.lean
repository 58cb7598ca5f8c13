import ClassForge.Reader
import ClassForge.Text.ModifiedUtf8

/-!
# Constant records

A record is a constant as a class file stores it: a tag byte and a body that refers to other
records by their index. A long or double takes two indices; the second of them holds an
unusable record, which has no bytes.
-/

namespace ClassForge

/-- A constant record. -/
inductive Record where
  /-- A text; `length` is the stored byte count. -/
  | utf8 (length : UInt16) (bytes : List UInt8)
  | integer (value : Int32)
  | float (bits : UInt32)
  | long (value : Int64)
  | double (bits : UInt64)
  | classRef (name : UInt16)
  | string (text : UInt16)
  | fieldRef (owner member : UInt16)
  | methodRef (owner member : UInt16)
  | interfaceMethodRef (owner member : UInt16)
  | nameAndType (name descriptor : UInt16)
  | unusable
  deriving DecidableEq, Repr

namespace Record

/-- Whether the record takes two indices. -/
def isWide : Record → Bool
  | .long _ | .double _ => true
  | _ => false

/-- The bytes of two indices. -/
def pair (first second : UInt16) : List UInt8 :=
  Bytes.ofUInt16 first ++ Bytes.ofUInt16 second

/-- The bytes of a record. -/
def toBytes : Record → List UInt8
  | .utf8 length bytes => 1 :: Bytes.ofUInt16 length ++ bytes
  | .integer value => 3 :: Bytes.ofUInt32 value.toUInt32
  | .float bits => 4 :: Bytes.ofUInt32 bits
  | .long value => 5 :: Bytes.ofUInt64 value.toUInt64
  | .double bits => 6 :: Bytes.ofUInt64 bits
  | .classRef name => 7 :: Bytes.ofUInt16 name
  | .string text => 8 :: Bytes.ofUInt16 text
  | .fieldRef owner member => 9 :: pair owner member
  | .methodRef owner member => 10 :: pair owner member
  | .interfaceMethodRef owner member => 11 :: pair owner member
  | .nameAndType name descriptor => 12 :: pair name descriptor
  | .unusable => []

/-- Reads the body of a record with the given tag. -/
def readBody (tag : UInt8) : Reader Record :=
  if tag = 1 then do
    let length ← Reader.u16
    let bytes ← Reader.bytes length.toNat
    return .utf8 length bytes
  else if tag = 3 then do
    let value ← Reader.u32
    return .integer value.toInt32
  else if tag = 4 then do
    let bits ← Reader.u32
    return .float bits
  else if tag = 5 then do
    let value ← Reader.u64
    return .long value.toInt64
  else if tag = 6 then do
    let bits ← Reader.u64
    return .double bits
  else if tag = 7 then do
    let name ← Reader.u16
    return .classRef name
  else if tag = 8 then do
    let text ← Reader.u16
    return .string text
  else if tag = 9 then do
    let owner ← Reader.u16
    let member ← Reader.u16
    return .fieldRef owner member
  else if tag = 10 then do
    let owner ← Reader.u16
    let member ← Reader.u16
    return .methodRef owner member
  else if tag = 11 then do
    let owner ← Reader.u16
    let member ← Reader.u16
    return .interfaceMethodRef owner member
  else if tag = 12 then do
    let name ← Reader.u16
    let descriptor ← Reader.u16
    return .nameAndType name descriptor
  else
    fun input => .error (.badRecord input.length)

/-- Reads a record. Whatever goes wrong is the fault of the record as a whole. -/
def read : Reader Record := fun input =>
  match (Reader.u8 >>= readBody) input with
  | .ok result => .ok result
  | .error _ => .error (.badRecord input.length)

/-- A record with the unusable one after it that a wide record brings along. -/
def withFiller (r : Record) : List Record :=
  if r.isWide then [r, .unusable] else [r]

/-- Reads records until `slots` indices are filled, after those of `done` in reverse. A wide
record in the last slot still brings its unusable one along. -/
def readSlotsOnto (done : List Record) : (slots : Nat) → Reader (List Record)
  | 0 => return done.reverse
  | 1 => do
    let r ← read
    return (r.withFiller.reverse ++ done).reverse
  | slots + 2 => do
    let r ← read
    if r.isWide then
      readSlotsOnto (.unusable :: r :: done) slots
    else
      readSlotsOnto (r :: done) (slots + 1)

/-- Reads records until `slots` indices are filled. -/
def readSlots (slots : Nat) : Reader (List Record) :=
  readSlotsOnto [] slots

end Record

end ClassForge
