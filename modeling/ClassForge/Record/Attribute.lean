import ClassForge.Reader

/-!
# Attributes

An attribute has the index of its name and a body of bytes. The bodies of the attributes that
are known have a structure of their own; `fromBytes` reads such a body and `toBytes` writes
it. Counts and lengths are kept as they are stored.
-/

namespace ClassForge

/-- An attribute with its body unread. -/
structure Attribute where
  name : UInt16
  length : UInt32
  info : List UInt8
  deriving DecidableEq, Repr

namespace Attribute

/-- The attribute with the given body. -/
def ofInfo (name : UInt16) (info : List UInt8) : Attribute :=
  ⟨name, UInt32.ofNat info.length, info⟩

/-- The bytes of an attribute. -/
def toBytes (a : Attribute) : List UInt8 :=
  Bytes.ofUInt16 a.name ++ Bytes.ofUInt32 a.length ++ a.info

/-- Reads an attribute. -/
def read : Reader Attribute := do
  let name ← Reader.u16
  let length ← Reader.u32
  let info ← Reader.bytes length.toNat
  return ⟨name, length, info⟩

end Attribute

/-- A range of code, `stop` excluded, whose exceptions are caught at `handler`. -/
structure ExceptionEntry where
  start : UInt16
  stop : UInt16
  handler : UInt16
  /-- The class entry of the caught type; zero catches everything. -/
  catchType : UInt16
  deriving DecidableEq, Repr

namespace ExceptionEntry

/-- The bytes of an exception entry. -/
def toBytes (e : ExceptionEntry) : List UInt8 :=
  Bytes.ofUInt16 e.start ++ Bytes.ofUInt16 e.stop ++ Bytes.ofUInt16 e.handler
    ++ Bytes.ofUInt16 e.catchType

/-- Reads an exception entry. -/
def read : Reader ExceptionEntry := do
  let start ← Reader.u16
  let stop ← Reader.u16
  let handler ← Reader.u16
  let catchType ← Reader.u16
  return ⟨start, stop, handler, catchType⟩

end ExceptionEntry

/-- The body of a `Code` attribute. -/
structure CodeBody where
  maxStack : UInt16
  maxLocals : UInt16
  codeLength : UInt32
  code : List UInt8
  tableLength : UInt16
  table : List ExceptionEntry
  attributesCount : UInt16
  attributes : List Attribute
  deriving DecidableEq, Repr

namespace CodeBody

/-- The bytes of the body. -/
def toBytes (b : CodeBody) : List UInt8 :=
  Bytes.ofUInt16 b.maxStack ++ Bytes.ofUInt16 b.maxLocals ++ Bytes.ofUInt32 b.codeLength ++ b.code
    ++ Bytes.ofUInt16 b.tableLength ++ b.table.flatMap ExceptionEntry.toBytes
    ++ Bytes.ofUInt16 b.attributesCount ++ b.attributes.flatMap Attribute.toBytes

/-- Reads the body. -/
def read : Reader CodeBody := do
  let maxStack ← Reader.u16
  let maxLocals ← Reader.u16
  let codeLength ← Reader.u32
  let code ← Reader.bytes codeLength.toNat
  let tableLength ← Reader.u16
  let table ← Reader.times tableLength.toNat ExceptionEntry.read
  let attributesCount ← Reader.u16
  let attributes ← Reader.times attributesCount.toNat Attribute.read
  return ⟨maxStack, maxLocals, codeLength, code, tableLength, table, attributesCount, attributes⟩

/-- The body with the given bytes. -/
def fromBytes (bytes : List UInt8) : Except ReadFault CodeBody :=
  Reader.whole read bytes

end CodeBody

/-- The body of an `Exceptions` attribute: the class entries of the thrown types. -/
structure ExceptionsBody where
  count : UInt16
  classes : List UInt16
  deriving DecidableEq, Repr

namespace ExceptionsBody

/-- The bytes of the body. -/
def toBytes (b : ExceptionsBody) : List UInt8 :=
  Bytes.ofUInt16 b.count ++ b.classes.flatMap Bytes.ofUInt16

/-- Reads the body. -/
def read : Reader ExceptionsBody := do
  let count ← Reader.u16
  let classes ← Reader.times count.toNat Reader.u16
  return ⟨count, classes⟩

/-- The body with the given bytes. -/
def fromBytes (bytes : List UInt8) : Except ReadFault ExceptionsBody :=
  Reader.whole read bytes

end ExceptionsBody

/-- The body of a `Signature`, `SourceFile` or `ConstantValue` attribute: the index of an
entry. -/
structure IndexBody where
  index : UInt16
  deriving DecidableEq, Repr

namespace IndexBody

/-- The bytes of the body. -/
def toBytes (b : IndexBody) : List UInt8 :=
  Bytes.ofUInt16 b.index

/-- Reads the body. -/
def read : Reader IndexBody := do
  let index ← Reader.u16
  return ⟨index⟩

/-- The body with the given bytes. -/
def fromBytes (bytes : List UInt8) : Except ReadFault IndexBody :=
  Reader.whole read bytes

end IndexBody

/-- A nested class as its outer class records it. -/
structure InnerClassEntry where
  inner : UInt16
  /-- Zero for local and anonymous classes. -/
  outer : UInt16
  /-- Zero for anonymous classes. -/
  name : UInt16
  flags : UInt16
  deriving DecidableEq, Repr

namespace InnerClassEntry

/-- The bytes of the entry. -/
def toBytes (e : InnerClassEntry) : List UInt8 :=
  Bytes.ofUInt16 e.inner ++ Bytes.ofUInt16 e.outer ++ Bytes.ofUInt16 e.name
    ++ Bytes.ofUInt16 e.flags

/-- Reads the entry. -/
def read : Reader InnerClassEntry := do
  let inner ← Reader.u16
  let outer ← Reader.u16
  let name ← Reader.u16
  let flags ← Reader.u16
  return ⟨inner, outer, name, flags⟩

end InnerClassEntry

/-- The body of an `InnerClasses` attribute. -/
structure InnerClassesBody where
  count : UInt16
  classes : List InnerClassEntry
  deriving DecidableEq, Repr

namespace InnerClassesBody

/-- The bytes of the body. -/
def toBytes (b : InnerClassesBody) : List UInt8 :=
  Bytes.ofUInt16 b.count ++ b.classes.flatMap InnerClassEntry.toBytes

/-- Reads the body. -/
def read : Reader InnerClassesBody := do
  let count ← Reader.u16
  let classes ← Reader.times count.toNat InnerClassEntry.read
  return ⟨count, classes⟩

/-- The body with the given bytes. -/
def fromBytes (bytes : List UInt8) : Except ReadFault InnerClassesBody :=
  Reader.whole read bytes

end InnerClassesBody

end ClassForge
