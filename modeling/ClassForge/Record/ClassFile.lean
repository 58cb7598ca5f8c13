import ClassForge.Pool.Record
import ClassForge.Record.Attribute

/-!
# Class files

A class file as it is stored, field by field. Counts are kept as they are stored, so that
writing what was read gives the same bytes.
-/

namespace ClassForge

/-- A field or a method of a class. -/
structure MemberInfo where
  flags : UInt16
  name : UInt16
  descriptor : UInt16
  attributesCount : UInt16
  attributes : List Attribute
  deriving DecidableEq, Repr

namespace MemberInfo

/-- The bytes of a member. -/
def toBytes (m : MemberInfo) : List UInt8 :=
  Bytes.ofUInt16 m.flags ++ Bytes.ofUInt16 m.name ++ Bytes.ofUInt16 m.descriptor
    ++ Bytes.ofUInt16 m.attributesCount ++ m.attributes.flatMap Attribute.toBytes

/-- Reads a member. -/
def read : Reader MemberInfo := do
  let flags ← Reader.u16
  let name ← Reader.u16
  let descriptor ← Reader.u16
  let attributesCount ← Reader.u16
  let attributes ← Reader.times attributesCount.toNat Attribute.read
  return ⟨flags, name, descriptor, attributesCount, attributes⟩

end MemberInfo

/-- A class file. -/
structure ClassFile where
  minor : UInt16
  major : UInt16
  constPoolSize : UInt16
  /-- The constant records from index one on. -/
  constPool : Array Record
  flags : UInt16
  thisClass : UInt16
  superClass : UInt16
  interfacesCount : UInt16
  interfaces : List UInt16
  fieldsCount : UInt16
  fields : List MemberInfo
  methodsCount : UInt16
  methods : List MemberInfo
  attributesCount : UInt16
  attributes : List Attribute
  deriving DecidableEq, Repr

namespace ClassFile

/-- The number that starts every class file. -/
def magic : UInt32 := 0xcafebabe

/-- The bytes of a class file. -/
def toBytes (c : ClassFile) : List UInt8 :=
  Bytes.ofUInt32 magic ++ Bytes.ofUInt16 c.minor ++ Bytes.ofUInt16 c.major
    ++ Bytes.ofUInt16 c.constPoolSize ++ c.constPool.toList.flatMap Record.toBytes
    ++ Bytes.ofUInt16 c.flags ++ Bytes.ofUInt16 c.thisClass ++ Bytes.ofUInt16 c.superClass
    ++ Bytes.ofUInt16 c.interfacesCount ++ c.interfaces.flatMap Bytes.ofUInt16
    ++ Bytes.ofUInt16 c.fieldsCount ++ c.fields.flatMap MemberInfo.toBytes
    ++ Bytes.ofUInt16 c.methodsCount ++ c.methods.flatMap MemberInfo.toBytes
    ++ Bytes.ofUInt16 c.attributesCount ++ c.attributes.flatMap Attribute.toBytes

/-- Reads the number that starts every class file. -/
def readMagic : Reader Unit := do
  let number ← Reader.u32
  if number ≠ magic then throw .badMagic

/-- Reads a class file. -/
def read : Reader ClassFile := do
  readMagic
  let minor ← Reader.u16
  let major ← Reader.u16
  let constPoolSize ← Reader.u16
  let constPool ← Record.readSlots (constPoolSize.toNat - 1)
  let flags ← Reader.u16
  let thisClass ← Reader.u16
  let superClass ← Reader.u16
  let interfacesCount ← Reader.u16
  let interfaces ← Reader.times interfacesCount.toNat Reader.u16
  let fieldsCount ← Reader.u16
  let fields ← Reader.times fieldsCount.toNat MemberInfo.read
  let methodsCount ← Reader.u16
  let methods ← Reader.times methodsCount.toNat MemberInfo.read
  let attributesCount ← Reader.u16
  let attributes ← Reader.times attributesCount.toNat Attribute.read
  return {
    minor, major, constPoolSize, constPool := constPool.toArray, flags, thisClass, superClass,
    interfacesCount, interfaces, fieldsCount, fields, methodsCount, methods, attributesCount,
    attributes }

/-- The class file at the front of some bytes, and the bytes after it. -/
def parse (input : List UInt8) : Except ReadFault (ClassFile × List UInt8) :=
  read input

/-- The record at an index. Index zero has none. -/
def constant? (c : ClassFile) (index : UInt16) : Option Record :=
  if index = 0 then none else c.constPool[index.toNat - 1]?

/-- The text at an index. -/
def text? (c : ClassFile) (index : UInt16) : Option String :=
  match c.constant? index with
  | some (.utf8 _ bytes) => some (Text.ModifiedUtf8.text bytes)
  | _ => none

/-- The name of the class whose entry stands at an index. -/
def className? (c : ClassFile) (index : UInt16) : Option String :=
  match c.constant? index with
  | some (.classRef name) => c.text? name
  | _ => none

end ClassFile

end ClassForge
