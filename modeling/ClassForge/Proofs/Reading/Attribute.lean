import ClassForge.Proofs.Reading.Reader
import ClassForge.Record.Attribute

/-!
# Attributes and their bytes

Attributes and the bodies of those that are known are read from the bytes that are written
for them, if the counts and lengths in them are those of their lists.
-/

namespace ClassForge

open Reader

/-! ### Attributes -/

namespace Attribute

/-- The body is as long as the attribute says it is. -/
def Stored (a : Attribute) : Prop :=
  a.info.length = a.length.toNat

/-- Attributes are read back, whatever follows. -/
theorem read_inverts :
  Inverts read toBytes Stored
  := by
  constructor
  · intro a ha rest
    rw [toBytes, List.append_assoc, List.append_assoc, read, u16_inverts.bind_write trivial,
      u32_inverts.bind_write trivial]
    apply (bytes_inverts _).map_write ha
  · intro input a rest h
    obtain ⟨name, _, -, hname, h⟩ := u16_inverts.of_bind h
    obtain ⟨length, _, -, hlength, h⟩ := u32_inverts.of_bind h
    obtain ⟨info, hinfo, rfl, hrest⟩ := (bytes_inverts _).of_map h
    use hinfo
    rw [← hname, ← hlength, ← hrest, toBytes, List.append_assoc, List.append_assoc]
    rfl

end Attribute

/-! ### Code -/

/-- Entries of the exception table are read back, whatever follows. -/
theorem ExceptionEntry.read_inverts :
  Inverts ExceptionEntry.read ExceptionEntry.toBytes fun _ => True
  := by
  constructor
  · intro e _ rest
    rw [ExceptionEntry.toBytes, List.append_assoc, List.append_assoc, List.append_assoc,
      ExceptionEntry.read, u16_inverts.bind_write trivial, u16_inverts.bind_write trivial,
      u16_inverts.bind_write trivial]
    apply u16_inverts.map_write trivial
  · intro input e rest h
    obtain ⟨start, _, -, hstart, h⟩ := u16_inverts.of_bind h
    obtain ⟨stop, _, -, hstop, h⟩ := u16_inverts.of_bind h
    obtain ⟨handler, _, -, hhandler, h⟩ := u16_inverts.of_bind h
    obtain ⟨catchType, -, rfl, hrest⟩ := u16_inverts.of_map h
    use trivial
    rw [← hstart, ← hstop, ← hhandler, ← hrest, ExceptionEntry.toBytes, List.append_assoc,
      List.append_assoc, List.append_assoc]

namespace CodeBody

/-- The lengths and counts in the body are those of its lists. -/
structure Stored (b : CodeBody) : Prop where
  code : b.code.length = b.codeLength.toNat
  table : b.table.length = b.tableLength.toNat
  attributesCount : b.attributes.length = b.attributesCount.toNat
  attributes : ∀ a ∈ b.attributes, a.Stored

/-- The body of code is read back, whatever follows. -/
theorem read_inverts :
  Inverts read toBytes Stored
  := by
  constructor
  · intro b hb rest
    simp only [toBytes, List.append_assoc]
    rw [read, u16_inverts.bind_write trivial, u16_inverts.bind_write trivial,
      u32_inverts.bind_write trivial]
    refine Eq.trans ((bytes_inverts _).bind_write hb.code _ _) ?_
    rw [u16_inverts.bind_write trivial,
      (ExceptionEntry.read_inverts.times _).bind_write ⟨hb.table, fun _ _ => trivial⟩,
      u16_inverts.bind_write trivial]
    apply (Attribute.read_inverts.times _).map_write ⟨hb.attributesCount, hb.attributes⟩
  · intro input b rest h
    obtain ⟨maxStack, _, -, hmaxStack, h⟩ := u16_inverts.of_bind h
    obtain ⟨maxLocals, _, -, hmaxLocals, h⟩ := u16_inverts.of_bind h
    obtain ⟨codeLength, _, -, hcodeLength, h⟩ := u32_inverts.of_bind h
    obtain ⟨code, _, hcode, hcodeBytes, h⟩ := (bytes_inverts _).of_bind h
    obtain ⟨tableLength, _, -, htableLength, h⟩ := u16_inverts.of_bind h
    obtain ⟨table, _, htable, htableBytes, h⟩ := (ExceptionEntry.read_inverts.times _).of_bind h
    obtain ⟨attributesCount, _, -, hcount, h⟩ := u16_inverts.of_bind h
    obtain ⟨attributes, hattributes, rfl, hrest⟩ := (Attribute.read_inverts.times _).of_map h
    use ⟨hcode, htable.1, hattributes.1, hattributes.2⟩
    rw [← hmaxStack, ← hmaxLocals, ← hcodeLength, ← hcodeBytes, ← htableLength, ← htableBytes,
      ← hcount, ← hrest]
    simp only [toBytes, List.append_assoc]
    rfl

theorem fromBytes_eq_ok_iff {bytes : List UInt8} {b : CodeBody} :
  fromBytes bytes = .ok b ↔ b.Stored ∧ b.toBytes = bytes
  := read_inverts.whole_eq_ok_iff

end CodeBody

/-! ### Lists of classes -/

namespace ExceptionsBody

/-- The count is the number of classes. -/
def Stored (b : ExceptionsBody) : Prop :=
  b.classes.length = b.count.toNat

/-- Thrown classes are read back, whatever follows. -/
theorem read_inverts :
  Inverts read toBytes Stored
  := by
  constructor
  · intro b hb rest
    rw [toBytes, List.append_assoc, read, u16_inverts.bind_write trivial]
    apply (u16_inverts.times _).map_write ⟨hb, fun _ _ => trivial⟩
  · intro input b rest h
    obtain ⟨count, _, -, hcount, h⟩ := u16_inverts.of_bind h
    obtain ⟨classes, hclasses, rfl, hrest⟩ := (u16_inverts.times _).of_map h
    use hclasses.1
    rw [← hcount, ← hrest, toBytes, List.append_assoc]

theorem fromBytes_eq_ok_iff {bytes : List UInt8} {b : ExceptionsBody} :
  fromBytes bytes = .ok b ↔ b.Stored ∧ b.toBytes = bytes
  := read_inverts.whole_eq_ok_iff

end ExceptionsBody

/-- Entries for nested classes are read back, whatever follows. -/
theorem InnerClassEntry.read_inverts :
  Inverts InnerClassEntry.read InnerClassEntry.toBytes fun _ => True
  := by
  constructor
  · intro e _ rest
    rw [InnerClassEntry.toBytes, List.append_assoc, List.append_assoc, List.append_assoc,
      InnerClassEntry.read, u16_inverts.bind_write trivial, u16_inverts.bind_write trivial,
      u16_inverts.bind_write trivial]
    apply u16_inverts.map_write trivial
  · intro input e rest h
    obtain ⟨inner, _, -, hinner, h⟩ := u16_inverts.of_bind h
    obtain ⟨outer, _, -, houter, h⟩ := u16_inverts.of_bind h
    obtain ⟨name, _, -, hname, h⟩ := u16_inverts.of_bind h
    obtain ⟨flags, -, rfl, hrest⟩ := u16_inverts.of_map h
    use trivial
    rw [← hinner, ← houter, ← hname, ← hrest, InnerClassEntry.toBytes, List.append_assoc,
      List.append_assoc, List.append_assoc]

namespace InnerClassesBody

/-- The count is the number of classes. -/
def Stored (b : InnerClassesBody) : Prop :=
  b.classes.length = b.count.toNat

/-- Nested classes are read back, whatever follows. -/
theorem read_inverts :
  Inverts read toBytes Stored
  := by
  constructor
  · intro b hb rest
    rw [toBytes, List.append_assoc, read, u16_inverts.bind_write trivial]
    apply (InnerClassEntry.read_inverts.times _).map_write ⟨hb, fun _ _ => trivial⟩
  · intro input b rest h
    obtain ⟨count, _, -, hcount, h⟩ := u16_inverts.of_bind h
    obtain ⟨classes, hclasses, rfl, hrest⟩ := (InnerClassEntry.read_inverts.times _).of_map h
    use hclasses.1
    rw [← hcount, ← hrest, toBytes, List.append_assoc]

theorem fromBytes_eq_ok_iff {bytes : List UInt8} {b : InnerClassesBody} :
  fromBytes bytes = .ok b ↔ b.Stored ∧ b.toBytes = bytes
  := read_inverts.whole_eq_ok_iff

end InnerClassesBody

/-! ### Indices -/

namespace IndexBody

/-- An index is read back, whatever follows. -/
theorem read_inverts :
  Inverts read toBytes fun _ => True
  := by
  constructor
  · intro b _ rest
    apply u16_inverts.map_write trivial
  · intro input b rest h
    obtain ⟨index, -, rfl, hrest⟩ := u16_inverts.of_map h
    use trivial, hrest

theorem fromBytes_eq_ok_iff {bytes : List UInt8} {b : IndexBody} :
  fromBytes bytes = .ok b ↔ b.toBytes = bytes
  := by
  rw [fromBytes, read_inverts.whole_eq_ok_iff, true_and]

end IndexBody

end ClassForge
