import ClassForge.Proofs.Reading.Attribute
import ClassForge.Proofs.Reading.Record
import ClassForge.Record.ClassFile

/-!
# Class files and their bytes

Class files and their bytes are inverse to each other. A class file whose counts are those of
its lists is read from the bytes that are written for it, whatever follows them. And whatever
bytes a class file is read from are the bytes that are written for it.
-/

namespace ClassForge

open Reader

namespace MemberInfo

/-- The count is the number of attributes, and these can be read. -/
structure Stored (m : MemberInfo) : Prop where
  attributesCount : m.attributes.length = m.attributesCount.toNat
  attributes : ∀ a ∈ m.attributes, a.Stored

/-- Members are read back, whatever follows. -/
theorem read_inverts :
  Inverts read toBytes Stored
  := by
  constructor
  · intro m hm rest
    simp only [toBytes, List.append_assoc]
    rw [read, u16_inverts.bind_write trivial, u16_inverts.bind_write trivial,
      u16_inverts.bind_write trivial, u16_inverts.bind_write trivial]
    apply (Attribute.read_inverts.times _).map_write ⟨hm.attributesCount, hm.attributes⟩
  · intro input m rest h
    obtain ⟨flags, _, -, hflags, h⟩ := u16_inverts.of_bind h
    obtain ⟨name, _, -, hname, h⟩ := u16_inverts.of_bind h
    obtain ⟨descriptor, _, -, hdescriptor, h⟩ := u16_inverts.of_bind h
    obtain ⟨count, _, -, hcount, h⟩ := u16_inverts.of_bind h
    obtain ⟨attributes, hattributes, rfl, hrest⟩ := (Attribute.read_inverts.times _).of_map h
    use ⟨hattributes.1, hattributes.2⟩
    rw [← hflags, ← hname, ← hdescriptor, ← hcount, ← hrest]
    simp only [toBytes, List.append_assoc]

end MemberInfo

namespace ClassFile

/-- The class file can be read back: its counts are those of its lists, the same holds within
its members and attributes, and its records fill the slots of the pool. The slots are one less
than the stored size; a size of zero has none. -/
structure Stored (c : ClassFile) : Prop where
  constPool : Record.StoredIn (c.constPoolSize.toNat - 1) c.constPool.toList
  interfacesCount : c.interfaces.length = c.interfacesCount.toNat
  fieldsCount : c.fields.length = c.fieldsCount.toNat
  fields : ∀ m ∈ c.fields, m.Stored
  methodsCount : c.methods.length = c.methodsCount.toNat
  methods : ∀ m ∈ c.methods, m.Stored
  attributesCount : c.attributes.length = c.attributesCount.toNat
  attributes : ∀ a ∈ c.attributes, a.Stored

/-- The first four bytes are read back. -/
theorem readMagic_inverts :
  Inverts readMagic (fun _ => Bytes.ofUInt32 magic) fun _ => True
  := by
  constructor
  · intro _ _ rest
    rw [readMagic, u32_inverts.bind_write trivial, if_neg (not_not_intro rfl)]
    rfl
  · intro input _ rest h
    obtain ⟨number, _, -, hinput, h⟩ := u32_inverts.of_bind h
    by_cases hmagic : number = magic
    · rw [if_neg (not_not_intro hmagic)] at h
      obtain ⟨-, rfl⟩ := pure_eq_ok.mp h
      use trivial
      rw [← hmagic, hinput]
    · rw [if_pos hmagic] at h
      contradiction

/-- Class files are read back, whatever follows. -/
theorem read_inverts :
  Inverts read toBytes Stored
  := by
  constructor
  · intro c hc rest
    simp only [toBytes, List.append_assoc]
    rw [read]
    refine Eq.trans (readMagic_inverts.bind_write (a := ()) trivial _ _) ?_
    rw [u16_inverts.bind_write trivial, u16_inverts.bind_write trivial,
      u16_inverts.bind_write trivial, (Record.readSlots_inverts _).bind_write hc.constPool,
      u16_inverts.bind_write trivial, u16_inverts.bind_write trivial,
      u16_inverts.bind_write trivial, u16_inverts.bind_write trivial,
      (u16_inverts.times _).bind_write ⟨hc.interfacesCount, fun _ _ => trivial⟩,
      u16_inverts.bind_write trivial,
      (MemberInfo.read_inverts.times _).bind_write ⟨hc.fieldsCount, hc.fields⟩,
      u16_inverts.bind_write trivial,
      (MemberInfo.read_inverts.times _).bind_write ⟨hc.methodsCount, hc.methods⟩,
      u16_inverts.bind_write trivial]
    apply (Attribute.read_inverts.times _).map_write ⟨hc.attributesCount, hc.attributes⟩
  · intro input c rest h
    obtain ⟨_, _, -, hmagic, h⟩ := readMagic_inverts.of_bind h
    obtain ⟨minor, _, -, hminor, h⟩ := u16_inverts.of_bind h
    obtain ⟨major, _, -, hmajor, h⟩ := u16_inverts.of_bind h
    obtain ⟨constPoolSize, _, -, hsize, h⟩ := u16_inverts.of_bind h
    obtain ⟨constPool, _, hconstPool, hrecords, h⟩ := (Record.readSlots_inverts _).of_bind h
    obtain ⟨flags, _, -, hflags, h⟩ := u16_inverts.of_bind h
    obtain ⟨thisClass, _, -, hthisClass, h⟩ := u16_inverts.of_bind h
    obtain ⟨superClass, _, -, hsuperClass, h⟩ := u16_inverts.of_bind h
    obtain ⟨interfacesCount, _, -, hinterfacesCount, h⟩ := u16_inverts.of_bind h
    obtain ⟨interfaces, _, hinterfaces, hinterfaceBytes, h⟩ := (u16_inverts.times _).of_bind h
    obtain ⟨fieldsCount, _, -, hfieldsCount, h⟩ := u16_inverts.of_bind h
    obtain ⟨fields, _, hfields, hfieldBytes, h⟩ := (MemberInfo.read_inverts.times _).of_bind h
    obtain ⟨methodsCount, _, -, hmethodsCount, h⟩ := u16_inverts.of_bind h
    obtain ⟨methods, _, hmethods, hmethodBytes, h⟩ := (MemberInfo.read_inverts.times _).of_bind h
    obtain ⟨attributesCount, _, -, hcount, h⟩ := u16_inverts.of_bind h
    obtain ⟨attributes, hattributes, rfl, hrest⟩ := (Attribute.read_inverts.times _).of_map h
    use ⟨hconstPool, hinterfaces.1, hfields.1, hfields.2, hmethods.1, hmethods.2, hattributes.1,
      hattributes.2⟩
    rw [← hmagic, ← hminor, ← hmajor, ← hsize, ← hrecords, ← hflags, ← hthisClass, ← hsuperClass,
      ← hinterfacesCount, ← hinterfaceBytes, ← hfieldsCount, ← hfieldBytes, ← hmethodsCount,
      ← hmethodBytes, ← hcount, ← hrest]
    simp only [toBytes, List.append_assoc]

/-- A class file is read from the front of some bytes exactly if it can be read back and these
are the bytes that are written for it, and then what follows them is left. -/
theorem parse_eq_ok_iff {input rest : List UInt8} {c : ClassFile} :
  parse input = .ok (c, rest) ↔ c.Stored ∧ c.toBytes ++ rest = input
  := by
  constructor
  · apply read_inverts.write_read
  · rintro ⟨hc, rfl⟩
    apply read_inverts.read_write hc

end ClassFile

end ClassForge
