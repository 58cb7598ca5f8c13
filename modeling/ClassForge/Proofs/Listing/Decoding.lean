import ClassForge.Listing.Decode
import ClassForge.Proofs.Assembly.Encoding
import ClassForge.Proofs.Reading.Reader
import ClassForge.Proofs.Switch

/-!
# Decoding what was encoded

The bytes of an instruction are read back as the opcodes that were written for it, whatever
follows them. Distances are read back as they were written.
-/

namespace ClassForge

/-! ### Signed numbers -/

namespace Reader

section

variable {α β : Type} {reader : Reader α} {write : α → List UInt8} {valid : α → Prop}

/-- A reader still inverts writing if values are converted after one and before the other. -/
theorem Inverts.convert (hreader : Inverts reader write valid) {f : α → β} {g : β → α}
    (hfg : ∀ b, f (g b) = b) (hgf : ∀ a, g (f a) = a) :
  Inverts (reader >>= fun a => Pure.pure (f a)) (fun b => write (g b)) fun b => valid (g b)
  := by
  constructor
  · intro b hb rest
    rw [hreader.map_write hb, hfg]
  · intro input b rest h
    obtain ⟨a, ha, rfl, hinput⟩ := hreader.of_map h
    rw [hgf]
    use ha

end

theorem i16_inverts :
  Inverts i16 (fun a => Bytes.ofUInt16 a.toUInt16) fun _ => True
  := u16_inverts.convert Int16.toInt16_toUInt16 UInt16.toUInt16_toInt16

theorem i32_inverts :
  Inverts i32 (fun a => Bytes.ofUInt32 a.toUInt32) fun _ => True
  := u32_inverts.convert Int32.toInt32_toUInt32 UInt32.toUInt32_toInt32

end Reader

/-! ### One instruction -/

/-- At an offset the bytes are read as the instruction, whatever follows them. -/
structure Decoded.StandsIn (offset : Nat) (bytes : List UInt8) (d : Decoded) : Prop where
  length : bytes.length = d.size offset
  read : ∀ rest, Decoded.ofCode? offset (bytes ++ rest) = some d

/-- From an offset on the bytes are read as the items, one after another. -/
inductive CodeItem.Reads : Nat → List UInt8 → List CodeItem → Prop where
  | nil {offset} : Reads offset [] []
  | cons {offset bytes rest d items} : d.StandsIn offset bytes →
    Reads (offset + bytes.length) rest items →
    Reads offset (bytes ++ rest) (.instruction offset d :: items)

namespace CodeItem

variable {offset : Nat} {bytes rest : List UInt8} {items items' : List CodeItem}

theorem Reads.singleton {d : Decoded} (h : d.StandsIn offset bytes) :
  Reads offset bytes [.instruction offset d]
  := by
  rw [← List.append_nil bytes]
  exact .cons h .nil

/-- Bytes that are read one after the other are read together. -/
theorem Reads.append (h : Reads offset bytes items)
    (hrest : Reads (offset + bytes.length) rest items') :
  Reads offset (bytes ++ rest) (items ++ items')
  := by
  induction h with
  | nil => exact hrest
  | cons hd _ ih =>
      rw [List.length_append, ← Nat.add_assoc] at hrest
      rw [List.append_assoc]
      exact .cons hd (ih hrest)

/-- The sweep takes an instruction off the front. -/
theorem sweepOnto_of_standsIn {d : Decoded} (h : d.StandsIn offset bytes) (done : List CodeItem) :
  sweepOnto done offset (bytes ++ rest)
    = sweepOnto (.instruction offset d :: done) (offset + bytes.length) rest
  := by
  have hlength := h.length
  have hread := h.read rest
  cases bytes with
  | nil =>
      rw [Decoded.size, List.length_nil] at hlength
      omega
  | cons opcode operands =>
      rw [Decoded.size, List.length_cons, Nat.add_comm 1] at hlength
      rw [List.cons_append] at hread
      rw [List.cons_append, sweepOnto.eq_def]
      simp only [hread, ← Nat.succ.inj hlength, List.drop_left, Decoded.size, List.length_cons,
        Nat.add_comm 1]

/-- The sweep finds what the bytes are read as, after what it has found so far. -/
theorem Reads.sweepOnto (h : Reads offset bytes items) (done : List CodeItem) :
  sweepOnto done offset bytes = done.reverse ++ items
  := by
  induction h generalizing done with
  | nil =>
      rw [CodeItem.sweepOnto.eq_def, List.append_nil]
  | cons hd _ ih =>
      rw [sweepOnto_of_standsIn hd, ih, List.reverse_cons, List.append_assoc]
      rfl

/-- The sweep shows code as what it is read as. -/
theorem Reads.sweep_eq (h : Reads 0 bytes items) :
  sweep bytes = items
  := h.sweepOnto []

end CodeItem

/-- The place of an item. -/
def CodeItem.offset : CodeItem → Nat
  | .instruction offset _ | .malformed offset => offset

/-! ### Operands -/

/-- At an offset the bytes are read as operands of the form, whatever follows them. -/
structure Operands.StandsIn (offset : Nat) (form : OperandForm) (bytes : List UInt8)
    (operands : Operands) : Prop where
  length : bytes.length = operands.size offset
  read : ∀ rest, Operands.read offset form (bytes ++ rest) = .ok (operands, rest)

namespace Operands

variable {offset : Nat}

theorem standsIn_none :
  Operands.none.StandsIn offset .none []
  := ⟨rfl, fun _ => rfl⟩

theorem standsIn_int8 (value : UInt8) :
  (Operands.int8 value.toInt8).StandsIn offset .int8 [value]
  := ⟨rfl, fun _ => rfl⟩

theorem standsIn_pool8 (index : UInt8) :
  (Operands.pool8 index).StandsIn offset .pool8 [index]
  := ⟨rfl, fun _ => rfl⟩

theorem standsIn_slot (slot : UInt8) :
  (Operands.slot slot).StandsIn offset .slot [slot]
  := ⟨rfl, fun _ => rfl⟩

theorem standsIn_increment (slot delta : UInt8) :
  (Operands.increment slot delta.toInt8).StandsIn offset .increment [slot, delta]
  := ⟨rfl, fun _ => rfl⟩

theorem standsIn_int16 (value : Int16) :
  (Operands.int16 value).StandsIn offset .int16 (Bytes.ofUInt16 value.toUInt16)
  := ⟨rfl, Reader.i16_inverts.map_write trivial _⟩

theorem standsIn_pool16 (index : UInt16) :
  (Operands.pool16 index).StandsIn offset .pool16 (Bytes.ofUInt16 index)
  := ⟨rfl, Reader.u16_inverts.map_write trivial _⟩

theorem standsIn_near (distance : Int16) :
  (Operands.near distance).StandsIn offset .near (Bytes.ofUInt16 distance.toUInt16)
  := ⟨rfl, Reader.i16_inverts.map_write trivial _⟩

theorem standsIn_interfaceCall (index : UInt16) (count : UInt8) :
  (Operands.interfaceCall index count).StandsIn offset .interfaceCall
    (Bytes.ofUInt16 index ++ [count, 0])
  := by
  constructor
  · rfl
  · intro rest
    rw [read, List.append_assoc, Reader.u16_inverts.bind_write trivial]
    rfl

theorem standsIn_arrays (index : UInt16) (dimensions : UInt8) :
  (Operands.arrays index dimensions).StandsIn offset .arrays (Bytes.ofUInt16 index ++ [dimensions])
  := by
  constructor
  · rfl
  · intro rest
    rw [read, List.append_assoc, Reader.u16_inverts.bind_write trivial]
    rfl

/-- The code of a primitive type is read back as its name. -/
theorem standsIn_element {p : Primitive} {code : UInt8} (h : p.arrayCode? = some code) :
  ∃ type, (Operands.element type).StandsIn offset .element [code]
  := by
  cases p with
  | void => contradiction
  | _ =>
      obtain rfl := Option.some.inj h
      exact ⟨_, rfl, fun _ => rfl⟩

/-- The slot of a widened opcode is read back. -/
theorem standsIn_wideSlot {opcode : UInt8} (h : Opcode.takesSlot opcode) (slot : UInt16) :
  (Operands.wideSlot opcode slot).StandsIn offset .wide (opcode :: Bytes.ofUInt16 slot)
  := by
  have hne : opcode ≠ Opcode.iinc := by
    rintro rfl
    contradiction
  constructor
  · rfl
  · intro rest
    rw [read, readWide, List.cons_append, ← List.singleton_append,
      Reader.u8_inverts.bind_write trivial, Reader.u16_inverts.bind_write trivial, if_neg hne,
      if_pos h]
    rfl

/-- The slot and the number of a widened increment are read back. -/
theorem standsIn_wideIncrement (slot : UInt16) (delta : Int16) :
  (Operands.wideIncrement slot delta).StandsIn offset .wide
    (Opcode.iinc :: Bytes.ofUInt16 slot ++ Bytes.ofUInt16 delta.toUInt16)
  := by
  constructor
  · rfl
  · intro rest
    rw [read, readWide, List.append_assoc, List.cons_append, ← List.singleton_append,
      Reader.u8_inverts.bind_write trivial, Reader.u16_inverts.bind_write trivial, if_pos rfl]
    apply Reader.i16_inverts.map_write trivial

/-- A key with its distance is read back. -/
theorem readCase_inverts :
  Reader.Inverts readCase (fun c => Bytes.ofUInt32 c.1.toUInt32 ++ Bytes.ofUInt32 c.2.toUInt32)
    fun _ => True
  := by
  constructor
  · intro c _ rest
    rw [readCase, List.append_assoc, Reader.i32_inverts.bind_write trivial]
    apply Reader.i32_inverts.map_write trivial
  · intro input c rest h
    obtain ⟨key, middle, -, hkey, h⟩ := Reader.i32_inverts.of_bind h
    obtain ⟨distance, -, rfl, hdistance⟩ := Reader.i32_inverts.of_map h
    use trivial
    rw [List.append_assoc, hdistance, hkey]

/-- The bytes before the operands of a switch may be any. -/
theorem read_padding {n : Nat} {padding : List UInt8} (hpadding : padding.length = n)
    (next : List UInt8 → Reader Operands) (rest : List UInt8) :
  (Reader.bytes n >>= next) (padding ++ rest) = next padding rest
  := Reader.bind_of_ok ((Reader.bytes_inverts n).read_write hpadding rest)

/-- The operands of a table are read back, whatever follows, if there are not too many keys. -/
theorem standsIn_table {fallback low high : Int32} {distances : List Int32}
    (hlength : distances.length = (Switch.span low high).toNat) (hlow : 0 < distances.length)
    (hhigh : distances.length ≤ 65536) :
  (Operands.table fallback low high distances).StandsIn offset .table
    (List.replicate (switchPadding offset) 0 ++ Bytes.ofUInt32 fallback.toUInt32
      ++ (Bytes.ofUInt32 low.toUInt32 ++ Bytes.ofUInt32 high.toUInt32
        ++ distances.flatMap fun distance => Bytes.ofUInt32 distance.toUInt32))
  := by
  constructor
  · simp [size, Bytes.ofUInt32]
    omega
  · intro rest
    have hspan : ¬ (high.toInt - low.toInt + 1 ≤ 0 ∨ 65536 < high.toInt - low.toInt + 1) := by
      unfold Switch.span at hlength
      omega
    simp only [List.append_assoc]
    rw [read, read_padding List.length_replicate, readTable, Reader.i32_inverts.bind_write trivial,
      Reader.i32_inverts.bind_write trivial, Reader.i32_inverts.bind_write trivial]
    simp only [if_neg hspan]
    apply (Reader.i32_inverts.times _).map_write
    use hlength
    simp

/-- The operands of a lookup are read back, whatever follows, if there are not too many cases. -/
theorem standsIn_lookup {fallback : Int32} {cases : List (Int32 × Int32)}
    (hlength : cases.length < 65536) :
  (Operands.lookup fallback cases).StandsIn offset .lookup
    (List.replicate (switchPadding offset) 0 ++ Bytes.ofUInt32 fallback.toUInt32
      ++ (Bytes.ofUInt32 (UInt32.ofNat cases.length)
        ++ cases.flatMap fun c => Bytes.ofUInt32 c.1.toUInt32 ++ Bytes.ofUInt32 c.2.toUInt32))
  := by
  constructor
  · simp [size, Bytes.ofUInt32, List.length_flatMap]
    omega
  · intro rest
    have hcount : (Int32.ofNat cases.length).toInt = cases.length :=
      Int32.toInt_ofNat_of_lt (by omega)
    have hrange : ¬ ((cases.length : Int) < 0 ∨ 65536 ≤ (cases.length : Int)) := by
      omega
    rw [← Int32.toUInt32_ofNat']
    simp only [List.append_assoc]
    rw [read, read_padding List.length_replicate, readLookup, Reader.i32_inverts.bind_write trivial,
      Reader.i32_inverts.bind_write trivial]
    simp only [hcount, if_neg hrange]
    apply (readCase_inverts.times _).map_write
    simp

end Operands

/-! ### Opcodes with their operands -/

/-- The opcode has a name and takes operands of the form. -/
abbrev Opcode.Takes (opcode : UInt8) (operands : OperandForm) : Prop :=
  opcode ≤ gotoW ∧ form opcode = operands

/-- Every opcode up to the last one has a name. -/
theorem Opcode.exists_mnemonic {opcode : UInt8} (h : opcode ≤ gotoW) :
  ∃ name, mnemonic? opcode = some name
  := by
  have hsize : mnemonics.size = 201 := by rfl
  have hlt : opcode.toNat < mnemonics.size := by
    rw [hsize]
    apply Nat.lt_succ_of_le (UInt8.le_iff_toNat_le.mp h)
  exact ⟨_, Array.getElem?_eq_getElem hlt⟩

section

variable {offset : Nat} {opcode : UInt8} {bytes : List UInt8} {operands : Operands}
  {form : OperandForm}

/-- An opcode with a name and its operands is read back as an instruction. -/
theorem Decoded.exists_standsIn (hopcode : Opcode.Takes opcode form)
    (h : operands.StandsIn offset form bytes) :
  ∃ name, (⟨name, operands⟩ : Decoded).StandsIn offset (opcode :: bytes)
  := by
  obtain ⟨name, hname⟩ := Opcode.exists_mnemonic hopcode.1
  use name
  constructor
  · rw [List.length_cons, h.length, Decoded.size, Nat.add_comm]
  · intro rest
    rw [List.cons_append, Decoded.ofCode?, hname, hopcode.2]
    simp [h.read]

/-- The bytes are read as opcodes at the offsets. -/
def CodeItem.ReadsAt (offset : Nat) (bytes : List UInt8) (offsets : List Nat) : Prop :=
  ∃ items, Reads offset bytes items ∧ items.map CodeItem.offset = offsets

theorem CodeItem.ReadsAt.one (hopcode : Opcode.Takes opcode form)
    (h : operands.StandsIn offset form bytes) :
  ReadsAt offset (opcode :: bytes) [offset]
  := by
  obtain ⟨name, h⟩ := Decoded.exists_standsIn hopcode h
  exact ⟨_, .singleton h, rfl⟩

end

/-! ### Families of opcodes -/

namespace Opcode

theorem takes_iload0 (kind : Kind) :
  ∀ n ≤ 3, Takes (iload0 + 4 * kind.familyIndex + UInt8.ofNat n) .none
  := by
  cases kind <;> decide

theorem takes_istore0 (kind : Kind) :
  ∀ n ≤ 3, Takes (istore0 + 4 * kind.familyIndex + UInt8.ofNat n) .none
  := by
  cases kind <;> decide

theorem takes_iload (kind : Kind) :
  Takes (iload + kind.familyIndex) .slot ∧ takesSlot (iload + kind.familyIndex)
  := by
  cases kind <;> decide

theorem takes_istore (kind : Kind) :
  Takes (istore + kind.familyIndex) .slot ∧ takesSlot (istore + kind.familyIndex)
  := by
  cases kind <;> decide

theorem takes_arith {op : ArithOp} {kind : Kind}
    (h : kind ≠ .reference ∧ ¬ (kind.isFloating ∧ op.isBitwise)) :
  Takes (Instruction.arithOpcode op + kind.familyIndex) .none
  := by
  revert h
  cases kind <;> cases op <;> decide

-- what a bitwise operation on floating point numbers would be read as
example : form (Instruction.arithOpcode .xor + Kind.float.familyIndex) = .increment := by decide

theorem takes_ineg (kind : Kind) :
  Takes (ineg + kind.familyIndex) .none
  := by
  cases kind <;> decide

theorem takes_compare (kind : Kind) (nanGreater : Bool) :
  Takes (Instruction.compareOpcode kind nanGreater) .none
  := by
  cases kind <;> cases nanGreater <;> decide

theorem takes_conversionStep {source target : Kind} {opcode : UInt8}
    (h : conversionStep? source target = some opcode) :
  Takes opcode .none
  := by
  cases source <;> cases target <;> cases h <;> decide

theorem takes_narrowing {target : Primitive} {opcode : UInt8}
    (h : narrowing? target = some opcode) :
  Takes opcode .none
  := by
  cases target <;> cases h <;> decide

/-- The opcodes of a conversion take no operands. -/
theorem takes_conversion (source target : Primitive) :
  ∀ opcode ∈ conversionOpcodes source target, Takes opcode .none
  := by
  intro opcode hopcode
  obtain hstep | hnarrow := List.mem_append.mp hopcode
  · apply takes_conversionStep (Option.mem_toList.mp hstep)
  · split at hnarrow
    · contradiction
    · apply takes_narrowing (Option.mem_toList.mp hnarrow)

theorem takes_elementIndex (elem : Ty) :
  Takes (iaload + Instruction.elementIndex elem) .none
    ∧ Takes (iastore + Instruction.elementIndex elem) .none
  := by
  unfold Instruction.elementIndex
  split <;> decide

theorem takes_ireturn (kind : Kind) :
  Takes (ireturn + kind.familyIndex) .none
  := by
  cases kind <;> decide

theorem takes_invoke (mode : InvokeMode) :
  Takes (Instruction.invokeOpcode mode)
    (if mode = .interface then .interfaceCall else .pool16)
  := by
  cases mode <;> decide

end Opcode

/-- The integers that have opcodes of their own. -/
theorem Constant.int_cases {value : Int32} (h : -1 ≤ value.toInt ∧ value.toInt ≤ 5) :
  value = -1 ∨ value = 0 ∨ value = 1 ∨ value = 2 ∨ value = 3 ∨ value = 4 ∨ value = 5
  := by
  have hsmall : value.toInt = -1 ∨ value.toInt = 0 ∨ value.toInt = 1 ∨ value.toInt = 2
      ∨ value.toInt = 3 ∨ value.toInt = 4 ∨ value.toInt = 5 := by
    omega
  rw [← Int32.ofInt_toInt value]
  rcases hsmall with h | h | h | h | h | h | h <;> rw [h] <;> decide

/-- The opcode of a literal takes no operands. -/
theorem Constant.takes_of_form {c : Constant} {opcode : UInt8} (h : c.form = .opcode opcode) :
  Opcode.Takes opcode .none
  := by
  cases c with
  | int value =>
      rw [form] at h
      split_ifs at h with hrange
      · obtain rfl := ConstantForm.opcode.inj h
        rcases int_cases hrange with rfl | rfl | rfl | rfl | rfl | rfl | rfl <;> decide
  | long _ | float _ | double _ =>
      rw [form] at h
      split_ifs at h <;> cases h <;> decide
  | string _ | classOf _ => contradiction
  | null =>
      cases h
      decide

/-! ### Instructions without a target -/

/-- The opcodes of the instruction take the operands that are written for it: its operation is
one for the kind of its values, and the cases of a switch are in order. -/
def Instruction.HasOpcode : Instruction → Prop
  | .arith op kind => kind ≠ .reference ∧ ¬ (kind.isFloating ∧ op.isBitwise)
  | .branch (.compare .reference condition) _ => condition = .eq ∨ condition = .ne
  | .switch s => ∃ fallback cases, Switch.ofCases fallback cases = .ok s
  | _ => True

/-- The number of opcodes of an instruction. -/
def Instruction.opcodeCount : Instruction → Nat
  | .label _ => 0
  | .convert source target => (conversionOpcodes source target).length
  | _ => 1

/-- The places of the opcodes of an instruction that stands at `offset`. -/
def Instruction.opcodeOffsets (offset : Nat) (i : Instruction) : List Nat :=
  List.range' offset i.opcodeCount

namespace CodeItem

variable {offset : Nat}

theorem ReadsAt.nil :
  ReadsAt offset [] []
  := ⟨[], .nil, rfl⟩

/-- Opcodes without operands stand one after another. -/
theorem ReadsAt.plain {opcodes : List UInt8} (h : ∀ opcode ∈ opcodes, Opcode.Takes opcode .none) :
  ReadsAt offset opcodes (List.range' offset opcodes.length)
  := by
  induction opcodes generalizing offset with
  | nil => exact .nil
  | cons opcode opcodes ih =>
      obtain ⟨hopcode, hopcodes⟩ := List.forall_mem_cons.mp h
      have hone : ReadsAt offset [opcode] [offset] := .one hopcode Operands.standsIn_none
      obtain ⟨items, hread, hitems⟩ := hone
      obtain ⟨items', hread', hitems'⟩ := @ih (offset + 1) hopcodes
      use items ++ items', hread.append hread'
      rw [List.map_append, hitems, hitems']
      rfl

end CodeItem

namespace Instruction

open CodeItem

variable {labels : LabelTable} {pool : FrozenPool} {offset : Nat} {bytes : List UInt8}

/-- An access to a local is read back as one instruction, in each of its three forms. -/
theorem readsAt_localBytes {compact general : UInt8} {kind : Kind}
    (hcompact : ∀ n ≤ 3, Opcode.Takes (compact + 4 * kind.familyIndex + UInt8.ofNat n) .none)
    (hgeneral : Opcode.Takes (general + kind.familyIndex) .slot
      ∧ Opcode.takesSlot (general + kind.familyIndex)) (slot : UInt16) :
  ReadsAt offset (localBytes compact general slot kind) [offset]
  := by
  unfold localBytes
  split
  · next hslot =>
    exact .one (hcompact slot.toNat (UInt16.le_iff_toNat_le.mp hslot)) Operands.standsIn_none
  split
  · exact .one hgeneral.1 (Operands.standsIn_slot _)
  · exact .one (by decide) (Operands.standsIn_wideSlot hgeneral.2 slot)

theorem readsAt_incrementBytes (slot : UInt16) (delta : Int16) :
  ReadsAt offset (incrementBytes slot delta) [offset]
  := by
  unfold incrementBytes
  split
  · exact .one (by decide) (Operands.standsIn_increment _ _)
  · exact .one (by decide) (Operands.standsIn_wideIncrement slot delta)

theorem readsAt_indexed {opcode : UInt8} {e : PoolEntry} (hopcode : Opcode.Takes opcode .pool16)
    (h : indexed opcode pool e = .ok bytes) :
  ReadsAt offset bytes [offset]
  := by
  obtain ⟨index, -, h⟩ := Except.bind_eq_ok_iff.mp h
  obtain rfl := Except.ok.inj h
  exact .one hopcode (Operands.standsIn_pool16 index)

/-- A literal is read back as one instruction. -/
theorem readsAt_constantBytes {c : Constant} (h : constantBytes c pool = .ok bytes) :
  ReadsAt offset bytes [offset]
  := by
  unfold constantBytes at h
  split at h
  · next hform =>
    obtain rfl := Except.ok.inj h
    exact .one (Constant.takes_of_form hform) Operands.standsIn_none
  · obtain rfl := Except.ok.inj h
    exact .one (by decide) (Operands.standsIn_int8 _)
  · next value hform =>
    obtain rfl := Except.ok.inj h
    exact .one (by decide) (Operands.standsIn_int16 value.toInt16)
  · exact readsAt_indexed (by decide) h
  · obtain ⟨index, -, h⟩ := Except.bind_eq_ok_iff.mp h
    split at h
    · obtain rfl := Except.ok.inj h
      exact .one (by decide) (Operands.standsIn_pool8 _)
    · obtain rfl := Except.ok.inj h
      exact .one (by decide) (Operands.standsIn_pool16 index)

/-- The creation of an array is read back as one instruction. -/
theorem readsAt_newArrayBytes {elem : Ty} (h : newArrayBytes elem pool = .ok bytes) :
  ReadsAt offset bytes [offset]
  := by
  unfold newArrayBytes at h
  split at h
  · next code hcode =>
    obtain rfl := Except.ok.inj h
    obtain ⟨p, -, hp⟩ := Option.bind_eq_some_iff.mp hcode
    obtain ⟨type, helement⟩ := Operands.standsIn_element hp
    exact .one (by decide) helement
  · exact readsAt_indexed (by decide) h

/-- A call is read back as one instruction. -/
theorem readsAt_invokeBytes {method : MethodRef} {mode : InvokeMode}
    (h : invokeBytes method mode pool = .ok bytes) :
  ReadsAt offset bytes [offset]
  := by
  have hopcode := Opcode.takes_invoke mode
  obtain ⟨bytes', hbytes, h⟩ := Except.bind_eq_ok_iff.mp h
  split at h
  · next hmode =>
    obtain rfl := Except.ok.inj h
    rw [if_neg hmode] at hopcode
    exact readsAt_indexed hopcode hbytes
  · next hmode =>
    rw [if_pos (not_not.mp hmode)] at hopcode
    obtain ⟨index, -, hbytes⟩ := Except.bind_eq_ok_iff.mp hbytes
    obtain rfl := Except.ok.inj hbytes
    dsimp only at h
    split at h
    · obtain rfl := Except.ok.inj h
      exact .one hopcode (Operands.standsIn_interfaceCall index _)
    · contradiction

/-- An instruction without a target is read back as the opcodes that it has. -/
theorem readsAt_of_encode {i : Instruction} (hopcode : i.HasOpcode) (htargets : i.targets = [])
    (h : i.encode labels pool offset = .ok bytes) :
  ReadsAt offset bytes (i.opcodeOffsets offset)
  := by
  have hplain {opcode : UInt8} (hopcode : Opcode.Takes opcode .none)
      (h : Except.ok [opcode] = (.ok bytes : Except EncodeError (List UInt8))) :
      ReadsAt offset bytes [offset] := by
    obtain rfl := Except.ok.inj h
    exact .one hopcode Operands.standsIn_none
  cases i with
  | label l =>
      obtain rfl := Except.ok.inj h
      exact .nil
  | load slot kind =>
      obtain rfl := Except.ok.inj h
      exact readsAt_localBytes (Opcode.takes_iload0 kind) (Opcode.takes_iload kind) slot
  | store slot kind =>
      obtain rfl := Except.ok.inj h
      exact readsAt_localBytes (Opcode.takes_istore0 kind) (Opcode.takes_istore kind) slot
  | increment slot delta =>
      obtain rfl := Except.ok.inj h
      exact readsAt_incrementBytes slot delta
  | constant c => exact readsAt_constantBytes h
  | arith op kind => exact hplain (Opcode.takes_arith hopcode) h
  | neg kind => exact hplain (Opcode.takes_ineg kind) h
  | convert source target =>
      obtain rfl := Except.ok.inj h
      exact .plain (Opcode.takes_conversion source target)
  | compare kind nanGreater => exact hplain (Opcode.takes_compare kind nanGreater) h
  | branch test target => contradiction
  | switch s => contradiction
  | dup slots =>
      rw [encode] at h
      split at h <;> exact hplain (by decide) h
  | pop slots =>
      rw [encode] at h
      split at h <;> exact hplain (by decide) h
  | newArray elem => exact readsAt_newArrayBytes h
  | newArrays type dims =>
      obtain ⟨bytes', hbytes, h⟩ := Except.bind_eq_ok_iff.mp h
      obtain rfl := Except.ok.inj h
      obtain ⟨index, -, hbytes⟩ := Except.bind_eq_ok_iff.mp hbytes
      obtain rfl := Except.ok.inj hbytes
      exact .one (by decide) (Operands.standsIn_arrays index dims)
  | arrayLoad elem => exact hplain (Opcode.takes_elementIndex elem).1 h
  | arrayStore elem => exact hplain (Opcode.takes_elementIndex elem).2 h
  | new type | checkCast type | instanceOf type => exact readsAt_indexed (by decide) h
  | getField field isStatic | putField field isStatic =>
      cases isStatic <;> exact readsAt_indexed (by decide) h
  | invoke method mode => exact readsAt_invokeBytes h
  | ret kind =>
      cases kind with
      | none => exact hplain (by decide) h
      | some kind => exact hplain (Opcode.takes_ireturn kind) h
  | arrayLength | throw | monitorEnter | monitorExit | nop => exact hplain (by decide) h

end Instruction

end ClassForge
