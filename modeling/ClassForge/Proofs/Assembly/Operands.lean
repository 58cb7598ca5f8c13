import ClassForge.Proofs.Assembly.Resolution

/-!
# Pool operands in assembled code

An instruction that refers to an entry of the pool has the index of the entry after its opcode,
in two bytes or, to load a small constant, in one.
-/

namespace ClassForge

/-- The entry whose index is in the bytes of an instruction. -/
def Instruction.operand? : Instruction → Option PoolEntry
  | .constant c =>
    match c.form with
    | .pooled entry _ => some entry
    | _ => none
  | .new type | .checkCast type | .instanceOf type | .newArrays type _ => some (.ofClass type)
  | .newArray elem =>
    match elem.primitive? >>= Primitive.arrayCode? with
    | some _ => none
    | none => some (.ofClass elem)
  | .getField field _ | .putField field _ => some field.entry
  | .invoke method mode => some (method.entry mode)
  | _ => none

/-- The bytes of an instruction with the index as operand. -/
def HasOperand (bytes : List UInt8) (index : UInt16) : Prop :=
  (∃ opcode rest, bytes = opcode :: (Bytes.ofUInt16 index ++ rest))
    ∨ index.toNat < 256 ∧ bytes = [Opcode.ldc, index.toUInt8]

variable {labels : LabelTable} {pool : FrozenPool} {offset : Nat} {bytes : List UInt8}
  {e : PoolEntry}

namespace Instruction

theorem indexed_eq_ok {opcode : UInt8} (h : indexed opcode pool e = .ok bytes) :
  ∃ index, pool.indexOf e = .ok index ∧ bytes = opcode :: Bytes.ofUInt16 index
  := by
  obtain ⟨index, hindex, h⟩ := Except.bind_eq_ok_iff.mp h
  use index, Except.mapError_eq_ok_iff.mp hindex
  apply (Except.ok.inj h).symm

/-- An opcode with the index of an entry has this index for an operand, whatever follows. -/
theorem hasOperand_of_indexed {opcode : UInt8} (h : indexed opcode pool e = .ok bytes) :
  ∃ index, pool.indexOf e = .ok index ∧ ∀ rest, HasOperand (bytes ++ rest) index
  := by
  obtain ⟨index, hindex, rfl⟩ := indexed_eq_ok h
  use index, hindex
  intro rest
  left
  use opcode, rest
  rfl

/-- A literal that is loaded from the pool has the index of its entry for an operand. -/
theorem hasOperand_of_constant {c : Constant} {wide : Bool} (hform : c.form = .pooled e wide)
    (h : constantBytes c pool = .ok bytes) :
  ∃ index, pool.indexOf e = .ok index ∧ HasOperand bytes index
  := by
  rw [constantBytes, hform] at h
  cases wide with
  | true =>
      obtain ⟨index, hindex, h⟩ := Except.bind_eq_ok_iff.mp h
      obtain rfl := Except.ok.inj h
      use index, Except.mapError_eq_ok_iff.mp hindex
      left
      use Opcode.ldc2W, []
      rw [List.append_nil]
  | false =>
      obtain ⟨index, hindex, h⟩ := Except.bind_eq_ok_iff.mp h
      use index, Except.mapError_eq_ok_iff.mp hindex
      split at h
      · next hlt =>
        obtain rfl := Except.ok.inj h
        right
        have hlt : index.toNat < 255 := UInt16.lt_iff_toNat_lt.mp hlt
        use by omega
      · obtain rfl := Except.ok.inj h
        left
        use Opcode.ldcW, []
        rw [List.append_nil]

/-- The bytes of an instruction have the index of the entry that it refers to. -/
theorem hasOperand_of_encode {i : Instruction} (h : i.encode labels pool offset = .ok bytes)
    (he : i.operand? = some e) :
  ∃ index, pool.indexOf e = .ok index ∧ HasOperand bytes index
  := by
  have hindexed {opcode : UInt8} {e' : PoolEntry} (h : indexed opcode pool e' = .ok bytes)
      (he' : some e' = some e) : ∃ index, pool.indexOf e = .ok index ∧ HasOperand bytes index := by
    obtain rfl := Option.some.inj he'
    obtain ⟨index, hindex, hoperand⟩ := hasOperand_of_indexed h
    use index, hindex
    simpa using hoperand []
  cases i with
  | constant c =>
      rw [operand?] at he
      split at he
      · next hform =>
        obtain rfl := Option.some.inj he
        apply hasOperand_of_constant hform h
      · contradiction
  | new type => exact hindexed h he
  | checkCast type => exact hindexed h he
  | instanceOf type => exact hindexed h he
  | getField field isStatic => exact hindexed h he
  | putField field isStatic => exact hindexed h he
  | newArray elem =>
      rw [operand?] at he
      rw [encode, newArrayBytes] at h
      split at he
      · contradiction
      · next hcode =>
        rw [hcode] at h
        exact hindexed h he
  | newArrays type dims =>
      obtain ⟨bytes', hbytes', h⟩ := Except.bind_eq_ok_iff.mp h
      obtain rfl := Except.ok.inj h
      obtain rfl := Option.some.inj he
      obtain ⟨index, hindex, hoperand⟩ := hasOperand_of_indexed hbytes'
      exact ⟨index, hindex, hoperand _⟩
  | invoke method mode =>
      obtain ⟨bytes', hbytes', h⟩ := Except.bind_eq_ok_iff.mp h
      obtain rfl := Option.some.inj he
      obtain ⟨index, hindex, hoperand⟩ := hasOperand_of_indexed hbytes'
      use index, hindex
      split at h
      · obtain rfl := Except.ok.inj h
        simpa using hoperand []
      · dsimp only at h
        split at h
        · obtain rfl := Except.ok.inj h
          apply hoperand
        · contradiction
  | _ => contradiction

end Instruction

/-- In assembled code the bytes of an instruction have the index of the entry that it refers
to. -/
theorem MethodCode.hasOperand_of_assemble {code : MethodCode} {out : AssembledCode}
    (hmade : SwitchesMade code.instructions) (h : (code.assemble pool).outcome = .ok out)
    {k start : Nat} {i : Instruction}
    (hk : code.instructions[k]? = some i) (hstart : out.offsets[k]? = some start)
    (he : i.operand? = some e) :
  ∃ index before bytes after, pool.indexOf e = .ok index ∧ out.code = before ++ bytes ++ after
    ∧ before.length = start ∧ HasOperand bytes index
  := by
  obtain ⟨layout, hlayout, hcode, -, hoffsets⟩ := MethodCode.assemble_eq_ok h
  rw [hoffsets] at hstart
  obtain ⟨before, bytes, after, happend, hbefore, hencode, -⟩ :=
    (Layout.covers_of hlayout).exists_append hmade hcode hk hstart
  obtain ⟨index, hindex, hoperand⟩ := Instruction.hasOperand_of_encode hencode he
  exact ⟨index, before, bytes, after, hindex, happend, hbefore, hoperand⟩

end ClassForge
