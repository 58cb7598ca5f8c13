import ClassForge.Proofs.Assembly.Operands
import ClassForge.Proofs.Listing.Decoding
import ClassForge.Proofs.Pool.Capacity

/-!
# Forms that the operands decide

Which bytes push a literal or access a local depends on the literal and on the slot: there are
opcodes for some operands, and one or two bytes for others. What a machine makes of the bytes,
by the opcode, the operands after it and the entry of the pool that they refer to, is what was
asked for, whichever form was chosen.
-/

namespace ClassForge

/-! ### What bytes do -/

/-- What a machine pushes for a literal. A class is known by the name of its entry. -/
inductive Pushed where
  | int (value : Int32)
  | long (value : Int64)
  | float (bits : UInt32)
  | double (bits : UInt64)
  | string (text : String)
  | classNamed (name : String)
  | null
  deriving DecidableEq

namespace Pushed

/-- What is pushed for a literal. -/
def ofConstant : Constant → Pushed
  | .int value => .int value
  | .long value => .long value
  | .float bits => .float bits
  | .double bits => .double bits
  | .string text => .string text
  | .classOf type => .classNamed type.entryName
  | .null => .null

/-- What the opcodes from `aconst_null` on push, in their order. -/
def inOpcodes : List Pushed :=
  [.null, .int (-1), .int 0, .int 1, .int 2, .int 3, .int 4, .int 5, .long 0, .long 1, .float 0,
    .float 0x3f800000, .float 0x40000000, .double 0, .double 0x3ff0000000000000]

/-- What is pushed for an opcode without operands. -/
def ofOpcode? (opcode : UInt8) : Option Pushed :=
  inOpcodes[(opcode - Opcode.aconstNull).toNat]?

/-- What `ldc` and `ldc_w` push for an entry. -/
def ofNarrow? : PoolEntry → Option Pushed
  | .integer value => some (.int value)
  | .float bits => some (.float bits)
  | .string text => some (.string text)
  | .classRef name => some (.classNamed name)
  | _ => none

/-- What `ldc2_w` pushes for an entry. -/
def ofWide? : PoolEntry → Option Pushed
  | .long value => some (.long value)
  | .double bits => some (.double bits)
  | _ => none

end Pushed

/-- The kinds in the order in which families of opcodes have them. -/
def Kind.inFamilies : List Kind :=
  [.int, .long, .float, .double, .reference]

/-- What an opcode does that moves a value between the stack, the locals and the pool. -/
inductive Transfer where
  | push (value : Pushed)
  | load (slot : UInt16) (kind : Kind)
  | store (slot : UInt16) (kind : Kind)
  | increment (slot : UInt16) (delta : Int16)
  deriving DecidableEq

namespace Transfer

/-- What an opcode does that has its slot in it. There are four for each kind. -/
def ofFirstSlots? (opcode : UInt8) : Option Transfer :=
  let loads := (opcode - Opcode.iload0).toNat
  let stores := (opcode - Opcode.istore0).toNat
  ((Kind.inFamilies[loads / 4]?).map (.load (UInt16.ofNat (loads % 4))))
    <|> ((Kind.inFamilies[stores / 4]?).map (.store (UInt16.ofNat (stores % 4))))

/-- What an opcode without operands does. -/
def ofOpcode? (opcode : UInt8) : Option Transfer :=
  ((Pushed.ofOpcode? opcode).map .push) <|> ofFirstSlots? opcode

/-- What an opcode does to the slot in its operand. -/
def ofSlot? (opcode : UInt8) (slot : UInt16) : Option Transfer :=
  ((Kind.inFamilies[(opcode - Opcode.iload).toNat]?).map (.load slot))
    <|> ((Kind.inFamilies[(opcode - Opcode.istore).toNat]?).map (.store slot))

/-- What an opcode does with its operands. -/
def of? (pool : FrozenPool) (opcode : UInt8) : Operands → Option Transfer
  | .none => ofOpcode? opcode
  | .int8 value => some (.push (.int value.toInt32))
  | .int16 value => some (.push (.int value.toInt32))
  | .pool8 index => (pool.get? index.toUInt16 >>= Pushed.ofNarrow?).map .push
  | .pool16 index =>
    if opcode = Opcode.ldcW then (pool.get? index >>= Pushed.ofNarrow?).map .push
    else if opcode = Opcode.ldc2W then (pool.get? index >>= Pushed.ofWide?).map .push
    else none
  | .slot number => ofSlot? opcode number.toUInt16
  | .increment number delta => some (.increment number.toUInt16 delta.toInt16)
  | .wideSlot opcode slot => ofSlot? opcode slot
  | .wideIncrement slot delta => some (.increment slot delta)
  | _ => none

/-- What the opcode at the front of some code does, which stands at `offset`, and the code after
its operands. -/
def read? (pool : FrozenPool) (offset : Nat) : List UInt8 → Option (Transfer × List UInt8)
  | [] => none
  | opcode :: rest =>
    match Operands.read offset (Opcode.form opcode) rest with
    | .ok (operands, rest) => (of? pool opcode operands).map fun t => (t, rest)
    | .error _ => none

/-- The bytes do this, whatever follows them. -/
def StandsIn (pool : FrozenPool) (offset : Nat) (bytes : List UInt8) (t : Transfer) : Prop :=
  ∀ rest, read? pool offset (bytes ++ rest) = some (t, rest)

variable {pool : FrozenPool} {offset : Nat} {opcode : UInt8} {form : OperandForm}
  {bytes : List UInt8} {operands : Operands} {t : Transfer}

theorem standsIn_of_operands (hform : Opcode.form opcode = form)
    (h : operands.StandsIn offset form bytes) (ht : of? pool opcode operands = some t) :
  t.StandsIn pool offset (opcode :: bytes)
  := by
  intro rest
  rw [List.cons_append, read?, hform]
  simp only [h.read, ht, Option.map_some]

end Transfer

/-! ### Locals -/

/-- A number below 256 is kept in one byte. -/
theorem Bytes.toUInt16_toUInt8 {n : UInt16} (h : n.toNat < 256) :
  n.toUInt8.toUInt16 = n
  := by
  apply UInt16.toNat.inj
  rw [UInt8.toNat_toUInt16, UInt16.toNat_toUInt8]
  apply Nat.mod_eq_of_lt h

/-- A number that fits into one byte is kept by it. -/
theorem Bytes.toInt16_toInt8 {n : Int16} (h : -128 ≤ n.toInt ∧ n.toInt ≤ 127) :
  n.toUInt16.toUInt8.toInt8.toInt16 = n
  := by
  have htruncate : n.toUInt16.toUInt8.toInt8 = n.toInt8 := by
    apply Int8.toBitVec.inj
    simp [BitVec.signExtend_eq_setWidth_of_le]
  apply Int16.toInt.inj
  rw [htruncate, Int8.toInt_toInt16, Int16.toInt_toInt8]
  apply Int.bmod_eq_of_le <;> omega

namespace Transfer

variable {pool : FrozenPool} {offset : Nat}

/-- The bytes that access a local tell its slot and its kind, if the opcodes do. -/
theorem standsIn_localBytes {compact general : UInt8} {kind : Kind}
    {access : UInt16 → Kind → Transfer}
    (hcompact : ∀ n ≤ 3, Opcode.form (compact + 4 * kind.familyIndex + UInt8.ofNat n) = .none
      ∧ ofOpcode? (compact + 4 * kind.familyIndex + UInt8.ofNat n)
        = some (access (UInt16.ofNat n) kind))
    (hform : Opcode.form (general + kind.familyIndex) = .slot)
    (htakes : Opcode.takesSlot (general + kind.familyIndex))
    (hgeneral : ∀ slot, ofSlot? (general + kind.familyIndex) slot = some (access slot kind))
    (slot : UInt16) :
  (access slot kind).StandsIn pool offset (Instruction.localBytes compact general slot kind)
  := by
  unfold Instruction.localBytes
  split
  · next hslot =>
    obtain ⟨hform, ht⟩ := hcompact slot.toNat (UInt16.le_iff_toNat_le.mp hslot)
    rw [UInt16.ofNat_toNat] at ht
    apply standsIn_of_operands hform Operands.standsIn_none ht
  split
  · next hslot =>
    apply standsIn_of_operands hform (Operands.standsIn_slot _)
    rw [of?, Bytes.toUInt16_toUInt8 (Nat.lt_succ_of_le (UInt16.le_iff_toNat_le.mp hslot))]
    apply hgeneral
  · apply standsIn_of_operands rfl (Operands.standsIn_wideSlot htakes slot)
    apply hgeneral

/-- The bytes of a load are read back as the load. -/
theorem standsIn_loadBytes (slot : UInt16) (kind : Kind) :
  (Transfer.load slot kind).StandsIn pool offset
    (Instruction.localBytes Opcode.iload0 Opcode.iload slot kind)
  := by
  apply standsIn_localBytes _ (Opcode.takes_iload kind).1.2 (Opcode.takes_iload kind).2
  · intro slot
    cases kind <;> rfl
  · cases kind <;> decide

/-- The bytes of a store are read back as the store. -/
theorem standsIn_storeBytes (slot : UInt16) (kind : Kind) :
  (Transfer.store slot kind).StandsIn pool offset
    (Instruction.localBytes Opcode.istore0 Opcode.istore slot kind)
  := by
  apply standsIn_localBytes _ (Opcode.takes_istore kind).1.2 (Opcode.takes_istore kind).2
  · intro slot
    cases kind <;> rfl
  · cases kind <;> decide

/-- The bytes of an increment are read back as the increment. -/
theorem standsIn_incrementBytes (slot : UInt16) (delta : Int16) :
  (Transfer.increment slot delta).StandsIn pool offset (Instruction.incrementBytes slot delta)
  := by
  unfold Instruction.incrementBytes
  split
  · next h =>
    apply standsIn_of_operands rfl (Operands.standsIn_increment _ _)
    have hslot : slot.toNat < 256 := Nat.lt_succ_of_le (UInt16.le_iff_toNat_le.mp h.1)
    rw [of?, Bytes.toUInt16_toUInt8 hslot, Bytes.toInt16_toInt8 h.2]
  · apply standsIn_of_operands rfl (Operands.standsIn_wideIncrement slot delta) rfl

end Transfer

/-! ### Literals -/

/-- What is pushed in a form. -/
def ConstantForm.pushed? : ConstantForm → Option Pushed
  | .opcode op => Pushed.ofOpcode? op
  | .bipush value => some (.int value.toInt8.toInt32)
  | .sipush value => some (.int value.toInt16.toInt32)
  | .pooled e wide => if wide then Pushed.ofWide? e else Pushed.ofNarrow? e

/-- An `int` that fits into one byte is kept by it. -/
theorem Bytes.toInt32_toInt8 {n : Int32} (h : -128 ≤ n.toInt ∧ n.toInt ≤ 127) :
  n.toUInt32.toUInt8.toInt8.toInt32 = n
  := by
  have htruncate : n.toUInt32.toUInt8.toInt8 = n.toInt8 := by
    apply Int8.toBitVec.inj
    simp [BitVec.signExtend_eq_setWidth_of_le]
  apply Int32.toInt.inj
  rw [htruncate, Int8.toInt_toInt32, Int32.toInt_toInt8]
  apply Int.bmod_eq_of_le <;> omega

/-- An `int` that fits into two bytes is kept by them. -/
theorem Bytes.toInt32_toInt16 {n : Int32} (h : -32768 ≤ n.toInt ∧ n.toInt ≤ 32767) :
  n.toUInt32.toUInt16.toInt16.toInt32 = n
  := by
  have htruncate : n.toUInt32.toUInt16.toInt16 = n.toInt16 := by
    apply Int16.toBitVec.inj
    simp [BitVec.signExtend_eq_setWidth_of_le]
  apply Int32.toInt.inj
  rw [htruncate, Int16.toInt_toInt32, Int32.toInt_toInt16]
  apply Int.bmod_eq_of_le <;> omega

/-- The form of a literal tells the literal. -/
theorem Constant.pushed?_form (c : Constant) :
  c.form.pushed? = some (Pushed.ofConstant c)
  := by
  cases c with
  | int value =>
      rw [form]
      split_ifs with hopcode hbyte hshort
      · rcases int_cases hopcode with rfl | rfl | rfl | rfl | rfl | rfl | rfl <;> decide
      · rw [ConstantForm.pushed?, Bytes.toInt32_toInt8 hbyte]
        rfl
      · rw [ConstantForm.pushed?, Bytes.toInt32_toInt16 hshort]
        rfl
      · rfl
  | long value =>
      rw [form]
      split_ifs with hzero hone
      · rw [hzero]
        rfl
      · rw [hone]
        rfl
      · rfl
  | float bits =>
      rw [form]
      split_ifs with hzero hone htwo
      · rw [hzero]
        rfl
      · rw [hone]
        rfl
      · rw [htwo]
        rfl
      · rfl
  | double bits =>
      rw [form]
      split_ifs with hzero hone
      · rw [hzero]
        rfl
      · rw [hone]
        rfl
      · rfl
  | string _ | classOf _ | null => rfl

/-- Exactly the literals of two slots that are loaded from the pool are wide. -/
theorem Constant.wide_iff_of_form {c : Constant} {e : PoolEntry} {wide : Bool}
    (h : c.form = .pooled e wide) :
  wide = true ↔ c.kind.slots = 2
  := by
  cases c with
  | int value | long value | float value | double value =>
      rw [form] at h
      split_ifs at h
      cases h
      simp [kind, Kind.slots]
  | string _ | classOf _ =>
      cases h
      simp [kind, Kind.slots]
  | null => contradiction

namespace Transfer

variable {pool : FrozenPool} {offset : Nat} {bytes : List UInt8}

/-- The bytes that push a literal tell the literal, if the pool has entries where it says. -/
theorem standsIn_constantBytes {c : Constant}
    (hpool : ∀ e index, pool.indexOf e = .ok index → pool.get? index = some e)
    (h : Instruction.constantBytes c pool = .ok bytes) :
  (Transfer.push (.ofConstant c)).StandsIn pool offset bytes
  := by
  have hpushed := c.pushed?_form
  rw [Instruction.constantBytes] at h
  split at h
  · next opcode hform =>
    obtain rfl := Except.ok.inj h
    rw [hform, ConstantForm.pushed?] at hpushed
    apply standsIn_of_operands (Constant.takes_of_form hform).2 Operands.standsIn_none
    rw [of?, ofOpcode?, hpushed]
    rfl
  · next value hform =>
    obtain rfl := Except.ok.inj h
    rw [hform] at hpushed
    apply standsIn_of_operands rfl (Operands.standsIn_int8 value)
    rw [← Option.some.inj hpushed]
    rfl
  · next value hform =>
    obtain rfl := Except.ok.inj h
    rw [hform] at hpushed
    apply standsIn_of_operands rfl (Operands.standsIn_int16 value.toInt16)
    rw [← Option.some.inj hpushed]
    rfl
  · next e hform =>
    obtain ⟨index, hindex, h⟩ := Except.bind_eq_ok_iff.mp h
    obtain rfl := Except.ok.inj h
    rw [hform] at hpushed
    apply standsIn_of_operands rfl (Operands.standsIn_pool16 index)
    have hget := hpool e index (Except.mapError_eq_ok_iff.mp hindex)
    change Option.map _ (pool.get? index >>= Pushed.ofWide?) = _
    rw [hget]
    apply congrArg (Option.map Transfer.push) hpushed
  · next e hform =>
    obtain ⟨index, hindex, h⟩ := Except.bind_eq_ok_iff.mp h
    have hget := hpool e index (Except.mapError_eq_ok_iff.mp hindex)
    rw [hform] at hpushed
    have hpush : (pool.get? index >>= Pushed.ofNarrow?).map Transfer.push
        = some (.push (.ofConstant c)) := by
      rw [hget]
      apply congrArg (Option.map Transfer.push) hpushed
    split at h
    · next hlt =>
      obtain rfl := Except.ok.inj h
      have hlt : index.toNat < 255 := UInt16.lt_iff_toNat_lt.mp hlt
      apply standsIn_of_operands rfl (Operands.standsIn_pool8 _)
      rw [of?, Bytes.toUInt16_toUInt8 (by omega), hpush]
    · obtain rfl := Except.ok.inj h
      apply standsIn_of_operands rfl (Operands.standsIn_pool16 index)
      apply hpush

end Transfer

namespace Instruction

variable {pool : FrozenPool} {c : Constant} {bytes : List UInt8}

/-- A literal needs an entry of the pool exactly if it is loaded from there. -/
theorem mem_poolNeeds_constant {e : PoolEntry} :
  e ∈ (Instruction.constant c).poolNeeds ↔ ∃ wide, c.form = .pooled e wide
  := by
  rw [poolNeeds]
  split
  · next entry wide hform =>
    rw [hform, List.mem_singleton]
    constructor
    · rintro rfl
      use wide
    · rintro ⟨wide', h⟩
      apply (ConstantForm.pooled.inj h).1.symm
  · next hform =>
    simp only [List.not_mem_nil, false_iff, not_exists]
    intro wide
    apply hform

/-- A literal can be pushed if the pool has what it needs. -/
theorem exists_constantBytes
    (h : ∀ e ∈ (Instruction.constant c).poolNeeds, ∃ index, pool.indexOf e = .ok index) :
  ∃ bytes, constantBytes c pool = .ok bytes
  := by
  rw [constantBytes]
  cases hform : c.form with
  | opcode | bipush | sipush => exact ⟨_, rfl⟩
  | pooled e wide =>
      obtain ⟨index, hindex⟩ := h e (mem_poolNeeds_constant.mpr ⟨wide, hform⟩)
      have hoperand : pool.operand e = .ok index := Except.mapError_eq_ok_iff.mpr hindex
      cases wide with
      | true => exact ⟨_, Except.bind_eq_ok_iff.mpr ⟨index, hoperand, rfl⟩⟩
      | false =>
          by_cases hlt : index < 255
          · exact ⟨_, Except.bind_eq_ok_iff.mpr ⟨index, hoperand, if_pos hlt⟩⟩
          · exact ⟨_, Except.bind_eq_ok_iff.mpr ⟨index, hoperand, if_neg hlt⟩⟩

/-- Exactly the literals of two slots that are loaded from the pool are loaded by `ldc2_w`. -/
theorem head?_constantBytes (h : constantBytes c pool = .ok bytes) :
  bytes.head? = some Opcode.ldc2W
    ↔ (∃ e, e ∈ (Instruction.constant c).poolNeeds) ∧ c.kind.slots = 2
  := by
  simp only [mem_poolNeeds_constant]
  rw [constantBytes] at h
  cases hform : c.form with
  | opcode op =>
      rw [hform] at h
      obtain rfl := Except.ok.inj h
      have hne : op ≠ Opcode.ldc2W := by
        rintro rfl
        have hnone := (Constant.takes_of_form hform).2
        contradiction
      simp [hne]
  | bipush value | sipush value =>
      rw [hform] at h
      obtain rfl := Except.ok.inj h
      simp +decide
  | pooled e wide =>
      rw [← Constant.wide_iff_of_form hform]
      rw [hform] at h
      cases wide with
      | true =>
          obtain ⟨index, -, h⟩ := Except.bind_eq_ok_iff.mp h
          obtain rfl := Except.ok.inj h
          simp
      | false =>
          obtain ⟨index, -, h⟩ := Except.bind_eq_ok_iff.mp h
          split at h <;> obtain rfl := Except.ok.inj h <;> simp +decide

end Instruction

/-! ### Pools -/

/-- What is encoded with the pool tells what was asked for: the literal, or the slot, the kind
and the number that is added. -/
structure FrozenPool.Tells (pool : FrozenPool) (labels : LabelTable) (offset : Nat) : Prop where
  /-- A literal can be encoded if the pool has what it needs. Two slots are loaded from the pool by
  `ldc2_w` and nothing else is, and the index of an entry is in the bytes as it is. -/
  constant : ∀ c, (∀ e ∈ (Instruction.constant c).poolNeeds, ∃ index, pool.get? index = some e) →
    ∃ bytes, (Instruction.constant c).encode labels pool offset = .ok bytes
      ∧ (Transfer.push (.ofConstant c)).StandsIn pool offset bytes
      ∧ (bytes.head? = some Opcode.ldc2W
        ↔ (∃ e, e ∈ (Instruction.constant c).poolNeeds) ∧ c.kind.slots = 2)
      ∧ ∀ e ∈ (Instruction.constant c).poolNeeds,
        ∃ index, pool.get? index = some e ∧ HasOperand bytes index
  load : ∀ slot kind, ∃ bytes, (Instruction.load slot kind).encode labels pool offset = .ok bytes
    ∧ (Transfer.load slot kind).StandsIn pool offset bytes
  store : ∀ slot kind, ∃ bytes, (Instruction.store slot kind).encode labels pool offset = .ok bytes
    ∧ (Transfer.store slot kind).StandsIn pool offset bytes
  increment : ∀ slot delta, ∃ bytes,
    (Instruction.increment slot delta).encode labels pool offset = .ok bytes
      ∧ (Transfer.increment slot delta).StandsIn pool offset bytes

/-- Whatever has been asked of a pool, what is encoded with it loses nothing of the operands. -/
theorem freeze_tells (requests : List ConstantPool.Request) (labels : LabelTable) (offset : Nat) :
  (ConstantPool.serveAll requests).freeze.Tells labels offset
  := by
  have hsound := ConstantPool.sound_serveAll requests
  have hget (e : PoolEntry) (index : UInt16) :
      (ConstantPool.serveAll requests).freeze.get? index = some e
        ↔ (ConstantPool.serveAll requests).freeze.indexOf e = .ok index :=
    hsound.get?_freeze_iff_indexOf
  constructor
  case constant =>
    intro c hneeds
    simp only [hget] at hneeds ⊢
    obtain ⟨bytes, hbytes⟩ := Instruction.exists_constantBytes hneeds
    use bytes, hbytes, Transfer.standsIn_constantBytes (fun e index => (hget e index).mpr) hbytes,
      Instruction.head?_constantBytes hbytes
    intro e he
    obtain ⟨wide, hform⟩ := Instruction.mem_poolNeeds_constant.mp he
    apply Instruction.hasOperand_of_constant hform hbytes
  case load =>
    intro slot kind
    exact ⟨_, rfl, Transfer.standsIn_loadBytes slot kind⟩
  case store =>
    intro slot kind
    exact ⟨_, rfl, Transfer.standsIn_storeBytes slot kind⟩
  case increment =>
    intro slot delta
    exact ⟨_, rfl, Transfer.standsIn_incrementBytes slot delta⟩

/-- A number too long for an opcode is loaded from the pool in both of its slots. -/
theorem freeze_tells_long :
  ∃ bytes, (Instruction.constant (.long 86400000)).encode .empty
      (ConstantPool.serveAll [.entry (.long 86400000)]).freeze 0 = .ok bytes
    ∧ (Transfer.push (.long 86400000)).StandsIn
      (ConstantPool.serveAll [.entry (.long 86400000)]).freeze 0 bytes
    ∧ bytes.head? = some Opcode.ldc2W
  := by
  have hform : (Constant.long 86400000).form = .pooled (.long 86400000) true := by decide
  have hneeds : ∀ e ∈ (Instruction.constant (.long 86400000)).poolNeeds,
      ∃ index, (ConstantPool.serveAll [.entry (.long 86400000)]).freeze.get? index = some e := by
    intro e he
    obtain ⟨wide, he⟩ := Instruction.mem_poolNeeds_constant.mp he
    obtain ⟨rfl, -⟩ := ConstantForm.pooled.inj (hform.symm.trans he)
    apply ConstantPool.exists_get?_of_request (.entry (.long 86400000))
  obtain ⟨bytes, hbytes, hstands, hhead, -⟩ :=
    (freeze_tells [.entry (.long 86400000)] .empty 0).constant (.long 86400000) hneeds
  use bytes, hbytes, hstands
  apply hhead.mpr ⟨⟨_, Instruction.mem_poolNeeds_constant.mpr ⟨true, hform⟩⟩, rfl⟩

end ClassForge
