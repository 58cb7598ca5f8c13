import ClassForge.Proofs.Assembly.Forms
import ClassForge.Proofs.Descriptor.Slots
import ClassForge.Proofs.Listing.Agreement
import ClassForge.Proofs.Stack.Depth

/-!
# Effects of opcodes

A machine changes the depth of the stack with every opcode: most by a number that is fixed, those
that access fields and call methods as the descriptor in the pool says, and the creation of an
array as its operand says. Over the opcodes that an instruction is encoded to, these changes add up
to the change of the depth by the instruction. The change that it is reckoned with is the same,
unless it is a call whose arguments take more slots than 16 bits count.
-/

namespace ClassForge

/-! ### What a machine does -/

namespace Opcode

/-- By how many slots the opcodes from zero on change the depth of the stack. It is zero for those
whose operands decide. -/
def netEffects : List Int :=
  -- constants, after the opcode that does nothing
  [0, 1, 1, 1, 1, 1, 1, 1, 1, 2, 2, 1, 1, 1, 2, 2, 1, 1, 1, 1, 2,
    -- loads
    1, 2, 1, 2, 1, 1, 1, 1, 1, 2, 2, 2, 2, 1, 1, 1, 1, 2, 2, 2, 2, 1, 1, 1, 1,
    -1, 0, -1, 0, -1, -1, -1, -1,
    -- stores
    -1, -2, -1, -2, -1, -1, -1, -1, -1, -2, -2, -2, -2, -1, -1, -1, -1, -2, -2, -2, -2,
    -1, -1, -1, -1, -3, -4, -3, -4, -3, -3, -3, -3,
    -- the stack alone
    -1, -2, 1, 1, 1, 2, 2, 2, 0,
    -- arithmetic
    -1, -2, -1, -2, -1, -2, -1, -2, -1, -2, -1, -2, -1, -2, -1, -2, -1, -2, -1, -2, 0, 0, 0, 0,
    -1, -1, -1, -1, -1, -1, -1, -2, -1, -2, -1, -2, 0,
    -- conversions and comparisons
    1, 0, 1, -1, -1, 0, 0, 1, 1, -1, 0, -1, 0, 0, 0, -3, -1, -1, -3, -3,
    -- branches, switches and returns
    -1, -1, -1, -1, -1, -1, -2, -2, -2, -2, -2, -2, -2, -2, 0, 1, 0, -1, -1,
    -1, -2, -1, -2, -1, 0,
    -- fields and calls
    0, 0, 0, 0, 0, 0, 0, 0, 0,
    -- objects, arrays and monitors
    1, 0, 0, 0, -1, 0, 0, -1, -1,
    -- wide forms, arrays of arrays, branches on null and the far jump
    0, 0, -1, -1, 0]

/-- The change of an opcode whose operands do not decide. -/
def netEffect? (opcode : UInt8) : Option Int :=
  netEffects[opcode.toNat]?

/-- The change of opcodes without operands. -/
def netEffectAll? : List UInt8 → Option Int
  | [] => some 0
  | opcode :: opcodes => do
    let effect ← netEffect? opcode
    let others ← netEffectAll? opcodes
    return effect + others

/-- The entry of the pool whose index the operands start with. -/
def entry? (pool : FrozenPool) : List UInt8 → Option PoolEntry
  | high :: low :: _ => pool.get? (Bytes.toUInt16 high low)
  | _ => none

/-- The change of an opcode that accesses a field of the type: by the slots of the value, and by the
reference to the object unless the field is static. -/
def fieldEffect (opcode : UInt8) (type : Ty) : Int :=
  (if opcode = getstatic ∨ opcode = getfield then (type.slots : Int) else -type.slots)
    - if opcode = getstatic ∨ opcode = putstatic then 0 else 1

/-- The change of an opcode that accesses the field of an entry. -/
def fieldEffect? (opcode : UInt8) : PoolEntry → Option Int
  | .fieldRef m => (Ty.ofDescriptor m.descriptor).toOption.map (fieldEffect opcode)
  | _ => none

/-- The change of an opcode that calls a method of the type: by the slots of the result and of the
arguments, and by the receiver unless the method is static. -/
def callEffect (opcode : UInt8) (type : MethodType) : Int :=
  (type.result.slots : Int) - slotsOf type.params - if opcode = invokestatic then 0 else 1

/-- The change of an opcode that calls the method of an entry. -/
def callEffect? (opcode : UInt8) : PoolEntry → Option Int
  | .methodRef m | .interfaceMethodRef m =>
    (MethodType.ofDescriptor m.descriptor).toOption.map (callEffect opcode)
  | _ => none

/-- The change of an opcode with the bytes after it. -/
def effect? (pool : FrozenPool) (opcode : UInt8) (rest : List UInt8) : Option Int :=
  match form opcode with
  | .wide => rest.head? >>= netEffect?
  | .arrays => rest[2]?.map fun dims => 1 - (dims.toNat : Int)
  | .interfaceCall => entry? pool rest >>= callEffect? opcode
  | .dynamicCall => none
  | .pool16 =>
    if getstatic ≤ opcode ∧ opcode ≤ putfield then entry? pool rest >>= fieldEffect? opcode
    else if invokevirtual ≤ opcode ∧ opcode ≤ invokestatic then
      entry? pool rest >>= callEffect? opcode
    else netEffect? opcode
  | _ => netEffect? opcode

/-- The number of bytes of the operands of an opcode that stands at `offset`, with the bytes after
it. -/
def operandLength? (offset : Nat) (opcode : UInt8) (rest : List UInt8) : Option Nat :=
  match form opcode with
  | .none => some 0
  | .int8 | .pool8 | .slot | .element => some 1
  | .int16 | .pool16 | .increment | .near => some 2
  | .arrays => some 3
  | .far | .interfaceCall | .dynamicCall => some 4
  | .wide => rest.head?.map fun widened => if widened = iinc then 5 else 3
  | .table => do
    let low ← Bytes.uint32At? rest (switchPadding offset + 4)
    let high ← Bytes.uint32At? rest (switchPadding offset + 8)
    return switchPadding offset + 12 + 4 * (Switch.span low.toInt32 high.toInt32).toNat
  | .lookup => do
    let count ← Bytes.uint32At? rest (switchPadding offset + 4)
    return switchPadding offset + 8 + 8 * count.toNat

end Opcode

/-- The sum of the changes of the opcodes in some code, which stands at `offset`. -/
def codeEffect? (pool : FrozenPool) (offset : Nat) : List UInt8 → Option Int
  | [] => some 0
  | opcode :: rest => do
    let effect ← Opcode.effect? pool opcode rest
    let length ← Opcode.operandLength? offset opcode rest
    if length ≤ rest.length then
      let others ← codeEffect? pool (offset + 1 + length) (rest.drop length)
      return effect + others
    else
      none
termination_by code => code.length
decreasing_by
  simp only [List.length_drop, List.length_cons]
  omega

section

variable {pool : FrozenPool} {offset : Nat} {opcode : UInt8} {operands : List UInt8} {effect : Int}

/-- The change of code that has one opcode. -/
theorem codeEffect?_one (heffect : Opcode.effect? pool opcode operands = some effect)
    (hlength : Opcode.operandLength? offset opcode operands = some operands.length) :
  codeEffect? pool offset (opcode :: operands) = some effect
  := by
  rw [codeEffect?, heffect, hlength]
  simp only [Option.bind_eq_bind, Option.bind_some, Nat.le_refl, if_true, List.drop_length,
    codeEffect?, Option.pure_def, Int.add_zero]

/-- Opcodes without operands have their own changes. -/
theorem codeEffect?_plain {opcodes : List UInt8}
    (h : ∀ opcode ∈ opcodes, Opcode.form opcode = .none) :
  codeEffect? pool offset opcodes = Opcode.netEffectAll? opcodes
  := by
  induction opcodes generalizing offset with
  | nil => rw [codeEffect?, Opcode.netEffectAll?]
  | cons opcode opcodes ih =>
      obtain ⟨hopcode, hopcodes⟩ := List.forall_mem_cons.mp h
      have heffect : Opcode.effect? pool opcode opcodes = Opcode.netEffect? opcode := by
        rw [Opcode.effect?, hopcode]
      have hlength : Opcode.operandLength? offset opcode opcodes = some 0 := by
        rw [Opcode.operandLength?, hopcode]
      rw [codeEffect?, heffect, hlength, Opcode.netEffectAll?]
      simp only [Option.bind_eq_bind, Option.bind_some, Nat.zero_le, if_true, List.drop_zero,
        ih hopcodes]

theorem codeEffect?_single (hform : Opcode.form opcode = .none)
    (heffect : Opcode.netEffect? opcode = some effect) :
  codeEffect? pool offset [opcode] = some effect
  := by
  apply codeEffect?_one
  · rw [Opcode.effect?, hform]
    exact heffect
  · rw [Opcode.operandLength?, hform]
    rfl

end

/-! ### Families of opcodes -/

namespace Opcode

theorem netEffect?_iload0 (kind : Kind) :
  ∀ n ≤ 3, netEffect? (iload0 + 4 * kind.familyIndex + UInt8.ofNat n) = some (kind.slots : Int)
  := by
  cases kind <;> decide

theorem netEffect?_istore0 (kind : Kind) :
  ∀ n ≤ 3, netEffect? (istore0 + 4 * kind.familyIndex + UInt8.ofNat n) = some (-kind.slots : Int)
  := by
  cases kind <;> decide

theorem netEffect?_iload (kind : Kind) :
  netEffect? (iload + kind.familyIndex) = some (kind.slots : Int)
  := by
  cases kind <;> decide

theorem netEffect?_istore (kind : Kind) :
  netEffect? (istore + kind.familyIndex) = some (-kind.slots : Int)
  := by
  cases kind <;> decide

theorem netEffect?_arith {op : ArithOp} {kind : Kind}
    (h : kind ≠ .reference ∧ ¬ (kind.isFloating ∧ op.isBitwise)) :
  netEffect? (Instruction.arithOpcode op + kind.familyIndex)
    = some (Instruction.arith op kind).effect
  := by
  revert h
  cases kind <;> cases op <;> decide

theorem netEffect?_ineg {kind : Kind} (h : kind ≠ .reference) :
  netEffect? (ineg + kind.familyIndex) = some 0
  := by
  revert h
  cases kind <;> decide

theorem netEffect?_compare {kind : Kind} (h : kind ≠ .int ∧ kind ≠ .reference)
    (nanGreater : Bool) :
  netEffect? (Instruction.compareOpcode kind nanGreater) = some (1 - 2 * kind.slots : Int)
  := by
  revert h
  cases kind <;> cases nanGreater <;> decide

theorem netEffectAll?_conversion (source target : Primitive) :
  netEffectAll? (conversionOpcodes source target)
    = some (Instruction.convert source target).effect
  := by
  cases source <;> cases target <;> decide

/-- Elements are loaded and stored with their slots. -/
theorem netEffect?_elementIndex {elem : Ty} (h : elem ≠ .void) :
  netEffect? (iaload + Instruction.elementIndex elem) = some (elem.slots - 2 : Int)
    ∧ netEffect? (iastore + Instruction.elementIndex elem) = some (-2 - elem.slots : Int)
  := by
  cases elem with
  | primitive p =>
      cases p with
      | void => contradiction
      | _ => exact ⟨rfl, rfl⟩
  | _ => exact ⟨rfl, rfl⟩

theorem netEffect?_ireturn (kind : Kind) :
  netEffect? (ireturn + kind.familyIndex) = some (-kind.slots : Int)
  := by
  cases kind <;> decide

/-- The near form of a branch changes the stack as the branch does. -/
theorem branch_netEffect? {test : BranchTest} {target : Label}
    (h : (Instruction.branch test target).Proper) :
  form (Instruction.branchOpcode test) = .near
    ∧ netEffect? (Instruction.branchOpcode test)
      = some (Instruction.branch test target).effect
  := by
  cases test with
  | always | null | nonNull => exact ⟨rfl, rfl⟩
  | zero condition => cases condition <;> exact ⟨rfl, rfl⟩
  | compare kind condition =>
      rcases h with rfl | ⟨rfl, rfl | rfl⟩
      · cases condition <;> exact ⟨rfl, rfl⟩
      · exact ⟨rfl, rfl⟩
      · exact ⟨rfl, rfl⟩

end Opcode

/-- The change of the stack by a literal in the form. -/
def ConstantForm.effect? : ConstantForm → Option Int
  | .opcode op => Opcode.netEffect? op
  | .bipush _ | .sipush _ => some 1
  | .pooled _ wide => some (if wide then 2 else 1)

/-- Every form of a literal pushes the slots of its kind. -/
theorem Constant.effect?_form (c : Constant) :
  c.form.effect? = some (c.kind.slots : Int)
  := by
  cases c with
  | int value =>
      rw [form]
      split_ifs with hrange
      · rcases Constant.int_cases hrange with rfl | rfl | rfl | rfl | rfl | rfl | rfl <;> rfl
      all_goals rfl
  | long _ | float _ | double _ =>
      rw [form]
      split_ifs <;> rfl
  | string _ | classOf _ | null => rfl

/-! ### Instructions -/

theorem Opcode.entry?_ofUInt16 (pool : FrozenPool) (index : UInt16) (rest : List UInt8) :
  entry? pool (Bytes.ofUInt16 index ++ rest) = pool.get? index
  := by
  change pool.get? (Bytes.toUInt16 _ _) = _
  rw [Bytes.toUInt16_ofUInt16]

theorem Opcode.fieldEffect?_entry (opcode : UInt8) {field : FieldRef}
    (h : field.type.IsDescribed) :
  fieldEffect? opcode field.entry = some (fieldEffect opcode field.type)
  := by
  obtain ⟨type, htype, hslots⟩ := h.slots_ofDescriptor
  rw [FieldRef.entry, fieldEffect?, htype, fieldEffect, ← hslots]
  rfl

/-- The change by a call is told by the descriptor of its method. -/
theorem Opcode.callEffect?_entry (opcode : UInt8) {method : MethodRef} (mode : InvokeMode)
    (h : method.type.IsDescribed) :
  callEffect? opcode (method.entry mode) = some (callEffect opcode method.type)
  := by
  obtain ⟨type, htype, hargs, hresult⟩ := h.slots_ofDescriptor
  have hcall : (MethodType.ofDescriptor method.type.descriptor).toOption.map (callEffect opcode)
      = some (callEffect opcode method.type) := by
    rw [htype, callEffect, ← hargs, ← hresult]
    rfl
  cases mode <;> exact hcall

/-- The length of the operands of a table is told by its bounds. -/
theorem Opcode.operandLength?_tableswitch {offset : Nat} {rest : List UInt8} (low high : Int32)
    (hlow : Bytes.uint32At? rest (switchPadding offset + 4) = some low.toUInt32)
    (hhigh : Bytes.uint32At? rest (switchPadding offset + 8) = some high.toUInt32) :
  operandLength? offset tableswitch rest
    = some (switchPadding offset + 12 + 4 * (Switch.span low high).toNat)
  := by
  have hform : form tableswitch = .table := rfl
  rw [operandLength?, hform]
  simp only [hlow, hhigh, Option.bind_eq_bind, Option.bind_some, Option.pure_def,
    Int32.toInt32_toUInt32]

theorem Opcode.operandLength?_lookupswitch {offset : Nat} {rest : List UInt8} (count : UInt32)
    (hcount : Bytes.uint32At? rest (switchPadding offset + 4) = some count) :
  operandLength? offset lookupswitch rest = some (switchPadding offset + 8 + 8 * count.toNat)
  := by
  have hform : form lookupswitch = .lookup := rfl
  rw [operandLength?, hform]
  simp only [hcount, Option.bind_eq_bind, Option.bind_some, Option.pure_def]

/-- The number of cases of a lookup fits into the operand that counts them: a lookup is chosen only
if it is shorter than a table, which has 2^32 keys at most. -/
theorem Switch.length_lt_of_formFor {cases : List (Int32 × Label)}
    (h : formFor cases = .lookup) :
  cases.length < 4294967296
  := by
  cases hfirst : cases.head? with
  | none =>
      rw [List.head?_eq_none_iff.mp hfirst]
      decide
  | some first =>
      cases hlast : cases.getLast? with
      | none =>
          rw [List.getLast?_eq_none_iff.mp hlast]
          decide
      | some last =>
          rw [formFor, hfirst, hlast] at h
          dsimp only at h
          split_ifs at h with hspan
          have hlow := first.1.le_toInt
          have hhigh := last.1.toInt_lt
          unfold span at hspan
          omega

namespace Instruction

variable {labels : LabelTable} {pool : FrozenPool} {offset : Nat} {bytes : List UInt8}
  {effect : Int}

/-- An access to a local has the same change in each of its three forms. The widened opcode takes a
slot, so it is not the one that also takes a number to add. -/
theorem codeEffect?_localBytes {compact general : UInt8} {kind : Kind}
    (hcompact : ∀ n ≤ 3, Opcode.Takes (compact + 4 * kind.familyIndex + UInt8.ofNat n) .none)
    (heffect : ∀ n ≤ 3,
      Opcode.netEffect? (compact + 4 * kind.familyIndex + UInt8.ofNat n) = some effect)
    (hgeneral : Opcode.Takes (general + kind.familyIndex) .slot
      ∧ Opcode.takesSlot (general + kind.familyIndex))
    (heffect' : Opcode.netEffect? (general + kind.familyIndex) = some effect) (slot : UInt16) :
  codeEffect? pool offset (localBytes compact general slot kind) = some effect
  := by
  unfold localBytes
  split
  · next hslot =>
    have hslot : slot.toNat ≤ 3 := UInt16.le_iff_toNat_le.mp hslot
    exact codeEffect?_single (hcompact _ hslot).2 (heffect _ hslot)
  split
  · apply codeEffect?_one
    · rw [Opcode.effect?, hgeneral.1.2]
      exact heffect'
    · rw [Opcode.operandLength?, hgeneral.1.2]
      rfl
  · have hne : general + kind.familyIndex ≠ Opcode.iinc := by
      intro h
      rw [h] at hgeneral
      exact absurd hgeneral.2 (by decide)
    apply codeEffect?_one
    · exact heffect'
    · change some (if _ then 5 else 3) = _
      rw [if_neg hne]
      rfl

theorem codeEffect?_incrementBytes (slot : UInt16) (delta : Int16) :
  codeEffect? pool offset (incrementBytes slot delta) = some 0
  := by
  unfold incrementBytes
  split <;> exact codeEffect?_one rfl rfl

/-- A literal pushes the slots of its kind. -/
theorem codeEffect?_constantBytes {c : Constant} (h : constantBytes c pool = .ok bytes) :
  codeEffect? pool offset bytes = some (c.kind.slots : Int)
  := by
  have heffect := c.effect?_form
  unfold constantBytes at h
  split at h
  · next opcode hform =>
    obtain rfl := Except.ok.inj h
    rw [hform] at heffect
    exact codeEffect?_single (Constant.takes_of_form hform).2 heffect
  all_goals
    rename_i hform
    rw [hform] at heffect
    rw [← heffect]
  · obtain rfl := Except.ok.inj h
    exact codeEffect?_one rfl rfl
  · obtain rfl := Except.ok.inj h
    exact codeEffect?_one rfl rfl
  · obtain ⟨index, -, h⟩ := Except.bind_eq_ok_iff.mp h
    obtain rfl := Except.ok.inj h
    exact codeEffect?_one rfl rfl
  · obtain ⟨index, -, h⟩ := Except.bind_eq_ok_iff.mp h
    split at h
    · obtain rfl := Except.ok.inj h
      exact codeEffect?_one rfl rfl
    · obtain rfl := Except.ok.inj h
      exact codeEffect?_one rfl rfl

/-- A branch changes the depth as its opcode does, in the near form and in the far one. -/
theorem codeEffect?_branchBytes {test : BranchTest} {target : Label}
    (hproper : (Instruction.branch test target).Proper)
    (h : branchBytes test target offset labels = .ok bytes) :
  codeEffect? pool offset bytes = some (Instruction.branch test target).effect
  := by
  obtain ⟨hform, heffect⟩ := Opcode.branch_netEffect? hproper
  obtain ⟨place, -, h⟩ := Except.bind_eq_ok_iff.mp h
  dsimp only at h
  split_ifs at h with hnear halways
  · obtain rfl := Except.ok.inj h
    apply codeEffect?_one
    · rw [Opcode.effect?, hform]
      exact heffect
    · rw [Opcode.operandLength?, hform]
      rfl
  · obtain rfl := Except.ok.inj h
    subst halways
    exact codeEffect?_one rfl rfl

/-- A switch takes its key. The lengths that its operands tell are those of its bytes, so nothing
else is read as an opcode. -/
theorem codeEffect?_switchBytes {s : Switch} (hform : s.form = Switch.formFor s.cases)
    (h : switchBytes s offset labels = .ok bytes) :
  codeEffect? pool offset bytes = some (-1)
  := by
  have hlength := length_switchBytes h
  unfold switchLength at hlength
  cases hs : s.form with
  | table low high =>
      obtain ⟨fallback, targets, hfallback, -, rfl⟩ := switchBytes_table hs h
      simp only [hs, switchHead, List.cons_append, List.length_cons] at hlength ⊢
      apply codeEffect?_one rfl
      rw [Opcode.operandLength?_tableswitch low high]
      · congr 1
        omega
      · apply Bytes.uint32At?_of_eq (List.replicate (switchPadding offset) 0 ++ fallback)
          (Bytes.ofUInt32 high.toUInt32 ++ targets.flatten)
        · simp
        · simp [hfallback.length]
      · apply Bytes.uint32At?_of_eq (List.replicate (switchPadding offset) 0 ++ fallback
          ++ Bytes.ofUInt32 low.toUInt32) targets.flatten
        · simp
        · simp [hfallback.length, Bytes.ofUInt32]
  | lookup =>
      obtain ⟨fallback, pairs, hfallback, -, rfl⟩ := switchBytes_lookup hs h
      simp only [hs, switchHead, List.cons_append, List.length_cons] at hlength ⊢
      have hcount : (UInt32.ofNat s.cases.length).toNat = s.cases.length :=
        UInt32.toNat_ofNat_of_lt' (Switch.length_lt_of_formFor (hform.symm.trans hs))
      apply codeEffect?_one rfl
      rw [Opcode.operandLength?_lookupswitch (UInt32.ofNat s.cases.length), hcount]
      · congr 1
        omega
      · apply Bytes.uint32At?_of_eq (List.replicate (switchPadding offset) 0 ++ fallback)
          pairs.flatten
        · simp
        · simp [hfallback.length]

/-- The change by an opcode with the index of an entry. -/
theorem codeEffect?_indexed {opcode : UInt8} {e : PoolEntry}
    (hform : Opcode.form opcode = .pool16)
    (heffect : ∀ index, pool.indexOf e = .ok index →
      Opcode.effect? pool opcode (Bytes.ofUInt16 index) = some effect)
    (h : indexed opcode pool e = .ok bytes) :
  codeEffect? pool offset bytes = some effect
  := by
  obtain ⟨index, hindex, rfl⟩ := indexed_eq_ok h
  apply codeEffect?_one (heffect index hindex)
  rw [Opcode.operandLength?, hform]
  rfl

theorem codeEffect?_newArrayBytes {elem : Ty} (h : newArrayBytes elem pool = .ok bytes) :
  codeEffect? pool offset bytes = some 0
  := by
  unfold newArrayBytes at h
  split at h
  · obtain rfl := Except.ok.inj h
    exact codeEffect?_one rfl rfl
  · exact codeEffect?_indexed rfl (fun _ _ => rfl) h

theorem codeEffect?_newArraysBytes {type : Ty} {dims : UInt8}
    (h : (Instruction.newArrays type dims).encode labels pool offset = .ok bytes) :
  codeEffect? pool offset bytes = some (1 - (dims.toNat : Int))
  := by
  obtain ⟨bytes', hbytes, h⟩ := Except.bind_eq_ok_iff.mp h
  obtain rfl := Except.ok.inj h
  obtain ⟨index, -, rfl⟩ := indexed_eq_ok hbytes
  exact codeEffect?_one rfl rfl

/-- The change by an access to a field is that of the type in its descriptor. -/
theorem codeEffect?_field {opcode : UInt8} {field : FieldRef}
    (hpool : ∀ e index, pool.indexOf e = .ok index → pool.get? index = some e)
    (hform : Opcode.form opcode = .pool16)
    (heffect : ∀ rest,
      Opcode.effect? pool opcode rest = Opcode.entry? pool rest >>= Opcode.fieldEffect? opcode)
    (htype : field.type.IsDescribed) (h : indexed opcode pool field.entry = .ok bytes) :
  codeEffect? pool offset bytes = some (Opcode.fieldEffect opcode field.type)
  := by
  apply codeEffect?_indexed hform _ h
  intro index hindex
  rw [heffect, ← List.append_nil (Bytes.ofUInt16 index), Opcode.entry?_ofUInt16,
    hpool _ _ hindex]
  exact Opcode.fieldEffect?_entry opcode htype

/-- The change by a call is that of the type in the descriptor of the method. -/
theorem codeEffect?_invokeBytes {method : MethodRef} {mode : InvokeMode}
    (hpool : ∀ e index, pool.indexOf e = .ok index → pool.get? index = some e)
    (htype : method.type.IsDescribed) (h : invokeBytes method mode pool = .ok bytes) :
  codeEffect? pool offset bytes = some (Opcode.callEffect (invokeOpcode mode) method.type)
  := by
  have hform := (Opcode.takes_invoke mode).2
  obtain ⟨bytes', hbytes, h⟩ := Except.bind_eq_ok_iff.mp h
  obtain ⟨index, hindex, rfl⟩ := indexed_eq_ok hbytes
  have heffect (rest : List UInt8) :
      Opcode.effect? pool (invokeOpcode mode) (Bytes.ofUInt16 index ++ rest)
        = some (Opcode.callEffect (invokeOpcode mode) method.type) := by
    have hcall : Opcode.effect? pool (invokeOpcode mode) (Bytes.ofUInt16 index ++ rest)
        = Opcode.entry? pool (Bytes.ofUInt16 index ++ rest)
          >>= Opcode.callEffect? (invokeOpcode mode) := by
      cases mode <;> rfl
    rw [hcall, Opcode.entry?_ofUInt16, hpool _ _ hindex]
    exact Opcode.callEffect?_entry _ mode htype
  split at h
  · next hmode =>
    obtain rfl := Except.ok.inj h
    rw [if_neg hmode] at hform
    apply codeEffect?_one (heffect [])
    rw [Opcode.operandLength?, hform]
    rfl
  · next hmode =>
    rw [if_pos (not_not.mp hmode)] at hform
    dsimp only at h
    split at h
    · obtain rfl := Except.ok.inj h
      apply codeEffect?_one (heffect _)
      rw [Opcode.operandLength?, hform]
      rfl
    · contradiction

end Instruction

/-! ### All instructions -/

/-- The elements, fields, arguments and results that the instruction is for are described. -/
def Instruction.Described : Instruction → Prop
  | .arrayLoad elem | .arrayStore elem => elem ≠ .void
  | .getField field _ | .putField field _ => field.type.IsDescribed
  | .invoke method _ => method.type.IsDescribed
  | _ => True

/-- The change by a store to a field is that of its opcode. -/
theorem Instruction.effect_putField (field : FieldRef) (isStatic : Bool) :
  (Instruction.putField field isStatic).effect
    = Opcode.fieldEffect (if isStatic then Opcode.putstatic else Opcode.putfield) field.type
  := by
  cases isStatic with
  | false =>
      change (0 : Int) - (field.type.slots + 1 : Nat) = -field.type.slots - 1
      omega
  | true =>
      change (0 : Int) - (field.type.slots + 0 : Nat) = -field.type.slots - 0
      omega

/-- The change by a call is that of its opcode. -/
theorem Instruction.effect_invoke (method : MethodRef) (mode : InvokeMode) :
  (Instruction.invoke method mode).effect = Opcode.callEffect (invokeOpcode mode) method.type
  := by
  have hstatic : invokeOpcode mode = Opcode.invokestatic ↔ mode = .static := by
    cases mode <;> decide
  simp only [effect, pushes, pops, Opcode.callEffect, hstatic]
  split <;> omega

/-- With a pool that tells what is at the indices that it gives, the opcodes that an instruction is
encoded to change the depth of the stack as the instruction does. -/
theorem Instruction.codeEffect?_encode {i : Instruction} {pool : FrozenPool}
    (hpool : ∀ e index, pool.indexOf e = .ok index → pool.get? index = some e) (hproper : i.Proper)
    (hdescribed : i.Described) {labels : LabelTable} {offset : Nat} {bytes : List UInt8}
    (h : i.encode labels pool offset = .ok bytes) :
  codeEffect? pool offset bytes = some i.effect
  := by
  cases i with
  | label l =>
      obtain rfl := Except.ok.inj h
      rw [codeEffect?]
      rfl
  | load slot kind =>
      obtain rfl := Except.ok.inj h
      exact codeEffect?_localBytes (Opcode.takes_iload0 kind)
        (Opcode.netEffect?_iload0 kind) (Opcode.takes_iload kind) (Opcode.netEffect?_iload kind)
        slot
  | store slot kind =>
      obtain rfl := Except.ok.inj h
      have heffect : (Instruction.store slot kind).effect = -kind.slots := Int.zero_sub _
      rw [heffect]
      exact codeEffect?_localBytes (Opcode.takes_istore0 kind)
        (Opcode.netEffect?_istore0 kind) (Opcode.takes_istore kind) (Opcode.netEffect?_istore kind)
        slot
  | increment slot delta =>
      obtain rfl := Except.ok.inj h
      exact codeEffect?_incrementBytes slot delta
  | constant c => exact codeEffect?_constantBytes h
  | arith op kind =>
      obtain rfl := Except.ok.inj h
      exact codeEffect?_single (Opcode.takes_arith hproper).2 (Opcode.netEffect?_arith hproper)
  | neg kind =>
      obtain rfl := Except.ok.inj h
      have heffect : (Instruction.neg kind).effect = 0 := Int.sub_self _
      rw [heffect]
      exact codeEffect?_single (Opcode.takes_ineg kind).2 (Opcode.netEffect?_ineg hproper)
  | convert source target =>
      obtain rfl := Except.ok.inj h
      rw [codeEffect?_plain fun opcode hopcode =>
        (Opcode.takes_conversion source target opcode hopcode).2]
      exact Opcode.netEffectAll?_conversion source target
  | compare kind nanGreater =>
      obtain rfl := Except.ok.inj h
      exact codeEffect?_single (Opcode.takes_compare kind nanGreater).2
        (Opcode.netEffect?_compare hproper nanGreater)
  | branch test target => exact codeEffect?_branchBytes hproper h
  | switch s =>
      obtain ⟨fallback, cases, hs⟩ := hproper
      obtain ⟨-, -, -, hform⟩ := Switch.ofCases_eq_ok hs
      exact codeEffect?_switchBytes hform h
  | dup slots =>
      obtain rfl := Except.ok.inj h
      rcases hproper with rfl | rfl <;> exact codeEffect?_single rfl rfl
  | pop slots =>
      obtain rfl := Except.ok.inj h
      rcases hproper with rfl | rfl <;> exact codeEffect?_single rfl rfl
  | newArray elem => exact codeEffect?_newArrayBytes h
  | newArrays type dims => exact codeEffect?_newArraysBytes h
  | arrayLoad elem =>
      obtain rfl := Except.ok.inj h
      exact codeEffect?_single (Opcode.takes_elementIndex elem).1.2
        (Opcode.netEffect?_elementIndex hdescribed).1
  | arrayStore elem =>
      obtain rfl := Except.ok.inj h
      have heffect : (Instruction.arrayStore elem).effect = -2 - elem.slots := by
        simp only [effect, pushes, pops]
        omega
      rw [heffect]
      exact codeEffect?_single (Opcode.takes_elementIndex elem).2.2
        (Opcode.netEffect?_elementIndex hdescribed).2
  | new type | checkCast type | instanceOf type =>
      exact codeEffect?_indexed rfl (fun _ _ => rfl) h
  | getField field isStatic =>
      cases isStatic <;>
        exact codeEffect?_field hpool rfl (fun _ => rfl) hdescribed h
  | putField field isStatic =>
      rw [effect_putField]
      cases isStatic <;>
        exact codeEffect?_field hpool rfl (fun _ => rfl) hdescribed h
  | invoke method mode => rw [codeEffect?_invokeBytes hpool hdescribed h, effect_invoke]
  | ret kind =>
      cases kind with
      | none =>
          obtain rfl := Except.ok.inj h
          exact codeEffect?_single rfl rfl
      | some kind =>
          obtain rfl := Except.ok.inj h
          have heffect : (Instruction.ret (some kind)).effect = -kind.slots := Int.zero_sub _
          rw [heffect]
          exact codeEffect?_single (Opcode.takes_ireturn kind).2 (Opcode.netEffect?_ireturn kind)
  | arrayLength | throw | monitorEnter | monitorExit | nop =>
      obtain rfl := Except.ok.inj h
      exact codeEffect?_single rfl rfl

/-- Whatever has been asked of a pool, the opcodes that an instruction is encoded to with it change
the depth of the stack as the instruction does. It has been reckoned with 65536 slots more for
every 65536 slots of arguments, and so with this change exactly if 16 bits count the slots of its
arguments. -/
theorem codeEffect_encode {i : Instruction} (hmade : i.Made) (hdescribed : i.Described)
    (requests : List ConstantPool.Request) {labels : LabelTable} {offset : Nat}
    {bytes : List UInt8}
    (h : i.encode labels (ConstantPool.serveAll requests).freeze offset = .ok bytes) :
  codeEffect? (ConstantPool.serveAll requests).freeze offset bytes = some i.effect
    ∧ i.stackDiff = i.effect + 65536 * (i.arguments / 65536 : Nat)
    ∧ (codeEffect? (ConstantPool.serveAll requests).freeze offset bytes = some i.stackDiff
      ↔ i.arguments < 65536)
  := by
  have hsound := ConstantPool.sound_serveAll requests
  have heffect := Instruction.codeEffect?_encode
    (fun _ _ hindex => hsound.get?_freeze_iff_indexOf.mpr hindex) hmade.proper hdescribed h
  have hdiff := i.stackDiff_eq
  refine ⟨heffect, hdiff, ?_⟩
  rw [heffect, Option.some.injEq, hdiff]
  omega

/-- A call is encoded with the pool that was asked for its method, unless it is a call through an
interface with more slots than its operand counts. -/
theorem Instruction.exists_encode_invoke (method : MethodRef) (mode : InvokeMode)
    (hcounted : mode = .interface → method.type.argSlots + 1 ≤ 255) :
  ∃ bytes, (Instruction.invoke method mode).encode .empty
    (ConstantPool.serveAll [.entry (method.entry mode)]).freeze 0 = .ok bytes
  := by
  obtain ⟨index, hindex⟩ := ConstantPool.exists_get?_of_request (.entry (method.entry mode))
  rw [(ConstantPool.sound_serveAll _).get?_freeze_iff_indexOf, ConstantPool.Request.wanted]
    at hindex
  rw [encode, invokeBytes, indexed, FrozenPool.operand, hindex]
  change ∃ bytes, (if mode ≠ .interface then _ else if method.type.argSlots + 1 ≤ 255 then _ else _)
    = Except.ok bytes
  by_cases hmode : mode = .interface
  · rw [if_neg (not_not.mpr hmode), if_pos (hcounted hmode)]
    exact ⟨_, rfl⟩
  · rw [if_pos hmode]
    exact ⟨_, rfl⟩

/-- The method of an interface that takes arguments of four slots. -/
def weigh : MethodRef :=
  ⟨.object ⟨["pkg"], ["Scale"]⟩ [], "weigh",
    ⟨[.primitive .long, .array .int, .object .string []], .primitive .double⟩⟩

/-- The types of the method are described. -/
theorem isDescribed_weigh :
  weigh.type.IsDescribed
  := by
  constructor
  · intro t ht
    obtain rfl | rfl | rfl : t = .primitive .long ∨ t = .array .int ∨ t = .object .string [] := by
      simpa [weigh] using ht
    · exact .primitive (by decide)
    · exact .array (.primitive (by decide))
    · exact .object (by decide) (by decide)
  · right
    exact .primitive (by decide)

/-- The static method that takes so many arguments of two slots each. -/
def bulk (count : Nat) : MethodRef :=
  ⟨.object ⟨[], ["A"]⟩ [], "m", ⟨List.replicate count (.primitive .long), .void⟩⟩

theorem made_bulk (count : Nat) :
  (Instruction.invoke (bulk count) .static).Made
  := by
  have hmade := Instruction.Made.invoke (bulk count).owner "m" (bulk count).type .static
  rw [Checked.invoke, MethodType.erasure, bulk, List.map_replicate] at hmade
  exact hmade

/-- The types of the method are described, however many there are. -/
theorem isDescribed_bulk (count : Nat) :
  (bulk count).type.IsDescribed
  := by
  constructor
  · intro t ht
    obtain rfl := List.eq_of_mem_replicate ht
    exact .primitive (by decide)
  · left
    rfl

/-- The arguments take two slots each. -/
theorem slotsOf_bulk (count : Nat) :
  slotsOf (bulk count).type.params = count * 2
  := slotsOf_replicate count (.primitive .long)

theorem effect_bulk (count : Nat) :
  (Instruction.invoke (bulk count) .static).effect = -(count * 2 : Nat)
  := by
  rw [Instruction.effect, Instruction.pops, slotsOf_bulk]
  exact Int.zero_sub _

/-- A call through an interface takes the receiver and four slots, and leaves two. A call with
32768 arguments of two slots takes 65536 slots, and has been reckoned with none. -/
theorem codeEffect_encode_calls :
  (∃ bytes, (Instruction.invoke weigh .interface).encode .empty
      (ConstantPool.serveAll [.entry (weigh.entry .interface)]).freeze 0 = .ok bytes
    ∧ codeEffect? (ConstantPool.serveAll [.entry (weigh.entry .interface)]).freeze 0 bytes
      = some (-3)
    ∧ (Instruction.invoke weigh .interface).stackDiff = -3)
  ∧ ∃ bytes, (Instruction.invoke (bulk 32768) .static).encode .empty
      (ConstantPool.serveAll [.entry ((bulk 32768).entry .static)]).freeze 0 = .ok bytes
    ∧ codeEffect? (ConstantPool.serveAll [.entry ((bulk 32768).entry .static)]).freeze 0 bytes
      = some (-65536)
    ∧ (Instruction.invoke (bulk 32768) .static).stackDiff = 0
  := by
  constructor
  · obtain ⟨bytes, hbytes⟩ :=
      Instruction.exists_encode_invoke weigh .interface fun _ => by decide
    have hmade : (Instruction.invoke weigh .interface).Made :=
      .invoke weigh.owner weigh.name weigh.type .interface
    obtain ⟨heffect, hdiff, -⟩ := codeEffect_encode hmade isDescribed_weigh _ hbytes
    exact ⟨bytes, hbytes, heffect, hdiff⟩
  · obtain ⟨bytes, hbytes⟩ :=
      Instruction.exists_encode_invoke (bulk 32768) .static fun h => by contradiction
    obtain ⟨heffect, hdiff, -⟩ :=
      codeEffect_encode (made_bulk 32768) (isDescribed_bulk 32768) _ hbytes
    rw [Instruction.arguments, slotsOf_bulk, effect_bulk] at hdiff
    rw [effect_bulk] at heffect
    exact ⟨bytes, hbytes, heffect, hdiff⟩

end ClassForge
