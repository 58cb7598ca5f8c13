import ClassForge.Proofs.Assembly.Limits
import ClassForge.Proofs.Linking.Code
import ClassForge.Proofs.Linking.Pool
import ClassForge.Proofs.Switch

/-!
# Assembly of linked code

Linked code whose entries are in the pool can be assembled exactly if it is within the limits
of the format. Every instruction but a branch takes as many bytes as layout has reserved for it.
-/

namespace ClassForge

variable {pool : FrozenPool} {labels : LabelTable} {offset : Nat} {i : Instruction}

/-! ### Entries -/

/-- An entry of the pool has an index to be encoded. -/
theorem FrozenPool.exists_operand {e : PoolEntry} (h : e ∈ pool.indices) :
  ∃ index, pool.operand e = .ok index
  := by
  obtain ⟨index, hindex⟩ := FrozenPool.exists_indexOf h
  use index
  rw [FrozenPool.operand, hindex]
  rfl

theorem exists_indexed (opcode : UInt8) {e : PoolEntry} (h : e ∈ pool.indices) :
  ∃ index, Instruction.indexed opcode pool e = .ok (opcode :: Bytes.ofUInt16 index)
  := by
  obtain ⟨index, hindex⟩ := FrozenPool.exists_operand h
  use index
  rw [Instruction.indexed, hindex]
  rfl

/-! ### Sizes -/

/-- The instruction is encoded to as many bytes as are reserved for it. -/
def Instruction.Fits (pool : FrozenPool) (labels : LabelTable) (offset : Nat) (i : Instruction) :
    Prop :=
  ∃ bytes, i.encode labels pool offset = .ok bytes ∧ i.size pool offset = .ok bytes.length

/-- A literal takes the same form whenever it is looked at. -/
theorem constant_fits {c : Constant}
    (hneeds : ∀ e ∈ (Instruction.constant c).poolNeeds, e ∈ pool.indices) :
  (Instruction.constant c).Fits pool labels offset
  := by
  simp only [Instruction.Fits, Instruction.encode, Instruction.size, Instruction.constantBytes,
    Instruction.constantSize]
  simp only [Instruction.poolNeeds] at hneeds
  cases hform : c.form with
  | pooled entry wide =>
      rw [hform] at hneeds
      obtain ⟨index, hindex⟩ := FrozenPool.exists_operand (hneeds entry List.mem_cons_self)
      cases wide with
      | true =>
          simp only [hindex]
          exact ⟨_, rfl, rfl⟩
      | false =>
          simp only [hindex]
          change ∃ bytes : List UInt8,
            (if index < 255 then Except.ok _ else Except.ok _) = Except.ok bytes
            ∧ Except.ok (if index < 255 then 2 else 3) = Except.ok bytes.length
          split <;> exact ⟨_, rfl, rfl⟩
  | _ => exact ⟨_, rfl, rfl⟩

theorem indexed_fits {opcode : UInt8} {e : PoolEntry} (hneeds : e ∈ pool.indices)
    (hencode : i.encode labels pool offset = Instruction.indexed opcode pool e)
    (hsize : i.size pool offset = .ok 3) :
  i.Fits pool labels offset
  := by
  obtain ⟨index, hindex⟩ := exists_indexed opcode hneeds
  use opcode :: Bytes.ofUInt16 index, hencode.trans hindex
  apply hsize

/-- Of a type with values an array can be created, by its code or by its class. -/
theorem newArray_fits {elem : Ty} (hvalue : elem.isValueless = false)
    (hneeds : ∀ e ∈ (Instruction.newArray elem).poolNeeds, e ∈ pool.indices) :
  (Instruction.newArray elem).Fits pool labels offset
  := by
  have hreference : elem.isReference = true → elem.primitive? = none →
      (Instruction.newArray elem).Fits pool labels offset := by
    intro hreference hprimitive
    have hneed : PoolEntry.ofClass elem ∈ pool.indices := by
      apply hneeds
      simp [Instruction.poolNeeds, hreference]
    apply indexed_fits hneed
    · rw [Instruction.encode, Instruction.newArrayBytes, hprimitive]
      rfl
    · rw [Instruction.size, hreference]
      rfl
  cases elem with
  | primitive p =>
      cases p with
      | void => contradiction
      | _ => exact ⟨_, rfl, rfl⟩
  | function params result => contradiction
  | _ => apply hreference rfl rfl

/-- Of a type without values no array can be created in the space that is reserved for it. -/
theorem isValueless_of_newArray {elem : Ty} {bytes : List UInt8}
    (hencode : (Instruction.newArray elem).encode labels pool offset = .ok bytes)
    (hsize : (Instruction.newArray elem).size pool offset = .ok (wrap32 bytes.length)) :
  elem.isValueless = false
  := by
  have hnone : elem.primitive? >>= Primitive.arrayCode? = none → elem.isReference = false →
      False := by
    intro hnone hreference
    rw [Instruction.encode, Instruction.newArrayBytes, hnone] at hencode
    rw [Instruction.size, hreference, length_indexed hencode] at hsize
    have hlength : 2 = 3 := Except.ok.inj hsize
    contradiction
  cases elem with
  | primitive p =>
      cases p with
      | void => exact (hnone rfl rfl).elim
      | _ => rfl
  | function params result => exact (hnone rfl rfl).elim
  | _ => rfl

/-- A switch whose targets have offsets can be encoded. -/
theorem exists_switchBytes {s : Switch}
    (htargets : ∀ l ∈ (Instruction.switch s).targets, ∃ place, labels.resolve l = .ok place) :
  ∃ bytes, Instruction.switchBytes s offset labels = .ok bytes
  := by
  have hdistance : ∀ l ∈ (Instruction.switch s).targets, ∃ bytes,
      (do return distanceBytes ((← labels.resolve l) - offset) : Except EncodeError _)
        = .ok bytes := by
    intro l hl
    obtain ⟨place, hplace⟩ := htargets l hl
    rw [hplace]
    exact ⟨_, rfl⟩
  obtain ⟨fallback, hfallback⟩ := hdistance s.fallback List.mem_cons_self
  cases hform : s.form with
  | table low high =>
      have hkeys (key : Int32) (_ : key ∈ Instruction.tableKeys low high) :=
        hdistance (s.target key) (Switch.getD_lookup_mem s.cases s.fallback key)
      obtain ⟨targets, htargets⟩ := Except.exists_mapM_eq_ok hkeys
      apply Except.exists_bind_eq_ok hfallback
      simp only [hform]
      exact Except.exists_bind_eq_ok htargets ⟨_, rfl⟩
  | lookup =>
      have hcases : ∀ c ∈ s.cases, ∃ pair, (do
          return Bytes.ofUInt32 c.1.toUInt32 ++ (← (do
            return distanceBytes ((← labels.resolve c.2) - offset))) : Except EncodeError _)
          = .ok pair := by
        intro c hc
        obtain ⟨distance, hc⟩ := hdistance c.2 (List.mem_cons_of_mem _ (List.mem_map_of_mem hc))
        rw [hc]
        exact ⟨_, rfl⟩
      obtain ⟨pairs, hpairs⟩ := Except.exists_mapM_eq_ok hcases
      apply Except.exists_bind_eq_ok hfallback
      simp only [hform]
      exact Except.exists_bind_eq_ok hpairs ⟨_, rfl⟩

/-! ### Instructions -/

/-- Where nothing is missing, what layout reserves for an instruction is known. -/
theorem exists_size (offset : Nat) (hneeds : ∀ e ∈ i.poolNeeds, e ∈ pool.indices) :
  ∃ size, i.size pool offset = .ok size
  := by
  cases i with
  | constant c =>
      obtain ⟨bytes, -, hsize⟩ := @constant_fits pool .empty offset c hneeds
      use bytes.length
  | _ => exact ⟨_, rfl⟩

variable {P : EncodeError → Prop}

/-- Bytes are accepted in as much space as 32 bits hold of their length. -/
theorem FailsOnly.encodeBetween {bytes : List UInt8} (hoffset : offset ≤ 65535)
    (hencode : i.encode labels pool offset = .ok bytes) :
  FailsOnly P (encodeBetween labels pool offset (wrap32 (offset + wrap32 bytes.length)) i)
  := by
  have hlength : wrap32 bytes.length
      = wrap32 (4294967296 + wrap32 (offset + wrap32 bytes.length) - offset) := by
    unfold wrap32
    omega
  have hbetween : ClassForge.encodeBetween labels pool offset
      (wrap32 (offset + wrap32 bytes.length)) i = .ok bytes := by
    rw [ClassForge.encodeBetween, hencode]
    apply if_pos hlength
  apply FailsOnly.of_eq_ok hbetween

/-- An instruction that fits is encoded in the space that is reserved for it. -/
theorem Instruction.Fits.failsOnly {size : Nat} (h : i.Fits pool labels offset)
    (hoffset : offset ≤ 65535) (hsize : i.size pool offset = .ok size) :
  FailsOnly P (encodeBetween labels pool offset (wrap32 (offset + size)) i)
  := by
  obtain ⟨bytes, hbytes, hlength⟩ := h
  have hwrap : wrap32 bytes.length = size := by
    obtain rfl := Except.ok.inj (hsize.symm.trans hlength)
    apply Nat.mod_eq_of_lt (Instruction.size_lt_wrap hsize)
  rw [← hwrap]
  apply FailsOnly.encodeBetween hoffset hbytes

/-- A switch whose targets have offsets is encoded in the space that is reserved for it. -/
theorem switch_failsOnly {s : Switch} {size : Nat} (hoffset : offset ≤ 65535)
    (htargets : ∀ l ∈ (Instruction.switch s).targets, ∃ place, labels.resolve l = .ok place)
    (hsize : (Instruction.switch s).size pool offset = .ok size) :
  FailsOnly P (encodeBetween labels pool offset (wrap32 (offset + size)) (.switch s))
  := by
  obtain ⟨bytes, hbytes⟩ : ∃ bytes, Instruction.switchBytes s offset labels = .ok bytes :=
    exists_switchBytes htargets
  obtain rfl := Except.ok.inj hsize
  rw [← length_switchBytes hbytes]
  exact FailsOnly.encodeBetween hoffset (i := .switch s) hbytes

/-- What an instruction at `offset` is refused for. -/
inductive Instruction.Exceeds (labels : LabelTable) (offset : Nat) :
    Instruction → EncodeError → Prop
  | outOfRange {test target place distance} (hplace : labels.resolve target = .ok place)
      (hfar : ¬ InReach offset place) :
      Exceeds labels offset (.branch test target) (.branchOutOfRange target distance)
  | grew {test target place estimate actual} (hplace : labels.resolve target = .ok place)
      (hfar : ¬ InReach offset place) :
      Exceeds labels offset (.branch test target) (.branchGrew target estimate actual)
  | arguments {method : MethodRef} (hmany : ¬ method.type.argSlots + 1 ≤ 255) :
      Exceeds labels offset (.invoke method .interface)
        (.tooManyArguments method.type.argSlots.toNat)

/-- A branch may not reach its target from where it stands. -/
theorem branch_failsOnly {test : BranchTest} {target : Label} (hoffset : offset ≤ 65535)
    (htarget : ∃ place, labels.resolve target = .ok place) :
  FailsOnly ((Instruction.branch test target).Exceeds labels offset)
    (encodeBetween labels pool offset (wrap32 (offset + 3)) (.branch test target))
  := by
  obtain ⟨place, hplace⟩ := htarget
  have hbytes : (Instruction.branch test target).encode labels pool offset
      = if -32768 ≤ (place : Int) - offset ∧ (place : Int) - offset ≤ 32767 then
          .ok (Instruction.branchOpcode test
            :: Bytes.ofUInt16 (Int16.ofInt ((place : Int) - offset)).toUInt16)
        else if test = .always then .ok (Opcode.gotoW :: distanceBytes ((place : Int) - offset))
        else .error (.branchOutOfRange target ((place : Int) - offset)) := by
    rw [Instruction.encode, Instruction.branchBytes, hplace]
    rfl
  by_cases hnear : -32768 ≤ (place : Int) - offset ∧ (place : Int) - offset ≤ 32767
  · rw [if_pos hnear] at hbytes
    apply FailsOnly.encodeBetween hoffset hbytes
  · rw [encodeBetween, hbytes, if_neg hnear]
    split
    · apply (FailsOnly.ok _).bind
      intro bytes _
      simp only
      split
      · apply FailsOnly.ok
      · apply FailsOnly.error (.grew hplace hnear)
    · apply FailsOnly.error (.outOfRange hplace hnear)

/-- A call may have too many arguments to count. -/
theorem invoke_failsOnly {method : MethodRef} {mode : InvokeMode} {size : Nat}
    (hoffset : offset ≤ 65535) (hneeds : method.entry mode ∈ pool.indices)
    (hsize : (Instruction.invoke method mode).size pool offset = .ok size) :
  FailsOnly ((Instruction.invoke method mode).Exceeds labels offset)
    (encodeBetween labels pool offset (wrap32 (offset + size)) (.invoke method mode))
  := by
  obtain ⟨index, hindex⟩ := exists_indexed (Instruction.invokeOpcode mode) hneeds
  by_cases hmode : mode = .interface
  · subst hmode
    by_cases hslots : method.type.argSlots + 1 ≤ 255
    · have hfits : (Instruction.invoke method .interface).Fits pool labels offset := by
        simp only [Instruction.Fits, Instruction.encode, Instruction.invokeBytes, hindex]
        exact ⟨_, if_pos hslots, rfl⟩
      apply hfits.failsOnly hoffset hsize
    · have hencode : (Instruction.invoke method .interface).encode labels pool offset
          = .error (.tooManyArguments method.type.argSlots.toNat) := by
        simp only [Instruction.encode, Instruction.invokeBytes, hindex]
        apply if_neg hslots
      rw [encodeBetween, hencode]
      apply FailsOnly.error (.arguments hslots)
  · have hfits : (Instruction.invoke method mode).Fits pool labels offset := by
      simp only [Instruction.Fits, Instruction.encode, Instruction.invokeBytes, hindex,
        Instruction.size, if_neg hmode]
      exact ⟨_, if_pos hmode, rfl⟩
    apply hfits.failsOnly hoffset hsize

/-- An instruction that is no branch, switch or call fits wherever it stands. -/
theorem Instruction.fits (hencodable : i.Encodable)
    (hneeds : ∀ e ∈ i.poolNeeds, e ∈ pool.indices)
    (hbranch : ¬ ∃ test target, i = .branch test target) (hswitch : ¬ ∃ s, i = .switch s)
    (hinvoke : ¬ ∃ method mode, i = .invoke method mode) :
  i.Fits pool labels offset
  := by
  cases i with
  | branch test target => exact absurd ⟨test, target, rfl⟩ hbranch
  | switch s => exact absurd ⟨s, rfl⟩ hswitch
  | invoke method mode => exact absurd ⟨method, mode, rfl⟩ hinvoke
  | load slot kind =>
      refine ⟨_, rfl, ?_⟩
      rw [length_localBytes]
      rfl
  | store slot kind =>
      refine ⟨_, rfl, ?_⟩
      rw [length_localBytes]
      rfl
  | increment slot delta =>
      refine ⟨_, rfl, ?_⟩
      rw [length_incrementBytes]
      rfl
  | constant c => apply constant_fits hneeds
  | newArray elem => apply newArray_fits (hencodable elem rfl) hneeds
  | newArrays type dims =>
      obtain ⟨index, hindex⟩ := exists_indexed Opcode.multianewarray (hneeds _ List.mem_cons_self)
      use Opcode.multianewarray :: Bytes.ofUInt16 index ++ [dims]
      rw [Instruction.encode, hindex]
      exact ⟨rfl, rfl⟩
  | new _ | checkCast _ | instanceOf _ | getField _ _ | putField _ _ =>
      apply indexed_fits (hneeds _ List.mem_cons_self) rfl rfl
  | ret kind => cases kind <;> exact ⟨_, rfl, rfl⟩
  | _ => exact ⟨_, rfl, rfl⟩

/-- An instruction can be encoded in the space that layout reserves for it, unless something
in it is too large. -/
theorem encodeBetween_failsOnly {size : Nat} (hoffset : offset ≤ 65535)
    (hencodable : i.Encodable) (hneeds : ∀ e ∈ i.poolNeeds, e ∈ pool.indices)
    (htargets : ∀ l ∈ i.targets, ∃ place, labels.resolve l = .ok place)
    (hsize : i.size pool offset = .ok size) :
  FailsOnly (i.Exceeds labels offset)
    (encodeBetween labels pool offset (wrap32 (offset + size)) i)
  := by
  by_cases hbranch : ∃ test target, i = .branch test target
  · obtain ⟨test, target, rfl⟩ := hbranch
    obtain rfl := Except.ok.inj hsize
    apply branch_failsOnly hoffset (htargets target List.mem_cons_self)
  by_cases hswitch : ∃ s, i = .switch s
  · obtain ⟨s, rfl⟩ := hswitch
    apply switch_failsOnly hoffset htargets hsize
  by_cases hinvoke : ∃ method mode, i = .invoke method mode
  · obtain ⟨method, mode, rfl⟩ := hinvoke
    apply invoke_failsOnly hoffset (hneeds _ List.mem_cons_self) hsize
  · apply (Instruction.fits hencodable hneeds hbranch hswitch hinvoke).failsOnly hoffset hsize

/-! ### Layout -/

variable {code : List Instruction} {layout : Layout}

/-- The error is that an instruction of the code would end beyond the largest offset. -/
inductive TooLong (pool : FrozenPool) (code : List Instruction) : CompileError → Prop
  | intro {before i after layout size index offset total} (hcode : code = before ++ i :: after)
      (hcovers : Layout.Covers pool before layout) (hsize : i.size pool layout.size = .ok size)
      (hlong : 65535 < wrap32 (layout.size + size)) :
      TooLong pool code (.encode index offset (.codeTooLong total))

theorem TooLong.append {e : CompileError} (h : TooLong pool code e) (rest : List Instruction) :
  TooLong pool (code ++ rest) e
  := by
  obtain ⟨rfl, hcovers, hsize, hlong⟩ := h
  rw [List.append_assoc, List.cons_append]
  apply TooLong.intro rfl hcovers hsize hlong

/-- Code that is too long has more bytes reserved than there are offsets. -/
theorem TooLong.lt_reserved {e : CompileError} (h : TooLong pool code e)
    (hmade : SwitchesMade code) :
  65535 < reserved pool code
  := by
  obtain ⟨rfl, hcovers, hsize, hlong⟩ := h
  rw [hcovers.size_eq fun s hs => hmade s (List.mem_append_left _ hs)] at hsize hlong
  rw [List.append_cons]
  apply Nat.lt_of_lt_of_le _ (reserved_le_append _ _)
  rw [reserved_concat, Instruction.room_of_size hsize]
  apply Nat.lt_of_lt_of_le hlong (Nat.mod_le _ _)

/-- One more instruction can be laid out if its label is new, unless the code gets too long. -/
theorem Layout.Covers.add_failsOnly (hcovers : layout.Covers pool code)
    (hnew : ∀ l, i = .label l → .label l ∉ code)
    (hneeds : ∀ e ∈ i.poolNeeds, e ∈ pool.indices) :
  FailsOnly (TooLong pool (code ++ [i])) (layout.add pool i)
  := by
  obtain ⟨size, hsize⟩ := exists_size layout.size hneeds
  have hlabels : ∃ labels, Layout.bindLabel layout.labels layout.size i = .ok labels := by
    by_cases hlabel : ∃ l, i = .label l
    · obtain ⟨l, rfl⟩ := hlabel
      rw [Layout.bindLabel_label, if_neg]
      · exact ⟨_, rfl⟩
      · intro hmem
        obtain ⟨k, hk, -⟩ := hcovers.labels.mp (Std.HashMap.getElem?_eq_some_getElem hmem)
        apply hnew l rfl (List.mem_of_getElem? hk)
    · use layout.labels
      apply Layout.bindLabel_of_ne fun l hl => hlabel ⟨l, hl⟩
  obtain ⟨labels, hlabels⟩ := hlabels
  apply FailsOnly.mapError
  apply (FailsOnly.of_eq_ok hlabels).bind
  intro labels _
  apply (FailsOnly.of_eq_ok hsize).bind
  intro size' hsize'
  obtain rfl := Except.ok.inj (hsize.symm.trans hsize')
  simp only
  split
  · next hlong =>
    apply FailsOnly.error
    apply TooLong.intro rfl hcovers hsize hlong
  · apply FailsOnly.ok

/-- Code in which every label stands once can be laid out, unless it gets too long. -/
theorem Layout.Covers.addAll_failsOnly {rest : List Instruction}
    (hcovers : layout.Covers pool code) (hunique : ∀ l, (code ++ rest).count (.label l) ≤ 1)
    (hneeds : ∀ i ∈ rest, ∀ e ∈ i.poolNeeds, e ∈ pool.indices) :
  FailsOnly (TooLong pool (code ++ rest)) (rest.foldlM (Layout.add pool) layout)
  := by
  induction rest generalizing code layout with
  | nil => apply FailsOnly.ok
  | cons i rest ih =>
      have hnew : ∀ l, i = .label l → .label l ∉ code := by
        rintro l rfl hmem
        have hle := hunique l
        rw [List.count_append, List.count_cons_self] at hle
        have hpos := List.count_pos_iff.mpr hmem
        omega
      rw [List.foldlM_cons, List.append_cons]
      have hadd := hcovers.add_failsOnly hnew (hneeds i List.mem_cons_self)
      apply (hadd.imp fun e he => he.append rest).bind
      intro layout' hadd
      apply ih (hcovers.add hadd)
      · rw [← List.append_cons]
        apply hunique
      · intro j hj
        apply hneeds j (List.mem_cons_of_mem i hj)

/-- Instructions can be encoded if each fits between its offset and the next. -/
theorem encodeFrom_failsOnly {P : CompileError → Prop} {index : Nat} {done : List (List UInt8)}
    {boundaries : List Nat}
    (h : ∀ {k i}, code[k]? = some i → ∃ start stop, boundaries[k]? = some start
      ∧ boundaries[k + 1]? = some stop
      ∧ ∀ index, FailsOnly (fun e => P (.encode index start e))
        (encodeBetween labels pool start stop i)) :
  FailsOnly P (encodeFrom labels pool index done code boundaries)
  := by
  fun_induction encodeFrom labels pool index done code boundaries with
  | case1 index done i code start stop boundaries e he =>
      obtain ⟨_, _, hstart, hstop, hi⟩ := @h 0 i rfl
      obtain rfl := Option.some.inj hstart
      obtain rfl := Option.some.inj hstop
      exact FailsOnly.error ((hi index).of_error he)
  | case2 index done i code start stop boundaries bytes hbytes ih =>
      apply ih
      intro k j hj
      apply @h (k + 1) j hj
  | case3 => apply FailsOnly.ok

/-! ### Handlers -/

variable {P : CompileError → Prop}

/-- A handler can be stored if its range lies within the code and, unless the range has no
bytes, its label has an offset. -/
theorem Handler.entry?_failsOnly {boundaries : List Nat} {h : Handler} {start stop : Nat}
    (hstart : boundaries[h.start]? = some start) (hstop : boundaries[h.stop]? = some stop)
    (htarget : start ≠ stop → ∃ place, labels.resolve h.target = .ok place)
    (hcatch : ∀ type, h.catchType = some type → .ofClass type ∈ pool.indices) :
  FailsOnly P (h.entry? boundaries labels pool).outcome
  := by
  have hcatch : ∃ index, h.catchIndex pool = .ok index := by
    rw [Handler.catchIndex]
    cases htype : h.catchType with
    | none => exact ⟨0, rfl⟩
    | some type =>
        obtain ⟨index, hindex⟩ := FrozenPool.exists_indexOf (hcatch type htype)
        use index
        apply Except.mapError_eq_ok_iff.mpr hindex
  obtain ⟨catchType, hcatch⟩ := hcatch
  rw [Handler.entry?, Traced.outcome_bind]
  have hstart := handlerOffset_eq_ok.mpr hstart
  apply (FailsOnly.of_eq_ok hstart).bind
  intro start' hstart'
  obtain rfl := Except.ok.inj (hstart.symm.trans hstart')
  rw [Traced.outcome_bind]
  have hstop := handlerOffset_eq_ok.mpr hstop
  apply (FailsOnly.of_eq_ok hstop).bind
  intro stop' hstop'
  obtain rfl := Except.ok.inj (hstop.symm.trans hstop')
  split
  · apply FailsOnly.ok
  · next hne =>
    obtain ⟨place, hplace⟩ := htarget hne
    rw [Traced.outcome_bind]
    apply (FailsOnly.of_eq_ok (Except.mapError_eq_ok_iff.mpr hplace)).bind
    intro target _
    rw [Traced.outcome_bind]
    apply (FailsOnly.of_eq_ok hcatch).bind
    intro catchType _
    apply FailsOnly.ok

/-- The exception table fails only for one of the handlers. -/
theorem exceptionTable_failsOnly {boundaries : List Nat} {handlers : List Handler}
    (h : ∀ h ∈ handlers, FailsOnly P (h.entry? boundaries labels pool).outcome) :
  FailsOnly P (exceptionTable boundaries labels pool handlers).outcome
  := by
  induction handlers with
  | nil => apply FailsOnly.ok
  | cons first handlers ih =>
      rw [exceptionTable, Traced.outcome_bind]
      apply (h first List.mem_cons_self).bind
      intro entry? _
      rw [Traced.outcome_bind]
      apply (ih fun h' hmem => h h' (List.mem_cons_of_mem first hmem)).bind
      intro entries _
      apply FailsOnly.ok

/-! ### Code -/

/-- What code is refused for. -/
inductive MethodCode.Exceeds (pool : FrozenPool) (code : MethodCode) : CompileError → Prop
  | length {e} (h : TooLong pool code.instructions e) : Exceeds pool code e
  | instruction {layout : Layout} {index k offset : Nat} {i e}
      (hcovers : layout.Covers pool code.instructions) (hk : code.instructions[k]? = some i)
      (hoffset : layout.boundaries[k]? = some offset) (h : i.Exceeds layout.labels offset e) :
      Exceeds pool code (.encode index offset e)

/-- What code exceeds is foreseen. -/
theorem MethodCode.Exceeds.foreseen {code : MethodCode} {e : CompileError}
    (h : code.Exceeds pool e) :
  e.Foreseen
  := by
  cases h with
  | length h =>
      obtain ⟨-⟩ := h
      rfl
  | instruction _ _ _ h => cases h <;> rfl

/-- Nothing is refused in code within the limits. -/
theorem MethodCode.WithinLimits.not_exceeds {code : MethodCode} (h : code.WithinLimits pool)
    (hcalls : code.CallsCounted) (hmade : SwitchesMade code.instructions) (e : CompileError) :
  ¬ code.Exceeds pool e
  := by
  intro he
  cases he with
  | length hlong => apply Nat.not_lt_of_le h.length (hlong.lt_reserved hmade)
  | instruction hcovers hk hoffset he =>
      have hboundary {k offset : Nat} {i : Instruction} (hk : code.instructions[k]? = some i)
          (hoffset : _ = some offset) : reserved pool (code.instructions.take k) = offset :=
        Option.some.inj ((hcovers.boundary_eq hmade
          (Nat.le_of_lt (List.getElem?_eq_some_iff.mp hk).1)).symm.trans hoffset)
      cases he with
      | outOfRange hplace hfar | grew hplace hfar =>
          obtain ⟨k', hk', hplace⟩ := hcovers.labels.mp (LabelTable.resolve_eq_ok.mp hplace)
          rw [← hboundary hk hoffset, ← hboundary hk' hplace] at hfar
          apply hfar (h.branches hk hk')
      | arguments hmany => apply hmany (hcalls _ (List.mem_of_getElem? hk))

/-- Code that has been assembled creates no arrays of types without values. -/
theorem MethodCode.encodable_of_assemble {code : MethodCode} {out : AssembledCode}
    (h : (code.assemble pool).outcome = .ok out) :
  ∀ i ∈ code.instructions, i.Encodable
  := by
  obtain ⟨layout, hlayout, hbytes, -, -⟩ := MethodCode.assemble_eq_ok h
  rintro i hi elem rfl
  obtain ⟨k, hk⟩ := List.mem_iff_getElem?.mp hi
  obtain ⟨offset, part, -, hencode, hsize⟩ := (Layout.covers_of hlayout).exists_encode hbytes hk
  apply isValueless_of_newArray hencode hsize

/-- A label of the code has an offset in its layout. -/
theorem Layout.Covers.exists_resolve (hcovers : layout.Covers pool code) {l : Label}
    (hl : .label l ∈ code) :
  ∃ place, layout.labels.resolve l = .ok place
  := by
  obtain ⟨k, hk⟩ := List.mem_iff_getElem?.mp hl
  obtain ⟨offset, -, hoffset, -, -⟩ := hcovers.step hk
  use offset
  apply LabelTable.resolve_eq_ok.mpr (hcovers.labels.mpr ⟨k, hk, hoffset⟩)

/-- Code that is laid out can be encoded if its targets stand in it, unless something in it is
too large. -/
theorem Layout.Covers.encodeFrom_failsOnly {code : MethodCode}
    (hcovers : layout.Covers pool code.instructions)
    (htargets : ∀ i ∈ code.instructions, ∀ l ∈ i.targets, .label l ∈ code.instructions)
    (hencodable : ∀ i ∈ code.instructions, i.Encodable)
    (hneeds : ∀ i ∈ code.instructions, ∀ e ∈ i.poolNeeds, e ∈ pool.indices) :
  FailsOnly (code.Exceeds pool)
    (encodeFrom layout.labels pool 0 [] code.instructions layout.boundaries)
  := by
  apply ClassForge.encodeFrom_failsOnly
  intro k i hk
  have hi := List.mem_of_getElem? hk
  obtain ⟨offset, size, hoffset, hsize, hnext⟩ := hcovers.step hk
  refine ⟨_, _, hoffset, hnext, fun index => ?_⟩
  have hbetween := encodeBetween_failsOnly (hcovers.bounded hoffset) (hencodable i hi)
    (hneeds i hi) (fun l hl => hcovers.exists_resolve (htargets i hi l hl)) hsize
  apply hbetween.imp
  intro e he
  apply MethodCode.Exceeds.instruction hcovers hk hoffset he

/-- Code in which every label stands once at most, every jump goes to a label that stands
somewhere, and so does every handler whose range has bytes. The ranges lie within the code. -/
structure MethodCode.Resolves (pool : FrozenPool) (code : MethodCode) : Prop where
  unique : ∀ l, code.instructions.count (.label l) ≤ 1
  targets : ∀ i ∈ code.instructions, ∀ l ∈ i.targets, .label l ∈ code.instructions
  ranges : ∀ h ∈ code.handlers,
    h.start ≤ code.instructions.length ∧ h.stop ≤ code.instructions.length
  handlers : ∀ h ∈ code.handlers, reserved pool (code.instructions.take h.start)
    ≠ reserved pool (code.instructions.take h.stop) → .label h.target ∈ code.instructions

/-- Code can be assembled unless it goes beyond the limits, if every label stands once at most,
every jump and every handler whose range has bytes goes to one of them, and the ranges lie within
the code. -/
theorem MethodCode.assemble_failsOnly {code : MethodCode}
    (hunique : ∀ l, code.instructions.count (.label l) ≤ 1)
    (htargets : ∀ i ∈ code.instructions, ∀ l ∈ i.targets, .label l ∈ code.instructions)
    (hranges : ∀ h ∈ code.handlers,
      h.start ≤ code.instructions.length ∧ h.stop ≤ code.instructions.length)
    (hhandlers : ∀ layout : Layout, layout.Covers pool code.instructions → ∀ h ∈ code.handlers,
      layout.boundaries[h.start]? ≠ layout.boundaries[h.stop]? →
      .label h.target ∈ code.instructions)
    (hencodable : ∀ i ∈ code.instructions, i.Encodable)
    (hneeds : ∀ e ∈ code.needs, e ∈ pool.indices) :
  FailsOnly (code.Exceeds pool) (code.assemble pool).outcome
  := by
  have hneeded : ∀ i ∈ code.instructions, ∀ e ∈ i.poolNeeds, e ∈ pool.indices := by
    intro i hi e he
    apply hneeds e
    apply List.mem_append_left
    apply List.mem_flatMap.mpr ⟨i, hi, he⟩
  rw [MethodCode.assemble, Traced.outcome_bind]
  have hlayout := Layout.covers_nil.addAll_failsOnly hunique hneeded
  apply (hlayout.imp fun e => .length).bind
  intro layout hlayout
  have hcovers : layout.Covers pool code.instructions := Layout.covers_of hlayout
  rw [Traced.outcome_bind]
  apply (hcovers.encodeFrom_failsOnly htargets hencodable hneeded).bind
  intro bytes _
  rw [Traced.outcome_bind]
  have htable : FailsOnly (code.Exceeds pool)
      (exceptionTable layout.boundaries layout.labels pool code.handlers).outcome := by
    apply exceptionTable_failsOnly
    intro h hh
    have hboundary {k : Nat} (hk : k ≤ code.instructions.length) :
        ∃ offset, layout.boundaries[k]? = some offset := by
      have hlt : k < layout.boundaries.length := by
        rw [hcovers.length]
        apply Nat.lt_succ_of_le hk
      exact ⟨_, List.getElem?_eq_getElem hlt⟩
    obtain ⟨start, hstart⟩ := hboundary (hranges h hh).1
    obtain ⟨stop, hstop⟩ := hboundary (hranges h hh).2
    apply Handler.entry?_failsOnly hstart hstop
    · intro hne
      apply hcovers.exists_resolve (hhandlers layout hcovers h hh _)
      rw [hstart, hstop]
      simpa using hne
    · intro type htype
      apply hneeds
      apply List.mem_append_right
      apply List.mem_filterMap.mpr ⟨h, hh, _⟩
      rw [htype]
      rfl
  apply htable.bind
  intro table _
  apply FailsOnly.ok

/-- Code in which everything resolves can be assembled unless it goes beyond the limits. -/
theorem MethodCode.Resolves.assemble_failsOnly {code : MethodCode} (hresolves : code.Resolves pool)
    (hmade : SwitchesMade code.instructions)
    (hencodable : ∀ i ∈ code.instructions, i.Encodable)
    (hneeds : ∀ e ∈ code.needs, e ∈ pool.indices) :
  FailsOnly (code.Exceeds pool) (code.assemble pool).outcome
  := by
  apply MethodCode.assemble_failsOnly hresolves.unique hresolves.targets hresolves.ranges _
    hencodable hneeds
  intro layout hcovers h hh hne
  obtain ⟨hstart, hstop⟩ := hresolves.ranges h hh
  rw [hcovers.boundary_eq hmade hstart, hcovers.boundary_eq hmade hstop] at hne
  apply hresolves.handlers h hh fun heq => hne (congrArg some heq)

/-- Linked code can be assembled unless it goes beyond the limits. -/
theorem MethodCode.Linked.assemble_failsOnly {code : MethodCode} (hlinked : code.Linked)
    (hneeds : ∀ e ∈ code.needs, e ∈ pool.indices) :
  FailsOnly (code.Exceeds pool) (code.assemble pool).outcome
  := by
  apply MethodCode.assemble_failsOnly hlinked.unique hlinked.targets _ _ hlinked.encodable hneeds
  · intro h hh
    obtain ⟨hstart, hstop, -⟩ := hlinked.handlers h hh
    use hstart
  · intro layout _ h hh _
    apply (hlinked.handlers h hh).2.2

end ClassForge
