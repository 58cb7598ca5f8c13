import ClassForge.Proofs.Assembly.Layout
import ClassForge.Proofs.Bytes

/-!
# Encoded instructions

The bytes of some code are the bytes of its instructions, each between its own offset and the
next. Within the bytes of a branch or a switch stand the distances to its targets.
-/

namespace ClassForge

/-! ### Distances -/

theorem length_distanceBytes (distance : Int) :
  (distanceBytes distance).length = 4
  := rfl

/-- A branch of three bytes holds the distance to its target in the last two. -/
theorem branchBytes_eq_ok {test : BranchTest} {target : Label} {offset : Nat}
    {labels : LabelTable} {bytes : List UInt8}
    (h : Instruction.branchBytes test target offset labels = .ok bytes)
    (hlength : bytes.length = 3) :
  ∃ place : Nat, labels.resolve target = .ok place
    ∧ -32768 ≤ (place : Int) - offset ∧ (place : Int) - offset ≤ 32767
    ∧ bytes = [Instruction.branchOpcode test]
      ++ Bytes.ofUInt16 (Int16.ofInt ((place : Int) - offset)).toUInt16 ++ []
  := by
  obtain ⟨place, hplace, h⟩ := Except.bind_eq_ok_iff.mp h
  use place, hplace
  simp only at h
  split at h
  · next hrange =>
    use hrange.1, hrange.2
    rw [← Except.ok.inj h]
    simp
  · split at h
    · obtain rfl := Except.ok.inj h
      rw [List.length_cons, length_distanceBytes] at hlength
      contradiction
    · contradiction

/-- Where the distances of a switch at `offset` stand, with the labels that they lead to. -/
def Switch.distanceFields (s : Switch) (offset : Nat) : List (Nat × Label) :=
  let base := offset + 1 + switchPadding offset
  (base, s.fallback) :: match s.form with
    | .table low high =>
      (Instruction.tableKeys low high).mapIdx fun k key => (base + 12 + 4 * k, s.target key)
    | .lookup => s.cases.mapIdx fun k c => (base + 12 + 8 * k, c.2)

/-- Parts of one length are together as long as there are parts. -/
theorem length_flatten_of_forall {parts : List (List UInt8)} {length : Nat}
    (h : ∀ p ∈ parts, p.length = length) :
  parts.flatten.length = length * parts.length
  := by
  induction parts with
  | nil => rfl
  | cons p parts ih =>
      rw [List.flatten_cons, List.length_append, h p List.mem_cons_self,
        ih fun q hq => h q (List.mem_cons_of_mem p hq), List.length_cons, Nat.mul_succ,
        Nat.add_comm]

/-- Of parts of the same length, one stands after those before it. -/
theorem exists_append_of_flatten {parts : List (List UInt8)} {part : List UInt8} {length k : Nat}
    (hlength : ∀ p ∈ parts, p.length = length) (hk : parts[k]? = some part) :
  ∃ before after, parts.flatten = before ++ part ++ after ∧ before.length = length * k
  := by
  induction parts generalizing k with
  | nil => contradiction
  | cons p parts ih =>
      cases k with
      | zero =>
          obtain rfl := Option.some.inj hk
          use [], parts.flatten
          simp
      | succ k =>
          obtain ⟨before, after, hflatten, hbefore⟩ :=
            ih (fun q hq => hlength q (List.mem_cons_of_mem p hq)) hk
          use p ++ before, after
          rw [List.length_append, hlength p List.mem_cons_self, hbefore, Nat.mul_succ]
          simp [hflatten, Nat.add_comm]

section

variable {s : Switch} {offset : Nat} {labels : LabelTable} {bytes : List UInt8}

/-- The bytes are those of the distance to a label. -/
def LabelTable.Measures (labels : LabelTable) (offset : Nat) (l : Label) (bytes : List UInt8) :
    Prop :=
  ∃ place : Nat, labels.resolve l = .ok place ∧ distanceBytes ((place : Int) - offset) = bytes

theorem LabelTable.measures_of_ok {l : Label}
    (h : (do return distanceBytes ((← labels.resolve l) - offset)) = Except.ok bytes) :
  labels.Measures offset l bytes
  := by
  obtain ⟨place, hplace, h⟩ := Except.bind_eq_ok_iff.mp h
  use place, hplace, Except.ok.inj h

theorem LabelTable.Measures.length {l : Label} (h : labels.Measures offset l bytes) :
  bytes.length = 4
  := by
  obtain ⟨place, -, rfl⟩ := h
  rfl

/-- The bytes before the distances of a switch. -/
def switchHead (opcode : UInt8) (offset : Nat) : List UInt8 :=
  opcode :: List.replicate (switchPadding offset) 0

theorem length_switchHead (opcode : UInt8) (offset : Nat) :
  (switchHead opcode offset).length = 1 + switchPadding offset
  := by
  simp [switchHead, Nat.add_comm]

/-- The bytes of a table: the default, the bounds and the distances for the keys between them. -/
theorem switchBytes_table {low high : Int32} (hform : s.form = .table low high)
    (h : Instruction.switchBytes s offset labels = .ok bytes) :
  ∃ fallback targets, labels.Measures offset s.fallback fallback
    ∧ List.Forall₂ (fun key => labels.Measures offset (s.target key))
      (Instruction.tableKeys low high) targets
    ∧ bytes = switchHead Opcode.tableswitch offset ++ fallback
      ++ (Bytes.ofUInt32 low.toUInt32 ++ Bytes.ofUInt32 high.toUInt32 ++ targets.flatten)
  := by
  obtain ⟨fallback, hfallback, h⟩ := Except.bind_eq_ok_iff.mp h
  simp only [hform] at h
  obtain ⟨targets, htargets, h⟩ := Except.bind_eq_ok_iff.mp h
  use fallback, targets, LabelTable.measures_of_ok hfallback
  constructor
  · apply (Except.mapM_eq_ok_iff.mp htargets).imp
    intro key bytes
    apply LabelTable.measures_of_ok
  · rw [← Except.ok.inj h]
    simp [switchHead]

/-- The bytes of a lookup: the default, the number of cases and the pairs of keys and distances. -/
theorem switchBytes_lookup (hform : s.form = .lookup)
    (h : Instruction.switchBytes s offset labels = .ok bytes) :
  ∃ fallback pairs, labels.Measures offset s.fallback fallback
    ∧ List.Forall₂ (fun c pair => ∃ distance, labels.Measures offset c.2 distance
      ∧ pair = Bytes.ofUInt32 c.1.toUInt32 ++ distance) s.cases pairs
    ∧ bytes = switchHead Opcode.lookupswitch offset ++ fallback
      ++ (Bytes.ofUInt32 (UInt32.ofNat s.cases.length) ++ pairs.flatten)
  := by
  obtain ⟨fallback, hfallback, h⟩ := Except.bind_eq_ok_iff.mp h
  simp only [hform] at h
  obtain ⟨pairs, hpairs, h⟩ := Except.bind_eq_ok_iff.mp h
  use fallback, pairs, LabelTable.measures_of_ok hfallback
  constructor
  · apply (Except.mapM_eq_ok_iff.mp hpairs).imp
    intro c pair hpair
    obtain ⟨distance, hdistance, hpair⟩ := Except.bind_eq_ok_iff.mp hpair
    use distance, LabelTable.measures_of_ok hdistance
    apply (Except.ok.inj hpair).symm
  · rw [← Except.ok.inj h]
    simp [switchHead]

theorem length_of_mem_targets {keys : List Int32} {targets : List (List UInt8)}
    (h : List.Forall₂ (fun key => labels.Measures offset (s.target key)) keys targets) :
  ∀ t ∈ targets, t.length = 4
  := by
  intro t ht
  obtain ⟨_, _, ht⟩ := h.exists_of_mem_right ht
  apply ht.length

/-- Each pair of a lookup takes eight bytes. -/
theorem length_of_mem_pairs {cases : List (Int32 × Label)} {pairs : List (List UInt8)}
    (h : List.Forall₂ (fun c pair => ∃ distance, labels.Measures offset c.2 distance
      ∧ pair = Bytes.ofUInt32 c.1.toUInt32 ++ distance) cases pairs) :
  ∀ p ∈ pairs, p.length = 8
  := by
  intro p hp
  obtain ⟨_, _, distance, hdistance, rfl⟩ := h.exists_of_mem_right hp
  rw [List.length_append, hdistance.length]
  rfl

/-- The number of bytes of a switch. -/
theorem length_switchBytes (h : Instruction.switchBytes s offset labels = .ok bytes) :
  bytes.length = Instruction.switchLength s offset
  := by
  unfold Instruction.switchLength
  cases hform : s.form with
  | table low high =>
      obtain ⟨fallback, targets, hfallback, htargets, rfl⟩ := switchBytes_table hform h
      have hkeys : (Instruction.tableKeys low high).length = (Switch.span low high).toNat := by
        simp [Instruction.tableKeys]
      simp only [List.length_append, length_switchHead, hfallback.length,
        length_flatten_of_forall (length_of_mem_targets htargets), ← htargets.length_eq, hkeys,
        Bytes.ofUInt32, List.length_cons, List.length_nil]
      omega
  | lookup =>
      obtain ⟨fallback, pairs, hfallback, hpairs, rfl⟩ := switchBytes_lookup hform h
      simp only [List.length_append, length_switchHead, hfallback.length,
        length_flatten_of_forall (length_of_mem_pairs hpairs), ← hpairs.length_eq,
        Bytes.ofUInt32, List.length_cons, List.length_nil]
      omega

/-- The bytes of a switch hold the distances to its targets. -/
theorem switchBytes_eq_ok (h : Instruction.switchBytes s offset labels = .ok bytes)
    {field : Nat × Label} (hfield : field ∈ s.distanceFields offset) :
  ∃ before distance after, labels.Measures offset field.2 distance
    ∧ bytes = before ++ distance ++ after ∧ offset + before.length = field.1
  := by
  unfold Switch.distanceFields at hfield
  cases hform : s.form with
  | table low high =>
      obtain ⟨fallback, targets, hfallback, htargets, rfl⟩ := switchBytes_table hform h
      simp only [hform] at hfield
      obtain rfl | hfield := List.mem_cons.mp hfield
      · refine ⟨_, fallback, _, hfallback, rfl, ?_⟩
        rw [length_switchHead, Nat.add_assoc]
      · obtain ⟨k, hk, rfl⟩ := List.mem_mapIdx.mp hfield
        obtain ⟨distance, hk, hdistance⟩ := htargets.exists_getElem? (List.getElem?_eq_getElem hk)
        obtain ⟨before, after, hflatten, hbefore⟩ :=
          exists_append_of_flatten (length_of_mem_targets htargets) hk
        use switchHead Opcode.tableswitch offset ++ fallback
          ++ (Bytes.ofUInt32 low.toUInt32 ++ Bytes.ofUInt32 high.toUInt32) ++ before, distance,
          after, hdistance
        constructor
        · simp [hflatten]
        · simp [length_switchHead, hfallback.length, hbefore, Bytes.ofUInt32]
          omega
  | lookup =>
      obtain ⟨fallback, pairs, hfallback, hpairs, rfl⟩ := switchBytes_lookup hform h
      simp only [hform] at hfield
      obtain rfl | hfield := List.mem_cons.mp hfield
      · refine ⟨_, fallback, _, hfallback, rfl, ?_⟩
        rw [length_switchHead, Nat.add_assoc]
      · obtain ⟨k, hk, rfl⟩ := List.mem_mapIdx.mp hfield
        obtain ⟨pair, hk, distance, hdistance, rfl⟩ :=
          hpairs.exists_getElem? (List.getElem?_eq_getElem hk)
        obtain ⟨before, after, hflatten, hbefore⟩ :=
          exists_append_of_flatten (length_of_mem_pairs hpairs) hk
        use switchHead Opcode.lookupswitch offset ++ fallback
          ++ Bytes.ofUInt32 (UInt32.ofNat s.cases.length) ++ before
          ++ Bytes.ofUInt32 (s.cases[k].1).toUInt32, distance, after, hdistance
        constructor
        · simp [hflatten]
        · simp [length_switchHead, hfallback.length, hbefore, Bytes.ofUInt32]
          omega

end

/-! ### Lengths -/

/-- An access to a local takes one, two or four bytes. -/
theorem length_localBytes (compact general : UInt8) (slot : UInt16) (kind : Kind) :
  (Instruction.localBytes compact general slot kind).length
    = if slot ≤ 3 then 1 else if slot ≤ 255 then 2 else 4
  := by
  unfold Instruction.localBytes
  split
  · rfl
  · split <;> rfl

theorem length_incrementBytes (slot : UInt16) (delta : Int16) :
  (Instruction.incrementBytes slot delta).length
    = if slot ≤ 255 ∧ -128 ≤ delta.toInt ∧ delta.toInt ≤ 127 then 3 else 6
  := by
  unfold Instruction.incrementBytes
  split <;> rfl

theorem length_indexed {opcode : UInt8} {pool : FrozenPool} {e : PoolEntry} {bytes : List UInt8}
    (h : Instruction.indexed opcode pool e = .ok bytes) :
  bytes.length = 3
  := by
  obtain ⟨index, -, h⟩ := Except.bind_eq_ok_iff.mp h
  obtain rfl := Except.ok.inj h
  rfl

/-- A literal takes six bytes at most. -/
theorem length_constantBytes_le {c : Constant} {pool : FrozenPool} {bytes : List UInt8}
    (h : Instruction.constantBytes c pool = .ok bytes) :
  bytes.length ≤ 6
  := by
  rw [Instruction.constantBytes] at h
  split at h
  case h_1 | h_2 | h_3 =>
    obtain rfl := Except.ok.inj h
    exact Nat.le_of_ble_eq_true rfl
  · obtain ⟨index, -, h⟩ := Except.bind_eq_ok_iff.mp h
    obtain rfl := Except.ok.inj h
    exact Nat.le_of_ble_eq_true rfl
  · obtain ⟨index, -, h⟩ := Except.bind_eq_ok_iff.mp h
    split at h
    · obtain rfl := Except.ok.inj h
      exact Nat.le_of_ble_eq_true rfl
    · obtain rfl := Except.ok.inj h
      exact Nat.le_of_ble_eq_true rfl

/-- A branch takes six bytes at most. -/
theorem length_branchBytes_le {test : BranchTest} {target : Label} {offset : Nat}
    {labels : LabelTable} {bytes : List UInt8}
    (h : Instruction.branchBytes test target offset labels = .ok bytes) :
  bytes.length ≤ 6
  := by
  obtain ⟨place, -, h⟩ := Except.bind_eq_ok_iff.mp h
  simp only at h
  split at h
  · obtain rfl := Except.ok.inj h
    exact Nat.le_of_ble_eq_true rfl
  · split at h
    · obtain rfl := Except.ok.inj h
      exact Nat.le_of_ble_eq_true rfl
    · contradiction

/-- A call takes six bytes at most. -/
theorem length_invokeBytes_le {method : MethodRef} {mode : InvokeMode} {pool : FrozenPool}
    {bytes : List UInt8} (h : Instruction.invokeBytes method mode pool = .ok bytes) :
  bytes.length ≤ 6
  := by
  obtain ⟨part, hpart, h⟩ := Except.bind_eq_ok_iff.mp h
  split at h
  · obtain rfl := Except.ok.inj h
    rw [length_indexed hpart]
    decide
  · simp only at h
    split at h
    · obtain rfl := Except.ok.inj h
      rw [List.length_append, length_indexed hpart]
      exact Nat.le_of_ble_eq_true rfl
    · contradiction

/-- An instruction that is no switch has at most six bytes. -/
theorem Instruction.length_encode_le {labels : LabelTable} {pool : FrozenPool} {i : Instruction}
    {offset : Nat} {bytes : List UInt8} (hswitch : ∀ s, i ≠ .switch s)
    (h : i.encode labels pool offset = .ok bytes) :
  bytes.length ≤ 6
  := by
  cases i with
  | switch s => apply absurd rfl (hswitch s)
  | load slot kind | store slot kind =>
      obtain rfl := Except.ok.inj h
      rw [length_localBytes]
      repeat' split
      all_goals decide
  | increment slot delta =>
      obtain rfl := Except.ok.inj h
      rw [length_incrementBytes]
      split <;> decide
  | constant c => apply length_constantBytes_le h
  | convert source target =>
      obtain rfl := Except.ok.inj h
      apply Nat.le_trans (length_conversionOpcodes_le source target) (by decide)
  | branch test target => apply length_branchBytes_le h
  | newArray elem =>
      rw [Instruction.encode, Instruction.newArrayBytes] at h
      split at h
      · obtain rfl := Except.ok.inj h
        exact Nat.le_of_ble_eq_true rfl
      · rw [length_indexed h]
        decide
  | newArrays type dims =>
      obtain ⟨part, hpart, h⟩ := Except.bind_eq_ok_iff.mp h
      obtain rfl := Except.ok.inj h
      rw [List.length_append, length_indexed hpart]
      exact Nat.le_of_ble_eq_true rfl
  | invoke method mode => apply length_invokeBytes_le h
  | new _ | checkCast _ | instanceOf _ | getField _ _ | putField _ _ =>
      rw [length_indexed h]
      decide
  | ret kind =>
      cases kind with
      | none | some kind =>
          obtain rfl := Except.ok.inj h
          exact Nat.le_of_ble_eq_true rfl
  | _ =>
      obtain rfl := Except.ok.inj h
      exact Nat.le_of_ble_eq_true rfl

/-- Without large switches, 32 bits hold the length of an instruction. -/
theorem Instruction.length_encode_lt {labels : LabelTable} {pool : FrozenPool} {i : Instruction}
    {offset : Nat} {bytes : List UInt8} (hmade : ∀ s, i = .switch s → s.Moderate)
    (h : i.encode labels pool offset = .ok bytes) :
  bytes.length < 2147483660
  := by
  by_cases hswitch : ∃ s, i = .switch s
  · obtain ⟨s, rfl⟩ := hswitch
    rw [length_switchBytes h]
    apply (hmade s rfl).switchLength_lt
  · have hle := Instruction.length_encode_le (fun s hs => hswitch ⟨s, hs⟩) h
    omega

/-! ### Bytes between offsets -/

/-- The bytes between two boundaries are those of the instruction, and as many as the boundaries
tell modulo 2^32. -/
theorem encodeBetween_eq_ok {labels : LabelTable} {pool : FrozenPool} {start stop : Nat}
    {i : Instruction} {bytes : List UInt8}
    (h : encodeBetween labels pool start stop i = .ok bytes) :
  i.encode labels pool start = .ok bytes
    ∧ wrap32 bytes.length = wrap32 (4294967296 + stop - start)
  := by
  obtain ⟨bytes', hencode, h⟩ := Except.bind_eq_ok_iff.mp h
  simp only at h
  split at h
  · next hlength =>
    obtain rfl := Except.ok.inj h
    use hencode
  · contradiction

/-- Each instruction is encoded between its offset and the next. -/
theorem exists_encodeBetween {labels : LabelTable} {pool : FrozenPool} {index : Nat}
    {done : List (List UInt8)} {code : List Instruction} {boundaries : List Nat}
    {bytes : List UInt8} (h : encodeFrom labels pool index done code boundaries = .ok bytes)
    {k : Nat} {i : Instruction} (hk : code[k]? = some i) {start stop : Nat}
    (hstart : boundaries[k]? = some start) (hstop : boundaries[k + 1]? = some stop) :
  ∃ part, encodeBetween labels pool start stop i = .ok part
  := by
  fun_induction encodeFrom labels pool index done code boundaries generalizing k with
  | case1 => contradiction
  | case2 index done j code start' stop' boundaries part hpart ih =>
      cases k with
      | zero =>
          obtain rfl := Option.some.inj hk
          obtain rfl := Option.some.inj hstart
          obtain rfl := Option.some.inj hstop
          use part
      | succ k => apply ih h hk hstart hstop
  | case3 code index done boundaries hnot =>
      match code, boundaries with
      | [], _ => contradiction
      | _ :: _, [] => contradiction
      | _ :: _, [_] => simp at hstop
      | j :: code, first :: second :: boundaries =>
          exact (hnot j code first second boundaries rfl rfl).elim

/-- Without large switches, the bytes of an instruction fill the place between its offset and the
next. -/
theorem encodeBetween_eq_ok_of_made {labels : LabelTable} {pool : FrozenPool} {start stop : Nat}
    {i : Instruction} {bytes : List UInt8} (hmade : ∀ s, i = .switch s → s.Moderate)
    (hle : start ≤ stop) (hstop : stop ≤ 65535)
    (h : encodeBetween labels pool start stop i = .ok bytes) :
  i.encode labels pool start = .ok bytes ∧ bytes.length = stop - start
  := by
  obtain ⟨hencode, hlength⟩ := encodeBetween_eq_ok h
  use hencode
  have hlt := Instruction.length_encode_lt hmade hencode
  unfold wrap32 at hlength
  omega

/-- The bytes of instructions stand between their offsets, counted from the first. -/
theorem encodeFrom_eq_ok {labels : LabelTable} {pool : FrozenPool} {index first : Nat}
    {done : List (List UInt8)} {code : List Instruction} {boundaries : List Nat}
    {bytes : List UInt8}
    (h : encodeFrom labels pool index done code (first :: boundaries) = .ok bytes)
    (hlength : boundaries.length = code.length)
    (hsorted : (first :: boundaries).Pairwise (· ≤ ·))
    (hbounded : ∀ offset ∈ boundaries, offset ≤ 65535) (hmade : SwitchesMade code) :
  ∃ rest, bytes = done.reverse.flatten ++ rest
    ∧ (first :: boundaries)[code.length]? = some (first + rest.length)
    ∧ ∀ {k i}, code[k]? = some i → ∃ start stop, (first :: boundaries)[k]? = some start
      ∧ (first :: boundaries)[k + 1]? = some stop ∧ i.encode labels pool start
        = .ok ((rest.drop (start - first)).take (stop - start))
  := by
  induction code generalizing index first done boundaries with
  | nil =>
      obtain rfl := List.eq_nil_of_length_eq_zero hlength
      rw [encodeFrom] at h
      · use []
        rw [List.append_nil]
        use (Except.ok.inj h).symm, rfl
        intro k i hi
        contradiction
      · intro i rest start stop boundaries hcode
        contradiction
  | cons i code ih =>
      cases boundaries with
      | nil => contradiction
      | cons stop boundaries =>
          rw [encodeFrom] at h
          split at h
          · contradiction
          · next chunk hchunk =>
            obtain ⟨hfirst, hsorted⟩ := List.pairwise_cons.mp hsorted
            obtain ⟨hstop, hbounded⟩ := List.forall_mem_cons.mp hbounded
            obtain ⟨hencode, hsize⟩ := encodeBetween_eq_ok_of_made
              (fun s hs => hmade s (hs ▸ List.mem_cons_self)) (hfirst stop List.mem_cons_self) hstop
              hchunk
            have hstop : first + chunk.length = stop := by
              rw [hsize]
              apply Nat.add_sub_cancel' (hfirst stop List.mem_cons_self)
            obtain ⟨rest, hbytes, hlast, hrest⟩ := ih h (Nat.succ.inj hlength) hsorted hbounded
              fun s hs => hmade s (List.mem_cons_of_mem i hs)
            use chunk ++ rest
            constructor
            · rw [hbytes]
              simp
            constructor
            · rw [List.length_cons, List.getElem?_cons_succ, hlast, List.length_append,
                ← Nat.add_assoc, hstop]
            · intro k j hj
              cases k with
              | zero =>
                  obtain rfl := Option.some.inj hj
                  use first, stop, rfl, rfl
                  simp [hencode, ← hsize]
              | succ k =>
                  obtain ⟨start, stop', hstart, hnext, hj⟩ := hrest hj
                  use start, stop', hstart, hnext
                  have hle : stop ≤ start := by
                    obtain rfl | hmem := List.mem_cons.mp (List.mem_of_getElem? hstart)
                    · apply Nat.le_refl
                    · apply (List.pairwise_cons.mp hsorted).1 start hmem
                  have hdrop : (chunk ++ rest).drop (start - first) = rest.drop (start - stop) := by
                    rw [List.drop_append, List.drop_eq_nil_of_le (by omega), List.nil_append,
                      Nat.sub_sub, hstop]
                  rw [hdrop, hj]

/-- A part of some bytes stands between others. -/
theorem exists_append_of_slice {bytes part : List UInt8} {start stop : Nat} (hle : start ≤ stop)
    (hstop : stop ≤ bytes.length) (h : (bytes.drop start).take (stop - start) = part) :
  ∃ before after, bytes = before ++ part ++ after ∧ before.length = start
  := by
  use bytes.take start, bytes.drop stop
  constructor
  · have hdrop : bytes.drop stop = (bytes.drop start).drop (stop - start) := by
      rw [List.drop_drop, Nat.add_sub_cancel' hle]
    rw [← h, hdrop, List.append_assoc, List.take_append_drop, List.take_append_drop]
  · rw [List.length_take, Nat.min_eq_left (Nat.le_trans hle hstop)]

end ClassForge
