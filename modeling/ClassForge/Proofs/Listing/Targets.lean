import ClassForge.Listing.Text
import ClassForge.Proofs.Listing.Decoding

/-!
# Targets in listings

A branch or switch is read back with the distances to its targets. A listing adds them to the
place of the opcode and so shows the offsets of the labels.
-/

namespace ClassForge

/-- The offset of a label, zero for one that is not bound. -/
def LabelTable.place (labels : LabelTable) (l : Label) : Nat :=
  (labels.resolve l).toOption.getD 0

theorem LabelTable.place_of_resolve {labels : LabelTable} {l : Label} {place : Nat}
    (h : labels.resolve l = .ok place) :
  labels.place l = place
  := by
  rw [LabelTable.place, h]
  rfl

theorem LabelTable.Measures.place {labels : LabelTable} {l : Label} {offset : Nat}
    {bytes : List UInt8} (h : labels.Measures offset l bytes) :
  labels.resolve l = .ok (labels.place l)
    ∧ bytes = distanceBytes ((labels.place l : Int) - offset)
  := by
  obtain ⟨place, hplace, rfl⟩ := h
  rw [place_of_resolve hplace]
  use hplace

/-! ### Branches -/

/-- The opcode of a branch takes a near distance. -/
theorem Opcode.takes_branch {test : BranchTest} {target : Label}
    (h : (Instruction.branch test target).HasOpcode) :
  Takes (Instruction.branchOpcode test) .near
  := by
  cases test with
  | always | null | nonNull => decide
  | zero condition => cases condition <;> decide
  | compare kind condition =>
      cases kind with
      | reference =>
          obtain rfl | rfl := h
          · decide
          · decide
      | _ => cases condition <;> decide

section

variable {labels : LabelTable} {offset : Nat} {bytes : List UInt8}

/-- A branch of three bytes is read back with the distance to its target. -/
theorem Instruction.exists_standsIn_branch {test : BranchTest} {target : Label}
    (hopcode : (Instruction.branch test target).HasOpcode)
    (h : branchBytes test target offset labels = .ok bytes) (hlength : bytes.length = 3) :
  ∃ name, labels.resolve target = .ok (labels.place target)
    ∧ -32768 ≤ (labels.place target : Int) - offset ∧ (labels.place target : Int) - offset ≤ 32767
    ∧ (⟨name, .near (Int16.ofInt ((labels.place target : Int) - offset))⟩ : Decoded).StandsIn
      offset bytes
  := by
  obtain ⟨place, hplace, hlow, hhigh, rfl⟩ := branchBytes_eq_ok h hlength
  obtain ⟨name, hname⟩ := Decoded.exists_standsIn (Opcode.takes_branch hopcode)
    (Operands.standsIn_near (Int16.ofInt ((place : Int) - offset)))
  rw [LabelTable.place_of_resolve hplace]
  use name, hplace, hlow, hhigh
  rwa [List.append_nil]

end

/-! ### Switches -/

namespace Switch

/-- The keys that are listed with a switch. -/
def keys (s : Switch) : List Int32 :=
  match s.form with
  | .table low high => Instruction.tableKeys low high
  | .lookup => s.cases.map (·.1)

/-- The operands of a switch at `offset` whose labels are at the places. -/
def operands (s : Switch) (offset : Nat) (place : Label → Nat) : Operands :=
  let distance (l : Label) := Int32.ofInt ((place l : Int) - offset)
  match s.form with
  | .table low high =>
    .table (distance s.fallback) low high (s.keys.map fun key => distance (s.target key))
  | .lookup => .lookup (distance s.fallback) (s.cases.map fun c => (c.1, distance c.2))

variable {s : Switch} {cases : List (Int32 × Label)} {low high key : Int32} {l : Label}

/-- The keys of the cases are listed. -/
theorem mem_keys (hsorted : s.cases.Pairwise fun a b => a.1 < b.1)
    (hform : s.form = formFor s.cases) {c : Int32 × Label} (hc : c ∈ s.cases) :
  c.1 ∈ s.keys
  := by
  unfold keys
  split
  · next htable =>
    obtain ⟨hlow, hhigh⟩ := le_of_formFor hsorted (hform.symm.trans htable) hc
    apply mem_tableKeys hlow hhigh
  · apply List.mem_map_of_mem hc

/-- Distances to labels, each after some bytes. -/
theorem eq_map_of_measures {α : Type} {labels : LabelTable} {offset : Nat} {front : α → List UInt8}
    {target : α → Label} {as : List α} {parts : List (List UInt8)}
    (h : List.Forall₂ (fun a part => ∃ distance, labels.Measures offset (target a) distance
      ∧ part = front a ++ distance) as parts) :
  (∀ a ∈ as, labels.resolve (target a) = .ok (labels.place (target a)))
    ∧ parts = as.map fun a => front a ++ distanceBytes ((labels.place (target a) : Int) - offset)
  := by
  induction h with
  | nil =>
      use List.forall_mem_nil _
      rfl
  | @cons a part as parts hpart _ ih =>
      obtain ⟨distance, hdistance, rfl⟩ := hpart
      obtain ⟨hplace, rfl⟩ := hdistance.place
      use List.forall_mem_cons.mpr ⟨hplace, ih.1⟩
      rw [ih.2, List.map_cons]

section

variable {labels : LabelTable} {offset : Nat} {bytes : List UInt8} {fallback : Label}

/-- The bytes of a table are read back as its operands, and all of its targets have places. -/
theorem exists_standsIn_table (hform : s.form = .table low high) (hle : low ≤ high)
    (h : Instruction.switchBytes s offset labels = .ok bytes) (hlength : bytes.length ≤ 65535) :
  labels.resolve s.fallback = .ok (labels.place s.fallback)
    ∧ (∀ key ∈ s.keys, labels.resolve (s.target key) = .ok (labels.place (s.target key)))
    ∧ ∃ name, (⟨name, s.operands offset labels.place⟩ : Decoded).StandsIn offset bytes
  := by
  have hkeys : s.keys = Instruction.tableKeys low high := by
    rw [keys, hform]
  have hcount : s.keys.length = (span low high).toNat := by
    rw [hkeys, Instruction.tableKeys, List.length_map, List.length_range]
  have hspan : 0 < (span low high).toNat := by
    have hle := Int32.le_iff_toInt_le.mp hle
    unfold span
    omega
  rw [length_switchBytes h, Instruction.switchLength, hform] at hlength
  obtain ⟨distance, parts, hdistance, hparts, rfl⟩ := switchBytes_table hform h
  have hparts : List.Forall₂ (fun key part => ∃ distance,
      labels.Measures offset (s.target key) distance ∧ part = [] ++ distance) s.keys parts := by
    rw [hkeys]
    exact hparts.imp fun key part hpart => ⟨part, hpart, rfl⟩
  obtain ⟨hfallback, rfl⟩ := hdistance.place
  obtain ⟨htargets, rfl⟩ := eq_map_of_measures hparts
  use hfallback, htargets
  have hflatten : (s.keys.map fun key =>
      [] ++ distanceBytes ((labels.place (s.target key) : Int) - offset)).flatten
      = (s.keys.map fun key => Int32.ofInt ((labels.place (s.target key) : Int) - offset)).flatMap
        fun distance => Bytes.ofUInt32 distance.toUInt32 := by
    rw [List.flatMap_map, List.flatMap_def]
    rfl
  rw [operands, hform, hflatten, switchHead, List.cons_append, List.cons_append]
  apply Decoded.exists_standsIn (show Opcode.Takes Opcode.tableswitch .table by decide)
  apply Operands.standsIn_table
  · rw [List.length_map, hcount]
  · rw [List.length_map, hcount]
    apply hspan
  · rw [List.length_map, hcount]
    dsimp only at hlength
    omega

/-- The bytes of a lookup are read back as its operands, and all of its targets have places. -/
theorem exists_standsIn_lookup (hform : s.form = .lookup)
    (h : Instruction.switchBytes s offset labels = .ok bytes) (hlength : bytes.length ≤ 65535) :
  labels.resolve s.fallback = .ok (labels.place s.fallback)
    ∧ (∀ c ∈ s.cases, labels.resolve c.2 = .ok (labels.place c.2))
    ∧ ∃ name, (⟨name, s.operands offset labels.place⟩ : Decoded).StandsIn offset bytes
  := by
  rw [length_switchBytes h, Instruction.switchLength, hform] at hlength
  obtain ⟨distance, parts, hdistance, hparts, rfl⟩ := switchBytes_lookup hform h
  obtain ⟨hfallback, rfl⟩ := hdistance.place
  obtain ⟨htargets, rfl⟩ := eq_map_of_measures hparts
  use hfallback, htargets
  have hflatten : (s.cases.map fun c => Bytes.ofUInt32 c.1.toUInt32
      ++ distanceBytes ((labels.place c.2 : Int) - offset)).flatten
      = (s.cases.map fun c => (c.1, Int32.ofInt ((labels.place c.2 : Int) - offset))).flatMap
        fun c => Bytes.ofUInt32 c.1.toUInt32 ++ Bytes.ofUInt32 c.2.toUInt32 := by
    rw [List.flatMap_map, List.flatMap_def]
    rfl
  have hcount : s.cases.length
      = (s.cases.map fun c => (c.1, Int32.ofInt ((labels.place c.2 : Int) - offset))).length := by
    rw [List.length_map]
  rw [operands, hform, hflatten, hcount, switchHead, List.cons_append, List.cons_append]
  apply Decoded.exists_standsIn (show Opcode.Takes Opcode.lookupswitch .lookup by decide)
  apply Operands.standsIn_lookup
  rw [← hcount]
  dsimp only at hlength
  omega

/-- A switch is read back with the distances to its targets. -/
theorem exists_standsIn (hs : ofCases fallback cases = .ok s)
    (h : Instruction.switchBytes s offset labels = .ok bytes) (hlength : bytes.length ≤ 65535) :
  (∀ l ∈ (Instruction.switch s).targets, labels.resolve l = .ok (labels.place l))
    ∧ ∃ name, (⟨name, s.operands offset labels.place⟩ : Decoded).StandsIn offset bytes
  := by
  obtain ⟨-, -, hsorted, hform⟩ := ofCases_eq_ok hs
  have htargets (hfallback : labels.resolve s.fallback = .ok (labels.place s.fallback))
      (hcases : ∀ c ∈ s.cases, labels.resolve c.2 = .ok (labels.place c.2)) :
      ∀ l ∈ (Instruction.switch s).targets, labels.resolve l = .ok (labels.place l) := by
    intro l hl
    obtain rfl | hl := List.mem_cons.mp hl
    · apply hfallback
    · obtain ⟨c, hc, rfl⟩ := List.mem_map.mp hl
      apply hcases c hc
  cases hkind : s.form with
  | table low high =>
      obtain ⟨⟨first, hfirst⟩, -⟩ := formFor_eq_table (hform.symm.trans hkind)
      obtain ⟨hlow, hhigh⟩ :=
        le_of_formFor hsorted (hform.symm.trans hkind) (List.mem_of_head? hfirst)
      obtain ⟨hfallback, hkeys, hread⟩ :=
        exists_standsIn_table hkind (Int32.le_trans hlow hhigh) h hlength
      refine ⟨htargets hfallback ?_, hread⟩
      intro c hc
      have hplace := hkeys c.1 (mem_keys hsorted hform hc)
      rwa [target_of_mem hsorted hc] at hplace
  | lookup =>
      obtain ⟨hfallback, hcases, hread⟩ := exists_standsIn_lookup hkind h hlength
      use htargets hfallback hcases

end

end Switch

/-! ### What is shown -/

section

variable {offset place : Nat}

theorem showTarget_ofInt (hoffset : offset ≤ 65535) (hplace : place ≤ 65535) :
  showTarget offset (Int32.ofInt ((place : Int) - offset)) = toString place
  := by
  rw [showTarget, Int32.toInt_ofInt_of_le (by omega) (by omega), Int.add_comm,
    Int.sub_add_cancel]
  rfl

theorem showTarget_near (hlow : -32768 ≤ (place : Int) - offset)
    (hhigh : (place : Int) - offset ≤ 32767) :
  showTarget offset (Int16.ofInt ((place : Int) - offset)).toInt32 = toString place
  := by
  rw [showTarget, Int16.toInt_toInt32, Int16.toInt_ofInt_of_le (by omega) (by omega),
    Int.add_comm, Int.sub_add_cancel]
  rfl

/-- The line of a branch ends with the place of its target. -/
theorem CodeItem.lines?_near (file : ClassFile) (name : String)
    (hlow : -32768 ≤ (place : Int) - offset) (hhigh : (place : Int) - offset ≤ 32767) :
  (instruction offset ⟨name, .near (Int16.ofInt ((place : Int) - offset))⟩).lines? file
    = some [⟨0, toString offset ++ ": " ++ (name ++ " " ++ toString place)⟩]
  := by
  rw [lines?, Operands.text?, showTarget_near hlow hhigh]
  simp [Operands.cases]

end

namespace Switch

variable {s : Switch} {offset : Nat} {place : Label → Nat}

/-- The texts below a switch whose labels are at the places. -/
def caseTexts (s : Switch) (place : Label → Nat) : List String :=
  (s.keys.map fun key => toString key.toInt ++ ": " ++ toString (place (s.target key)))
    ++ ["default: " ++ toString (place s.fallback)]

/-- The cases of a table are shown with their keys and the places of their targets. -/
theorem tableCases_keys {low high : Int32} (hoffset : offset ≤ 65535)
    (hplace : ∀ key, place (s.target key) ≤ 65535) :
  tableCases offset low ((Instruction.tableKeys low high).map fun key =>
      Int32.ofInt ((place (s.target key) : Int) - offset))
    = (Instruction.tableKeys low high).map fun key =>
      toString key.toInt ++ ": " ++ toString (place (s.target key))
  := by
  apply List.ext_getElem
  · simp [tableCases]
  · intro i hi hi'
    have hlt : i < (span low high).toNat := by
      simpa [Instruction.tableKeys] using hi'
    simp only [tableCases, List.getElem_mapIdx, List.getElem_map, Instruction.tableKeys,
      List.getElem_range, toInt_ofInt_tableKey hlt, showTarget_ofInt hoffset (hplace _)]

/-- Below a switch stand the places of its targets. -/
theorem cases_operands (hsorted : s.cases.Pairwise fun a b => a.1 < b.1)
    (hoffset : offset ≤ 65535) (hplace : ∀ l ∈ (Instruction.switch s).targets, place l ≤ 65535) :
  (s.operands offset place).cases offset = s.caseTexts place
  := by
  have htarget (key : Int32) : place (s.target key) ≤ 65535 :=
    hplace _ (getD_lookup_mem s.cases s.fallback key)
  have hfallback : place s.fallback ≤ 65535 := hplace _ List.mem_cons_self
  cases hform : s.form with
  | table low high =>
      simp only [operands, keys, caseTexts, hform, Operands.cases, fallbackText,
        tableCases_keys hoffset htarget, showTarget_ofInt hoffset hfallback]
  | lookup =>
      simp only [operands, keys, caseTexts, hform, Operands.cases, fallbackText, List.map_map,
        showTarget_ofInt hoffset hfallback]
      congr 1
      apply List.map_congr_left
      intro c hc
      have hc' := htarget c.1
      rw [target_of_mem hsorted hc] at hc'
      change caseText offset c.1 (Int32.ofInt ((place c.2 : Int) - offset))
        = toString c.1.toInt ++ ": " ++ toString (place (s.target c.1))
      rw [target_of_mem hsorted hc, caseText, showTarget_ofInt hoffset hc']

/-- The line of a switch, with the places of its targets below. -/
theorem exists_lines? (hsorted : s.cases.Pairwise fun a b => a.1 < b.1)
    (hoffset : offset ≤ 65535) (hplace : ∀ l ∈ (Instruction.switch s).targets, place l ≤ 65535)
    (name : String) :
  ∃ text, ∀ file, (CodeItem.instruction offset ⟨name, s.operands offset place⟩).lines? file
    = some (⟨0, toString offset ++ ": " ++ text⟩ :: (s.caseTexts place).map fun text => ⟨1, text⟩)
  := by
  have htext : ∃ text, ∀ file, (s.operands offset place).text? file offset = some text := by
    unfold operands
    split
    · exact ⟨_, fun _ => rfl⟩
    · exact ⟨_, fun _ => rfl⟩
  obtain ⟨text, htext⟩ := htext
  use if text.isEmpty then name else name ++ " " ++ text
  intro file
  rw [CodeItem.lines?, htext, cases_operands hsorted hoffset hplace]
  rfl

end Switch

end ClassForge
