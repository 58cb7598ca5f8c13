import ClassForge.Proofs.Linking.Assembly

/-!
# Switches in bytes

How the bytes of a switch are carried out: the operands start at the next multiple of four and
hold a distance for every key, in a table or in pairs, with another distance for all keys that
have none. For the bytes that a switch is encoded to, this leads from wherever the switch stands
to the offset of the label that the cases have for the key. Of the forms that can hold the cases,
a switch has one that takes the fewest bytes.
-/

namespace ClassForge

/-! ### Carrying out a switch -/

/-- Where the operands of a switch at `offset` start: at the next multiple of four. -/
def operandsAt (offset : Nat) : Nat :=
  (offset / 4 + 1) * 4

/-- The distance in a table, with operands at `base`. A key before the first or after the last
has no entry. -/
def tableDistance? (code : List UInt8) (base : Nat) (key : Int32) : Option UInt32 := do
  let low ← Bytes.uint32At? code (base + 4)
  let high ← Bytes.uint32At? code (base + 8)
  if key < low.toInt32 ∨ high.toInt32 < key then
    Bytes.uint32At? code base
  else
    Bytes.uint32At? code (base + 12 + 4 * (key.toInt - low.toInt32.toInt).toNat)

/-- The distance in the first of `count` pairs from `place` on that has the key. -/
def pairDistance? (code : List UInt8) (key : Int32) (fallback : UInt32) :
    Nat → Nat → Option UInt32
  | 0, _ => some fallback
  | count + 1, place => do
    let found ← Bytes.uint32At? code place
    if found.toInt32 = key then Bytes.uint32At? code (place + 4)
    else pairDistance? code key fallback count (place + 8)

/-- The distance in pairs, with operands at `base`. -/
def lookupDistance? (code : List UInt8) (base : Nat) (key : Int32) : Option UInt32 := do
  let fallback ← Bytes.uint32At? code base
  let count ← Bytes.uint32At? code (base + 4)
  pairDistance? code key fallback count.toNat (base + 8)

/-- Where the switch at `offset` goes to on a key. Offsets and distances have 32 bits. -/
def switchTarget? (code : List UInt8) (offset : Nat) (key : Int32) : Option Nat := do
  let opcode ← code[offset]?
  let distance ←
    if opcode = Opcode.tableswitch then tableDistance? code (operandsAt offset) key
    else if opcode = Opcode.lookupswitch then lookupDistance? code (operandsAt offset) key
    else none
  return (UInt32.ofNat offset + distance).toNat

theorem operandsAt_eq (offset : Nat) :
  operandsAt offset = offset + 1 + switchPadding offset
  := by
  unfold operandsAt switchPadding
  omega

/-- The distance from an offset to a place. -/
def distanceTo (offset place : Nat) : UInt32 :=
  (Int32.ofInt ((place : Int) - offset)).toUInt32

/-- The distance leads from the offset to the place, modulo 2^32. -/
theorem add_distanceTo (offset : Nat) {place : Nat} (hplace : place ≤ 65535) :
  (UInt32.ofNat offset + distanceTo offset place).toNat = place
  := by
  have hdistance : (distanceTo offset place).toNat
      = (((place : Int) - offset) % (4294967296 : Nat)).toNat :=
    BitVec.toNat_ofInt ((place : Int) - offset)
  rw [UInt32.toNat_add, UInt32.toNat_ofNat', hdistance]
  omega

theorem LabelTable.Measures.eq_distanceTo {labels : LabelTable} {offset place : Nat} {l : Label}
    {bytes : List UInt8} (h : labels.Measures offset l bytes)
    (hplace : labels.resolve l = .ok place) :
  bytes = Bytes.ofUInt32 (distanceTo offset place)
  := by
  obtain ⟨place', hplace', rfl⟩ := h
  obtain rfl := Except.ok.inj (hplace.symm.trans hplace')
  rfl

/-! ### Reading back the bytes of a switch -/

section

variable {s : Switch} {offset : Nat} {labels : LabelTable} {place : Label → Nat}
  {bytes before : List UInt8} (after : List UInt8)

/-- The distances of a switch can be read at their places in the code. -/
theorem uint32At?_distanceField (h : Instruction.switchBytes s offset labels = .ok bytes)
    (hbefore : before.length = offset) {index : Nat} {l : Label}
    (hfield : (index, l) ∈ s.distanceFields offset) (hplace : labels.resolve l = .ok (place l)) :
  Bytes.uint32At? (before ++ bytes ++ after) index = some (distanceTo offset (place l))
  := by
  obtain ⟨front, distance, back, hdistance, rfl, hfront⟩ := switchBytes_eq_ok h hfield
  rw [hdistance.eq_distanceTo hplace]
  apply Bytes.uint32At?_of_eq (before ++ front) (back ++ after)
  · simp
  · rw [List.length_append, hbefore, hfront]

/-- The distance of a key within the bounds of a table stands in the table at the place of the key.
-/
theorem mem_distanceFields_table {low high key : Int32} (hform : s.form = .table low high)
    (hlow : low ≤ key) (hhigh : key ≤ high) :
  (operandsAt offset + 12 + 4 * (key.toInt - low.toInt).toNat, s.target key)
    ∈ s.distanceFields offset
  := by
  unfold Switch.distanceFields
  simp only [hform, operandsAt_eq]
  apply List.mem_cons_of_mem
  obtain ⟨hindex, hkey⟩ :=
    List.getElem?_eq_some_iff.mp (Switch.getElem?_tableKeys hlow hhigh)
  apply List.mem_mapIdx.mpr
  use (key.toInt - low.toInt).toNat, hindex
  rw [hkey]

theorem mem_distanceFields_fallback :
  (operandsAt offset, s.fallback) ∈ s.distanceFields offset
  := by
  rw [operandsAt_eq]
  apply List.mem_cons_self

/-- A table starts with its first and last key. -/
theorem uint32At?_tableBounds {low high : Int32} (hform : s.form = .table low high)
    (h : Instruction.switchBytes s offset labels = .ok bytes) (hbefore : before.length = offset) :
  Bytes.uint32At? (before ++ bytes ++ after) (operandsAt offset + 4) = some low.toUInt32
    ∧ Bytes.uint32At? (before ++ bytes ++ after) (operandsAt offset + 8) = some high.toUInt32
  := by
  obtain ⟨fallback, targets, hfallback, -, rfl⟩ := switchBytes_table hform h
  constructor
  · apply Bytes.uint32At?_of_eq (before ++ switchHead Opcode.tableswitch offset ++ fallback)
      (Bytes.ofUInt32 high.toUInt32 ++ targets.flatten ++ after)
    · simp
    · simp [hbefore, length_switchHead, hfallback.length, operandsAt_eq, Nat.add_assoc]
  · apply Bytes.uint32At?_of_eq (before ++ switchHead Opcode.tableswitch offset ++ fallback
      ++ Bytes.ofUInt32 low.toUInt32) (targets.flatten ++ after)
    · simp
    · simp [hbefore, length_switchHead, hfallback.length, operandsAt_eq, Nat.add_assoc,
        Bytes.ofUInt32]

/-- A key beyond the bounds of all cases goes to the default. -/
theorem Switch.target_eq_fallback {low high key : Int32}
    (hkeys : ∀ c ∈ s.cases, low ≤ c.1 ∧ c.1 ≤ high) (hkey : key < low ∨ high < key) :
  s.target key = s.fallback
  := by
  have hnone : s.cases.lookup key = none := by
    apply List.lookup_eq_none_iff.mpr
    intro c hc
    apply bne_iff_ne.mpr
    rintro rfl
    obtain hlow | hhigh := hkey
    · apply Int32.not_lt.mpr (hkeys c hc).1 hlow
    · apply Int32.not_lt.mpr (hkeys c hc).2 hhigh
  rw [target, hnone, Option.getD_none]

/-- In a table that has the keys of all cases, every key finds the distance to its target. -/
theorem tableDistance?_switchBytes {low high : Int32} (hform : s.form = .table low high)
    (hkeys : ∀ c ∈ s.cases, low ≤ c.1 ∧ c.1 ≤ high)
    (h : Instruction.switchBytes s offset labels = .ok bytes) (hbefore : before.length = offset)
    (hplaces : ∀ l ∈ (Instruction.switch s).targets, labels.resolve l = .ok (place l))
    (key : Int32) :
  tableDistance? (before ++ bytes ++ after) (operandsAt offset) key
    = some (distanceTo offset (place (s.target key)))
  := by
  obtain ⟨hlow, hhigh⟩ := uint32At?_tableBounds after hform h hbefore
  rw [tableDistance?, hlow, hhigh]
  simp only [Option.bind_eq_bind, Option.bind_some, Int32.toInt32_toUInt32]
  split
  · next houtside =>
    rw [Switch.target_eq_fallback hkeys houtside]
    apply uint32At?_distanceField after h hbefore mem_distanceFields_fallback
    apply hplaces s.fallback List.mem_cons_self
  · next hinside =>
    rw [not_or, Int32.not_lt, Int32.not_lt] at hinside
    apply uint32At?_distanceField after h hbefore
      (mem_distanceFields_table hform hinside.1 hinside.2)
    apply hplaces
    apply Switch.getD_lookup_mem

/-- Pairs are searched from the first to the last. -/
theorem pairDistance?_append {cases : List (Int32 × Label)} {pairs : List (List UInt8)}
    (hpairs : List.Forall₂ (fun c pair => ∃ distance, labels.Measures offset c.2 distance
      ∧ pair = Bytes.ofUInt32 c.1.toUInt32 ++ distance) cases pairs)
    (hplaces : ∀ c ∈ cases, labels.resolve c.2 = .ok (place c.2)) (key : Int32) (fallback : Label)
    (before : List UInt8) :
  pairDistance? (before ++ pairs.flatten ++ after) key (distanceTo offset (place fallback))
      cases.length before.length
    = some (distanceTo offset (place ((cases.lookup key).getD fallback)))
  := by
  induction hpairs generalizing before with
  | nil => rfl
  | @cons c pair cases pairs hpair _ ih =>
      obtain ⟨distance, hdistance, rfl⟩ := hpair
      obtain rfl := hdistance.eq_distanceTo (hplaces c List.mem_cons_self)
      rw [List.length_cons, List.flatten_cons, pairDistance?]
      have hkey : Bytes.uint32At? (before ++ (Bytes.ofUInt32 c.1.toUInt32
          ++ Bytes.ofUInt32 (distanceTo offset (place c.2)) ++ pairs.flatten) ++ after)
          before.length = some c.1.toUInt32 := by
        apply Bytes.uint32At?_of_eq before
          (Bytes.ofUInt32 (distanceTo offset (place c.2)) ++ pairs.flatten ++ after)
        · simp
        · rfl
      rw [hkey]
      simp only [Option.bind_eq_bind, Option.bind_some, Int32.toInt32_toUInt32]
      split
      · next heq =>
        subst heq
        rw [List.lookup_cons_self]
        apply Bytes.uint32At?_of_eq (before ++ Bytes.ofUInt32 c.1.toUInt32) (pairs.flatten ++ after)
        · simp
        · simp [Bytes.ofUInt32]
      · next hne =>
        have hnext := ih (fun c hc => hplaces c (List.mem_cons_of_mem _ hc))
          (before ++ Bytes.ofUInt32 c.1.toUInt32 ++ Bytes.ofUInt32 (distanceTo offset (place c.2)))
        have hlookup : (c :: cases).lookup key = cases.lookup key := by
          rw [List.lookup_cons, beq_false_of_ne (Ne.symm hne)]
        rw [hlookup, ← hnext]
        simp [Bytes.ofUInt32]

/-- In pairs, every key finds the distance to its target. -/
theorem lookupDistance?_switchBytes (hform : s.form = .lookup)
    (hcount : s.cases.length < 4294967296)
    (h : Instruction.switchBytes s offset labels = .ok bytes) (hbefore : before.length = offset)
    (hplaces : ∀ l ∈ (Instruction.switch s).targets, labels.resolve l = .ok (place l))
    (key : Int32) :
  lookupDistance? (before ++ bytes ++ after) (operandsAt offset) key
    = some (distanceTo offset (place (s.target key)))
  := by
  have hother := uint32At?_distanceField after h hbefore mem_distanceFields_fallback
    (hplaces s.fallback List.mem_cons_self)
  rw [lookupDistance?, hother]
  obtain ⟨fallback, pairs, hfallback, hpairs, rfl⟩ := switchBytes_lookup hform h
  have hcountAt : Bytes.uint32At? (before ++ (switchHead Opcode.lookupswitch offset ++ fallback
      ++ (Bytes.ofUInt32 (UInt32.ofNat s.cases.length) ++ pairs.flatten)) ++ after)
      (operandsAt offset + 4) = some (UInt32.ofNat s.cases.length) := by
    apply Bytes.uint32At?_of_eq (before ++ switchHead Opcode.lookupswitch offset ++ fallback)
      (pairs.flatten ++ after)
    · simp
    · simp [hbefore, length_switchHead, hfallback.length, operandsAt_eq, Nat.add_assoc]
  rw [hcountAt]
  simp only [Option.bind_eq_bind, Option.bind_some]
  rw [UInt32.toNat_ofNat_of_lt' hcount]
  have hsearch := pairDistance?_append after hpairs
    (fun c hc => hplaces c.2 (List.mem_cons_of_mem _ (List.mem_map_of_mem hc))) key s.fallback
    (before ++ switchHead Opcode.lookupswitch offset ++ fallback
      ++ Bytes.ofUInt32 (UInt32.ofNat s.cases.length))
  rw [Switch.target, ← hsearch]
  simp [hbefore, length_switchHead, hfallback.length, operandsAt_eq, Nat.add_assoc, Bytes.ofUInt32]

end

/-! ### Forms -/

/-- The form has a place for the key of every case. -/
def SwitchForm.Holds (cases : List (Int32 × Label)) : SwitchForm → Prop
  | .table low high => ∀ c ∈ cases, low ≤ c.1 ∧ c.1 ≤ high
  | .lookup => True

theorem SwitchForm.Holds.perm {form : SwitchForm} {cases cases' : List (Int32 × Label)}
    (h : form.Holds cases) (hperm : cases'.Perm cases) :
  form.Holds cases'
  := by
  cases form with
  | table low high => exact fun c hc => h c (hperm.mem_iff.mp hc)
  | lookup => trivial

namespace Switch

variable {cases : List (Int32 × Label)} {low high : Int32}

theorem span_le_span {low' high' : Int32} (hlow : low' ≤ low) (hhigh : high ≤ high') :
  span low high ≤ span low' high'
  := by
  rw [Int32.le_iff_toInt_le] at hlow hhigh
  unfold span
  omega

/-- Every table with a place for the cases is longer where pairs are chosen. -/
theorem lt_of_formFor_lookup (h : formFor cases = .lookup)
    (hholds : (SwitchForm.table low high).Holds cases) :
  8 * cases.length < 4 + 4 * (span low high).toNat
  := by
  unfold formFor at h
  split at h
  · next low' _ high' _ hfirst hlast =>
    have hspan : span low' high' ≤ span low high := by
      apply span_le_span
      · apply (hholds _ (List.mem_of_head? hfirst)).1
      · apply (hholds _ (List.mem_of_getLast? hlast)).2
    split at h
    · contradiction
    · omega
  · next hnone =>
    cases cases with
    | nil =>
        rw [List.length_nil]
        omega
    | cons c cases =>
        exact absurd (List.getLast?_cons ..) (hnone _ _ _ _ rfl)

/-- There are never too many pairs for their number to be written down. -/
theorem length_lt_of_formFor_lookup (h : formFor cases = .lookup) :
  cases.length < 4294967296
  := by
  have hall : (SwitchForm.table Int32.minValue Int32.maxValue).Holds cases :=
    fun c _ => ⟨c.1.minValue_le, c.1.le_maxValue⟩
  have hlt := lt_of_formFor_lookup h hall
  have hspan : (span Int32.minValue Int32.maxValue).toNat = 4294967296 := by decide
  omega

/-- No form with a place for the cases takes fewer bytes than the one chosen for them. -/
theorem switchLength_formFor_le (fallback : Label) {form : SwitchForm} (hholds : form.Holds cases)
    (offset : Nat) :
  Instruction.switchLength ⟨fallback, cases, formFor cases⟩ offset
    ≤ Instruction.switchLength ⟨fallback, cases, form⟩ offset
  := by
  unfold Instruction.switchLength
  apply Nat.add_le_add_left
  cases hchosen : formFor cases with
  | table low high =>
      obtain ⟨⟨first, hfirst⟩, ⟨last, hlast⟩, hle⟩ := formFor_eq_table hchosen
      cases form with
      | table low' high' =>
          have hspan : span low high ≤ span low' high' := by
            apply span_le_span
            · apply (hholds _ (List.mem_of_head? hfirst)).1
            · apply (hholds _ (List.mem_of_getLast? hlast)).2
          simp only
          omega
      | lookup =>
          have hpos := List.length_pos_of_mem (List.mem_of_head? hfirst)
          simp only
          omega
  | lookup =>
      cases form with
      | table low' high' =>
          have hlt := lt_of_formFor_lookup hchosen hholds
          simp only
          omega
      | lookup => apply Nat.le_refl

end Switch

/-! ### Dispatch -/

/-- The bytes of a switch made from cases lead from its offset to the places of its labels. -/
theorem switchTarget?_switchBytes {fallback : Label} {cases : List (Int32 × Label)} {s : Switch}
    {offset : Nat} {labels : LabelTable} {place : Label → Nat} {bytes before : List UInt8}
    (hs : Switch.ofCases fallback cases = .ok s)
    (h : Instruction.switchBytes s offset labels = .ok bytes)
    (hplaces : ∀ l ∈ (Instruction.switch s).targets,
      labels.resolve l = .ok (place l) ∧ place l ≤ 65535)
    (hbefore : before.length = offset) (after : List UInt8) (key : Int32) :
  switchTarget? (before ++ bytes ++ after) offset key = some (place (s.target key))
  := by
  obtain ⟨-, -, hsorted, hform⟩ := Switch.ofCases_eq_ok hs
  have hresolve : ∀ l ∈ (Instruction.switch s).targets, labels.resolve l = .ok (place l) :=
    fun l hl => (hplaces l hl).1
  have hland : (UInt32.ofNat offset + distanceTo offset (place (s.target key))).toNat
      = place (s.target key) := by
    apply add_distanceTo
    apply (hplaces _ (Switch.getD_lookup_mem s.cases s.fallback key)).2
  unfold switchTarget?
  cases hchosen : s.form with
  | table low high =>
      have hkeys : ∀ c ∈ s.cases, low ≤ c.1 ∧ c.1 ≤ high :=
        fun c hc => Switch.le_of_formFor hsorted (hform.symm.trans hchosen) hc
      have hdistance := tableDistance?_switchBytes after hchosen hkeys h hbefore hresolve key
      have hopcode : (before ++ bytes ++ after)[offset]? = some Opcode.tableswitch := by
        obtain ⟨fallback, targets, -, -, rfl⟩ := switchBytes_table hchosen h
        simp [switchHead, ← hbefore]
      rw [hopcode]
      simp only [Option.bind_eq_bind, Option.bind_some, if_true, hdistance]
      rw [hland]
      rfl
  | lookup =>
      have hcount := Switch.length_lt_of_formFor_lookup (hform.symm.trans hchosen)
      have hdistance := lookupDistance?_switchBytes after hchosen hcount h hbefore hresolve key
      have hopcode : (before ++ bytes ++ after)[offset]? = some Opcode.lookupswitch := by
        obtain ⟨fallback, pairs, -, -, rfl⟩ := switchBytes_lookup hchosen h
        simp [switchHead, ← hbefore]
      rw [hopcode]
      have hother : Opcode.lookupswitch ≠ Opcode.tableswitch := by decide
      simp only [Option.bind_eq_bind, Option.bind_some, if_neg hother, if_true, hdistance]
      rw [hland]
      rfl

/-- Two cases far apart, the greater key first. -/
def farCases : List (Int32 × Label) := [(1000, ⟨"far"⟩), (-5, ⟨"near"⟩)]

end ClassForge
