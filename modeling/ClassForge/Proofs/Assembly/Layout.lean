import ClassForge.Method.Assemble
import ClassForge.Proofs.Outcome
import ClassForge.Proofs.Switch

/-!
# Layout

The layout of some code has an offset for each instruction and one for the end. Each
instruction is followed by the next at the distance of its size, as far as 32 bits hold it; they
do where no switch has 2^28 cases. A label that stands in the code stands there once and is bound
to its offset, and no other label is bound.
-/

namespace ClassForge

theorem LabelTable.resolve_eq_ok {table : LabelTable} {l : Label} {offset : Nat} :
  table.resolve l = .ok offset ↔ table.offsets[l]? = some offset
  := by
  unfold LabelTable.resolve
  cases table.offsets[l]? <;> simp

/-! ### Sizes -/

/-- Two opcodes are enough for every conversion. -/
theorem length_conversionOpcodes_le (source target : Primitive) :
  (conversionOpcodes source target).length ≤ 2
  := by
  have hstep : (conversionStep? source.kind target.kind).toList.length ≤ 1 :=
    Option.length_toList_le
  have hnarrow : (narrowing? target).toList.length ≤ 1 := Option.length_toList_le
  rw [conversionOpcodes, List.length_append]
  split
  · exact Nat.le_trans hstep (by decide)
  · apply Nat.add_le_add hstep hnarrow

/-- For an instruction that is no switch at most six bytes are reserved. -/
theorem Instruction.size_le {pool : FrozenPool} {i : Instruction} {offset n : Nat}
    (hswitch : ∀ s, i ≠ .switch s) (h : i.size pool offset = .ok n) :
  n ≤ 6
  := by
  cases i with
  | switch s => apply absurd rfl (hswitch s)
  | constant c =>
      simp only [Instruction.size, Instruction.constantSize] at h
      split at h
      case h_5 =>
          obtain ⟨index, -, h⟩ := Except.bind_eq_ok_iff.mp h
          obtain rfl := Except.ok.inj h
          split <;> decide
      all_goals
        obtain rfl := Except.ok.inj h
        decide
  | convert source target =>
      obtain rfl := Except.ok.inj h
      apply Nat.le_trans (length_conversionOpcodes_le source target) (by decide)
  | _ =>
      obtain rfl := Except.ok.inj h
      repeat' split
      all_goals decide

/-- A size is a number of 32 bits. -/
theorem Instruction.size_lt_wrap {pool : FrozenPool} {i : Instruction} {offset n : Nat}
    (h : i.size pool offset = .ok n) :
  n < 4294967296
  := by
  by_cases hswitch : ∃ s, i = .switch s
  · obtain ⟨s, rfl⟩ := hswitch
    obtain rfl := Except.ok.inj h
    apply Nat.mod_lt _ (by decide)
  · have hle := Instruction.size_le (fun s hs => hswitch ⟨s, hs⟩) h
    omega

/-- Without large switches, sizes are far from what 32 bits cannot hold. -/
theorem Instruction.size_lt {pool : FrozenPool} {i : Instruction} {offset n : Nat}
    (hmade : ∀ s, i = .switch s → s.Moderate) (h : i.size pool offset = .ok n) :
  n < 2147483660
  := by
  by_cases hswitch : ∃ s, i = .switch s
  · obtain ⟨s, rfl⟩ := hswitch
    obtain rfl := Except.ok.inj h
    apply Nat.lt_of_le_of_lt (Nat.mod_le _ _) ((hmade s rfl).switchLength_lt offset)
  · have hle := Instruction.size_le (fun s hs => hswitch ⟨s, hs⟩) h
    omega

namespace Layout

/-! ### One more instruction -/

theorem bindLabel_label (labels : LabelTable) (offset : Nat) (l : Label) :
  bindLabel labels offset (.label l)
    = if l ∈ labels.offsets then .error (.duplicateLabel l)
      else .ok ⟨labels.offsets.insert l offset⟩
  := by
  by_cases h : l ∈ labels.offsets <;> simp [bindLabel, LabelTable.bind, h]

theorem bindLabel_of_ne {i : Instruction} (h : ∀ l, i ≠ .label l) (labels : LabelTable)
    (offset : Nat) :
  bindLabel labels offset i = .ok labels
  := by
  cases i with
  | label l => apply absurd rfl (h l)
  | _ => rfl

/-- A label that could be bound was not bound before. -/
theorem not_mem_of_bindLabel {labels labels' : LabelTable} {offset : Nat} {l : Label}
    (h : bindLabel labels offset (.label l) = .ok labels') :
  l ∉ labels.offsets
  := by
  intro hmem
  rw [bindLabel_label, if_pos hmem] at h
  contradiction

/-- The labels that are bound after an instruction. -/
theorem getElem?_of_bindLabel {labels labels' : LabelTable} {offset : Nat} {i : Instruction}
    (h : bindLabel labels offset i = .ok labels') (l : Label) :
  labels'.offsets[l]? = if i = .label l then some offset else labels.offsets[l]?
  := by
  cases i with
  | label l' =>
      have hmem := not_mem_of_bindLabel h
      rw [bindLabel_label, if_neg hmem] at h
      obtain rfl := Except.ok.inj h
      simp [Std.HashMap.getElem?_insert]
  | _ =>
      obtain rfl := Except.ok.inj h
      simp

variable {pool : FrozenPool} {code : List Instruction} {i : Instruction} {layout layout' : Layout}

/-- What one more instruction does to a layout: its label is bound to its offset, and its size is
reserved after it. -/
theorem add_eq_ok (h : layout.add pool i = .ok layout') :
  ∃ labels size, bindLabel layout.labels layout.size i = .ok labels
    ∧ i.size pool layout.size = .ok size ∧ wrap32 (layout.size + size) ≤ 65535
    ∧ layout' = ⟨layout.count + 1, layout.size :: layout.offsets, wrap32 (layout.size + size),
      labels⟩
  := by
  obtain ⟨count, offsets, offset, labels⟩ := layout
  obtain ⟨labels', hlabels, h⟩ := Except.bind_eq_ok_iff.mp (Except.mapError_eq_ok_iff.mp h)
  obtain ⟨size, hsize, h⟩ := Except.bind_eq_ok_iff.mp h
  use labels', size, hlabels, hsize
  simp only at h
  split at h
  · contradiction
  · next hle =>
    use Nat.le_of_not_lt hle
    apply (Except.ok.inj h).symm

theorem boundaries_eq (layout : Layout) :
  layout.boundaries = layout.offsets.reverse ++ [layout.size]
  := List.reverse_cons

/-! ### All instructions -/

/-- The layout has offsets for the instructions of some code and the labels among them. -/
structure Covers (pool : FrozenPool) (code : List Instruction) (layout : Layout) : Prop where
  length : layout.boundaries.length = code.length + 1
  first : layout.boundaries[0]? = some 0
  last : layout.boundaries[code.length]? = some layout.size
  bounded : ∀ {k offset : Nat}, layout.boundaries[k]? = some offset → offset ≤ 65535
  step : ∀ {k i}, code[k]? = some i → ∃ offset size, layout.boundaries[k]? = some offset
    ∧ i.size pool offset = .ok size ∧ layout.boundaries[k + 1]? = some (wrap32 (offset + size))
  labels : ∀ {l : Label} {offset : Nat}, layout.labels.offsets[l]? = some offset
    ↔ ∃ k : Nat, code[k]? = some (.label l) ∧ layout.boundaries[k]? = some offset
  unique : ∀ {k k' : Nat} {l : Label}, code[k]? = some (.label l) →
    code[k']? = some (.label l) → k = k'

/-- The layout without instructions covers the code without instructions. -/
theorem covers_nil :
  Covers pool [] {}
  := by
  constructor
  · rfl
  · rfl
  · rfl
  · intro k offset h
    obtain rfl := List.mem_singleton.mp (List.mem_of_getElem? h)
    apply Nat.zero_le
  · intro k i h
    contradiction
  · intro l offset
    simp [LabelTable.empty]
  · intro k k' l h
    contradiction

/-- An element of a list with one more at the end is one of the list or the one at the end. -/
theorem getElem?_concat_iff {α : Type} {xs : List α} {x y : α} {k : Nat} :
  (xs ++ [y])[k]? = some x ↔ xs[k]? = some x ∨ k = xs.length ∧ y = x
  := by
  rw [List.getElem?_append]
  split
  · next hlt => simp [Nat.ne_of_lt hlt]
  · next hge =>
    rw [List.getElem?_singleton, List.getElem?_eq_none (Nat.le_of_not_lt hge)]
    simp only [reduceCtorEq, false_or, Option.ite_none_right_eq_some, Option.some.injEq]
    have hiff : k - xs.length = 0 ↔ k = xs.length := by omega
    rw [hiff]

/-- One more instruction brings one more boundary. -/
theorem boundaries_add (h : layout.add pool i = .ok layout') :
  layout'.boundaries = layout.boundaries ++ [layout'.size]
  := by
  obtain ⟨labels, size, -, -, -, rfl⟩ := add_eq_ok h
  rw [boundaries_eq, boundaries_eq, List.reverse_cons]

/-- The offsets before an instruction stay when it is added. -/
theorem getElem?_boundaries_add (h : layout.add pool i = .ok layout') {k x : Nat}
    (hk : layout.boundaries[k]? = some x) :
  layout'.boundaries[k]? = some x
  := by
  rw [boundaries_add h, getElem?_concat_iff]
  left
  apply hk

/-- A label that is bound after some code is none of the labels in it. -/
theorem Covers.ne_label (hcovers : Covers pool code layout) {labels : LabelTable} {offset : Nat}
    (hlabels : bindLabel layout.labels offset i = .ok labels) {k : Nat} {l : Label}
    (hk : code[k]? = some (.label l)) :
  i ≠ .label l
  := by
  rintro rfl
  obtain ⟨offset, -, hoffset, -, -⟩ := hcovers.step hk
  obtain ⟨hmem, -⟩ := Std.HashMap.getElem?_eq_some_iff.mp (hcovers.labels.mpr ⟨k, hk, hoffset⟩)
  apply not_mem_of_bindLabel hlabels hmem

/-- After one more instruction the labels are still bound to the offsets where they stand. -/
theorem Covers.labels_add (hcovers : Covers pool code layout) (h : layout.add pool i = .ok layout')
    {l : Label} {offset : Nat} :
  layout'.labels.offsets[l]? = some offset
    ↔ ∃ k : Nat, (code ++ [i])[k]? = some (.label l) ∧ layout'.boundaries[k]? = some offset
  := by
  have hlast := getElem?_boundaries_add h hcovers.last
  have hstays {k x : Nat} (hk : layout.boundaries[k]? = some x) :
      layout'.boundaries[k]? = some x := getElem?_boundaries_add h hk
  obtain ⟨labels, size, hlabels, -, -, rfl⟩ := add_eq_ok h
  rw [getElem?_of_bindLabel hlabels]
  split
  · next hi =>
    subst hi
    constructor
    · intro hoffset
      obtain rfl := Option.some.inj hoffset
      use code.length, getElem?_concat_iff.mpr (.inr ⟨rfl, rfl⟩)
    · rintro ⟨k, hk, hoffset⟩
      obtain hk | ⟨rfl, -⟩ := getElem?_concat_iff.mp hk
      · apply absurd rfl (hcovers.ne_label hlabels hk)
      · rw [← hlast, hoffset]
  · next hi =>
    rw [hcovers.labels]
    constructor
    · rintro ⟨k, hk, hoffset⟩
      use k, getElem?_concat_iff.mpr (.inl hk), hstays hoffset
    · rintro ⟨k, hk, hoffset⟩
      obtain hk | ⟨-, hi'⟩ := getElem?_concat_iff.mp hk
      · obtain ⟨offset', -, hoffset', -, -⟩ := hcovers.step hk
        rw [hstays hoffset'] at hoffset
        obtain rfl := Option.some.inj hoffset
        use k, hk
      · contradiction

/-- A layout that covers some code covers one more instruction after `add`. -/
theorem Covers.add (hcovers : Covers pool code layout) (h : layout.add pool i = .ok layout') :
  Covers pool (code ++ [i]) layout'
  := by
  have hboundaries := boundaries_add h
  obtain ⟨labels, size, hbind, hsize, hle, rfl⟩ := add_eq_ok h
  have hlast := hboundaries ▸ (getElem?_concat_iff.mpr (.inr ⟨hcovers.length.symm, rfl⟩))
  constructor
  case length =>
    rw [hboundaries, List.length_append, List.length_append, hcovers.length]
    rfl
  case first => apply getElem?_boundaries_add h hcovers.first
  case last =>
    rw [List.length_append]
    apply hlast
  case bounded =>
    intro k offset hoffset
    rw [hboundaries, getElem?_concat_iff] at hoffset
    obtain hoffset | ⟨-, rfl⟩ := hoffset
    · apply hcovers.bounded hoffset
    · apply hle
  case step =>
    intro k j hj
    obtain hj | ⟨rfl, rfl⟩ := getElem?_concat_iff.mp hj
    · obtain ⟨offset, size, hoffset, hj, hnext⟩ := hcovers.step hj
      use offset, size, getElem?_boundaries_add h hoffset, hj, getElem?_boundaries_add h hnext
    · use layout.size, size, getElem?_boundaries_add h hcovers.last, hsize, hlast
  case labels =>
    intro l offset
    apply hcovers.labels_add h
  case unique =>
    intro k k' l hk hk'
    obtain hk | ⟨rfl, hi⟩ := getElem?_concat_iff.mp hk
    · obtain hk' | ⟨rfl, hi⟩ := getElem?_concat_iff.mp hk'
      · apply hcovers.unique hk hk'
      · apply absurd hi (hcovers.ne_label hbind hk)
    · obtain hk' | ⟨rfl, -⟩ := getElem?_concat_iff.mp hk'
      · apply absurd hi (hcovers.ne_label hbind hk')
      · rfl

/-- What covers some code covers more of it after the rest has been laid out. -/
theorem Covers.addAll {rest : List Instruction} (hcovers : Covers pool code layout)
    (h : rest.foldlM (Layout.add pool) layout = .ok layout') :
  Covers pool (code ++ rest) layout'
  := by
  induction rest generalizing code layout with
  | nil =>
      obtain rfl := Except.ok.inj h
      rw [List.append_nil]
      apply hcovers
  | cons i rest ih =>
      rw [List.foldlM_cons] at h
      obtain ⟨layout₁, hadd, h⟩ := Except.bind_eq_ok_iff.mp h
      rw [List.append_cons]
      apply ih (hcovers.add hadd) h

/-- A layout that is found covers the code. -/
theorem covers_of (h : Layout.of pool code = .ok layout) :
  Covers pool code layout
  := covers_nil.addAll h

theorem Covers.size_le (hcovers : Covers pool code layout) :
  layout.size ≤ 65535
  := hcovers.bounded hcovers.last

/-! ### Code without large switches -/

/-- An instruction is followed by the next at the distance of its size. -/
theorem Covers.next (hcovers : Covers pool code layout) (hmade : SwitchesMade code) {k : Nat}
    (hk : code[k]? = some i) :
  ∃ offset size, layout.boundaries[k]? = some offset ∧ i.size pool offset = .ok size
    ∧ layout.boundaries[k + 1]? = some (offset + size)
  := by
  obtain ⟨offset, size, hoffset, hsize, hnext⟩ := hcovers.step hk
  have hbound := hcovers.bounded hoffset
  have hlt : size < 2147483660 := by
    apply Instruction.size_lt _ hsize
    rintro s rfl
    apply hmade s (List.mem_of_getElem? hk)
  rw [wrap32, Nat.mod_eq_of_lt (by omega)] at hnext
  exact ⟨offset, size, hoffset, hsize, hnext⟩

/-- No offset is less than one before it. -/
theorem Covers.le (hcovers : Covers pool code layout) (hmade : SwitchesMade code)
    {k k' a b : Nat} (hle : k ≤ k') (ha : layout.boundaries[k]? = some a)
    (hb : layout.boundaries[k']? = some b) :
  a ≤ b
  := by
  induction hle generalizing b with
  | refl =>
      rw [ha] at hb
      apply Nat.le_of_eq (Option.some.inj hb)
  | @step k' hle ih =>
      have hlt : k' < code.length := by
        obtain ⟨hlt, -⟩ := List.getElem?_eq_some_iff.mp hb
        rw [hcovers.length] at hlt
        omega
      obtain ⟨offset, size, hoffset, -, hnext⟩ :=
        hcovers.next hmade (List.getElem?_eq_getElem hlt)
      have hle := ih hoffset
      rw [hb] at hnext
      obtain rfl := Option.some.inj hnext
      omega

/-- The offsets of a layout do not decrease. -/
theorem Covers.pairwise_le (hcovers : Covers pool code layout) (hmade : SwitchesMade code) :
  layout.boundaries.Pairwise (· ≤ ·)
  := by
  rw [List.pairwise_iff_getElem]
  intro k k' hk hk' hlt
  apply hcovers.le hmade (Nat.le_of_lt hlt) (List.getElem?_eq_getElem hk)
    (List.getElem?_eq_getElem hk')

end Layout

end ClassForge
