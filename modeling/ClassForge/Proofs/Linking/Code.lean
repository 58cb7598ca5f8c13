import ClassForge.Proofs.Peephole.Rewriting

/-!
# Linked code

In linked code every label stands once at most, every jump and every handler goes to a label
that stands somewhere, and the ranges of handlers lie within the code. The peephole rules keep
code linked: they neither add nor remove labels, jump nowhere else, and move the ranges along.
-/

namespace ClassForge

/-- Whether the type is `void` or a function type, of which there are no values. -/
def Ty.isValueless : Ty → Bool
  | .primitive .void | .function .. => true
  | _ => false

/-- The instruction creates no array of a type without values. -/
@[grind]
def Instruction.Encodable (i : Instruction) : Prop :=
  ∀ elem, i = .newArray elem → elem.isValueless = false

/-- Code in which everything that is referred to by place is there. -/
structure MethodCode.Linked (code : MethodCode) : Prop where
  encodable : ∀ i ∈ code.instructions, i.Encodable
  unique : ∀ l, code.instructions.count (.label l) ≤ 1
  targets : ∀ i ∈ code.instructions, ∀ l ∈ i.targets, .label l ∈ code.instructions
  handlers : ∀ h ∈ code.handlers, h.start ≤ code.instructions.length
    ∧ h.stop ≤ code.instructions.length ∧ .label h.target ∈ code.instructions

namespace Peephole

variable {window replacement : List Instruction}

/-- What replaces a window can be encoded. -/
theorem Replaces.encodable (h : Replaces window replacement) :
  ∀ i ∈ replacement, i.Encodable
  := by
  rintro i hi elem rfl
  cases h with
  | duplicateRepeat hpushed =>
      obtain rfl : Instruction.newArray elem = _ := by simpa using hi
      contradiction
  | _ => simp at hi

/-- What is put in jumps only where what is taken away did. -/
theorem Replaces.targets (h : Replaces window replacement) :
  ∀ i ∈ replacement, ∀ l ∈ i.targets, ∃ i' ∈ window, l ∈ i'.targets
  := by
  cases h with
  | @duplicateRepeat i _ _ =>
      intro i' hi' l hl
      obtain rfl | rfl : i' = i ∨ i' = .dup _ := by simpa using hi'
      · use i', List.mem_cons_self
      · contradiction
  | _ => simp [Instruction.targets]

namespace Site

/-- Rewriting leaves as many labels as there were. -/
theorem count_label (p : Site) (l : Label) :
  p.target.instructions.count (.label l) = p.source.instructions.count (.label l)
  := by
  have hwindow : p.window.count (.label l) = 0 := by
    apply List.count_eq_zero.mpr
    intro hmem
    have hlabel := p.replaces.isLabel_window _ hmem
    contradiction
  have hreplacement : p.replacement.count (.label l) = 0 := by
    apply List.count_eq_zero.mpr
    intro hmem
    have hlabel := p.replaces.isLabel_replacement _ hmem
    contradiction
  simp only [target, source, List.count_append, hwindow, hreplacement]

theorem mem_label_iff (p : Site) {l : Label} :
  .label l ∈ p.target.instructions ↔ .label l ∈ p.source.instructions
  := by
  rw [← List.count_pos_iff, ← List.count_pos_iff, p.count_label]

/-- A place at the edge of the window or outside of it stays within the code. -/
theorem shiftPlace_le (p : Site) {place : Nat} (hle : place ≤ p.source.instructions.length)
    (hfree : ¬ (p.start < place ∧ place < p.stop)) :
  shiftPlace p.stop p.window.length p.replacement.length place ≤ p.target.instructions.length
  := by
  have hsource : p.source.instructions.length = p.stop + p.after.length := by
    simp [source, stop, Nat.add_assoc]
  have htarget : p.target.instructions.length
      = p.start + p.replacement.length + p.after.length := by
    simp [target, start, Nat.add_assoc]
  have hstop : p.stop = p.start + p.window.length := rfl
  unfold shiftPlace
  split
  · omega
  · omega

/-- A rewrite keeps the links of the code: its labels and its handlers go where they went. -/
theorem linked (p : Site) (h : p.source.Linked) :
  p.target.Linked
  := by
  constructor
  · intro i hi
    simp only [target, List.mem_append] at hi
    obtain (hi | hi) | hi := hi
    · apply h.encodable i
      simp [source, hi]
    · apply p.replaces.encodable i hi
    · apply h.encodable i
      simp [source, hi]
  · intro l
    rw [p.count_label]
    apply h.unique
  · intro i hi l hl
    rw [p.mem_label_iff]
    simp only [target, List.mem_append] at hi
    obtain (hi | hi) | hi := hi
    · apply h.targets i _ l hl
      simp [source, hi]
    · obtain ⟨i', hi', hl'⟩ := p.replaces.targets i hi l hl
      apply h.targets i' _ l hl'
      simp [source, hi']
    · apply h.targets i _ l hl
      simp [source, hi]
  · intro handler hhandler
    obtain ⟨handler', hmem, rfl⟩ := List.mem_map.mp hhandler
    obtain ⟨hstart, hstop, htarget⟩ := h.handlers handler' hmem
    have hfree := List.any_eq_false.mp p.free handler' hmem
    simp only [Handler.straddles, Bool.or_eq_true, Bool.and_eq_true, decide_eq_true_eq,
      not_or] at hfree
    use p.shiftPlace_le hstart hfree.1, p.shiftPlace_le hstop hfree.2, p.mem_label_iff.mpr htarget

end Site

/-- The optimizer keeps code linked. -/
theorem optimize_linked (code : MethodCode) (h : code.Linked) :
  (optimize code).Linked
  := by
  apply optimize_preserves MethodCode.Linked _ code h
  rintro _ _ ⟨p, rfl, rfl⟩ h
  apply p.linked h

end Peephole

end ClassForge
