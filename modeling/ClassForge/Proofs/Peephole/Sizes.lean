import ClassForge.Proofs.Lowering.Locals
import ClassForge.Proofs.Stack.Rewriting

/-!
# Sizes that optimized code declares

Optimized code declares no more stack slots and no more locals than the code it comes from. The
size of the stack is read off the instructions from first to last, where the depth never falls
below zero. From whatever depth a window and its replacement are read, they lead to the same
depth, and the replacement is at no time deeper than the window. So what is read after them is
read at the same depths.
-/

namespace ClassForge

/-! ### Depths that are read -/

namespace MethodCode

variable {code : MethodCode} {depth depth' : Depth} {i : Instruction}

/-- The depth is that of another reading, which has been at least as deep. -/
structure Depth.Within (depth depth' : Depth) : Prop where
  current : depth.current = depth'.current
  greatest : depth.greatest ≤ depth'.greatest

/-- The depth after it has changed by some slots. -/
def Depth.change (depth : Depth) (diff : Int) : Depth :=
  ⟨max 0 (depth.current + diff), max depth.greatest (depth.current + diff)⟩

/-- What is not a label changes the depth by its own change. -/
theorem Depth.step_of_not_isLabel (h : i.isLabel = false) :
  Depth.step code depth i = depth.change i.stackDiff
  := by
  have henters : code.entersHandler i = false := by
    unfold entersHandler
    split
    · contradiction
    · rfl
  simp [Depth.step, Depth.change, henters]

/-- Where no labels stand, the changes alone tell the depths. -/
theorem Depth.foldl_of_not_isLabel {instructions : List Instruction}
    (h : ∀ i ∈ instructions, i.isLabel = false) :
  instructions.foldl (Depth.step code) depth
    = (instructions.map Instruction.stackDiff).foldl Depth.change depth
  := by
  induction instructions generalizing depth with
  | nil => rfl
  | cons i rest ih =>
      obtain ⟨hi, hrest⟩ := List.forall_mem_cons.mp h
      rw [List.foldl_cons, Depth.step_of_not_isLabel hi, ih hrest, List.map_cons, List.foldl_cons]

/-- A step keeps one depth within another. -/
theorem Depth.Within.step (h : depth.Within depth') (i : Instruction) :
  (Depth.step code depth i).Within (Depth.step code depth' i)
  := by
  obtain ⟨hcurrent, hgreatest⟩ := h
  constructor
  · simp only [Depth.step, hcurrent]
  · simp only [Depth.step, hcurrent]
    omega

/-- What is read afterwards makes no difference. -/
theorem Depth.Within.foldl (h : depth.Within depth') (instructions : List Instruction) :
  (instructions.foldl (Depth.step code) depth).Within
    (instructions.foldl (Depth.step code) depth')
  := by
  induction instructions generalizing depth depth' with
  | nil => apply h
  | cons i rest ih => apply ih (h.step i)

theorem Depth.current_foldl_nonneg (h : 0 ≤ depth.current) (instructions : List Instruction) :
  0 ≤ (instructions.foldl (Depth.step code) depth).current
  := by
  induction instructions generalizing depth with
  | nil => apply h
  | cons i rest ih => apply ih (Int.le_max_left _ _)

theorem maxStack_le_of_within {code' : MethodCode}
    (h : (code.instructions.foldl (Depth.step code) ⟨0, 0⟩).Within
      (code'.instructions.foldl (Depth.step code') ⟨0, 0⟩)) :
  code.maxStack ≤ code'.maxStack
  := by
  have hgreatest := h.greatest
  unfold maxStack
  omega

end MethodCode

/-- A fold that takes maxima does not go beyond a bound of its start and its elements. -/
theorem foldl_le_of_max {α : Type} {f : Nat → α → Nat} {g : α → Nat}
    (hf : ∀ n a, f n a = max n (g a)) {as : List α} {n m : Nat} (hn : n ≤ m)
    (has : ∀ a ∈ as, g a ≤ m) :
  as.foldl f n ≤ m
  := by
  induction as generalizing n with
  | nil => apply hn
  | cons a as ih =>
      obtain ⟨ha, has⟩ := List.forall_mem_cons.mp has
      apply ih _ has
      rw [hf]
      apply Nat.max_le.mpr ⟨hn, ha⟩

namespace Peephole

open MethodCode

variable {code : MethodCode} {depth : Depth} {i : Instruction} {slots : Nat}

theorem stackDiff_of_pushed? (h : pushed? i = some slots) :
  i.stackDiff = slots
  := by
  unfold pushed? at h
  split at h <;> cases h <;> simp [Instruction.stackDiff]

theorem stackDiff_arith_int (op : ArithOp) :
  (Instruction.arith op .int).stackDiff = -1
  := by
  cases op <;> rfl

/-- The changes that a replacement makes lead to the depth that those of the window lead to, and
are at no time deeper. -/
theorem Replaces.within_change {window replacement : List Instruction}
    (h : Replaces window replacement) (hcurrent : 0 ≤ depth.current) :
  ((replacement.map Instruction.stackDiff).foldl Depth.change depth).Within
    ((window.map Instruction.stackDiff).foldl Depth.change depth)
  := by
  cases h with
  | dropLoad slot kind =>
      change depth.Within ([(kind.slots : Int), -kind.slots].foldl Depth.change depth)
      constructor <;> simp only [List.foldl, Depth.change] <;> omega
  | dropConstant c =>
      change depth.Within ([(c.kind.slots : Int), -c.kind.slots].foldl Depth.change depth)
      constructor <;> simp only [List.foldl, Depth.change] <;> omega
  | @incrementInPlace _ op _ _ _ =>
      have harith := stackDiff_arith_int op
      change (depth.change 0).Within
        ([1, 1, (Instruction.arith op .int).stackDiff, -1].foldl Depth.change depth)
      rw [harith]
      constructor <;> simp only [List.foldl, Depth.change] <;> omega
  | @storeThenIncrement _ op _ _ _ =>
      have harith := stackDiff_arith_int op
      change ([-1, 0].foldl Depth.change depth).Within
        ([1, (Instruction.arith op .int).stackDiff, -1].foldl Depth.change depth)
      rw [harith]
      constructor <;> simp only [List.foldl, Depth.change] <;> omega
  | compareWithNull | compareWithNonNull =>
      change (depth.change (-1)).Within ([1, -2].foldl Depth.change depth)
      constructor <;> simp only [List.foldl, Depth.change] <;> omega
  | @foldNegation c negated hnegated =>
      change (depth.change negated.kind.slots).Within
        ([(c.kind.slots : Int), 0].foldl Depth.change depth)
      rw [kind_of_negated? hnegated]
      constructor <;> simp only [List.foldl, Depth.change] <;> omega
  | @duplicateRepeat i slots hpushed =>
      have hdiff := stackDiff_of_pushed? hpushed
      change ([i.stackDiff, (slots : Int)].foldl Depth.change depth).Within
        ([i.stackDiff, i.stackDiff].foldl Depth.change depth)
      rw [hdiff]
      exact ⟨rfl, Int.le_refl _⟩

namespace Site

/-- Handlers are moved along with their labels. -/
theorem step_target (p : Site) :
  Depth.step p.target = Depth.step p.source
  := by
  have henters : p.target.entersHandler = p.source.entersHandler := by
    funext i
    cases i with
    | label l =>
        rw [entersHandler, target, shiftAll, List.any_map]
        rfl
    | _ => rfl
  funext depth i
  rw [Depth.step, Depth.step, henters]

/-- A rewrite does not raise the declared depth. -/
theorem maxStack_target_le (p : Site) :
  p.target.maxStack ≤ p.source.maxStack
  := by
  apply maxStack_le_of_within
  rw [step_target]
  change Depth.Within ((p.before ++ p.replacement ++ p.after).foldl _ _)
    ((p.before ++ p.window ++ p.after).foldl _ _)
  simp only [List.foldl_append]
  apply Depth.Within.foldl
  rw [Depth.foldl_of_not_isLabel p.replaces.isLabel_window,
    Depth.foldl_of_not_isLabel p.replaces.isLabel_replacement]
  apply p.replaces.within_change
  apply Depth.current_foldl_nonneg (Int.le_refl 0)

end Site

/-- An increment is of a local where a value was stored. -/
theorem optimize_maxLocals_le (code : MethodCode) :
  (optimize code).maxLocals ≤ code.maxLocals
  := by
  have hall : ∀ i ∈ (optimize code).instructions, ∀ access ∈ i.localAccess?,
      accessEnd access ≤ code.maxLocals := by
    apply optimize_accesses (Q := fun i => ∀ access ∈ i.localAccess?,
      accessEnd access ≤ code.maxLocals)
    · intro i hnone access haccess
      rw [hnone] at haccess
      contradiction
    · intro slot delta hstore access haccess
      apply hstore access haccess
    · intro i hi access haccess
      apply (le_foldl_of_max (fun _ _ => rfl) _ _).2
      apply List.mem_filterMap.mpr ⟨i, hi, haccess⟩
  apply foldl_le_of_max (g := accessEnd) (fun _ _ => rfl) code.minLocals_le_maxLocals
  intro access haccess
  obtain ⟨i, hi, haccess⟩ := List.mem_filterMap.mp haccess
  apply hall i hi access haccess

end Peephole

/-- Optimized code declares no more stack slots and no more locals than the code it comes from. -/
theorem Peephole.optimize_declares_le (code : MethodCode) :
  (optimize code).maxStack ≤ code.maxStack ∧ (optimize code).maxLocals ≤ code.maxLocals
  := by
  constructor
  · apply optimize_preserves fun code' => code'.maxStack ≤ code.maxStack
    · rintro _ _ ⟨p, rfl, rfl⟩ hle
      apply Nat.le_trans p.maxStack_target_le hle
    · apply Nat.le_refl
  · apply optimize_maxLocals_le

end ClassForge
