import ClassForge.Proofs.Stack.Depth

/-!
# Reading code from first to last

The declared size of the stack is found by reading the instructions in their order, whatever jumps
there are among them. Where a path falls through, its depth does not get ahead of the depth that is
read, and where it enters a handler neither. A jump may land deeper than what is read at its label,
though, if the instructions in between take slots away. How much deeper the last jump has landed is
by how much the path can exceed the declared size.
-/

namespace ClassForge

open MethodCode (Depth)

namespace MethodCode

variable {code : MethodCode} {place : Nat} {i : Instruction}

/-- The depth after reading the instructions before a place. -/
def readTo (code : MethodCode) (place : Nat) : Depth :=
  (code.instructions.take place).foldl (Depth.step code) ⟨0, 0⟩

/-- The depth at which the instruction at a place is read, the thrown value included where a
handler starts. -/
def readDepth (code : MethodCode) (place : Nat) : Int :=
  (code.readTo place).current + if code.instructions[place]?.any code.entersHandler then 1 else 0

theorem readTo_succ (hi : code.instructions[place]? = some i) :
  code.readTo (place + 1) = Depth.step code (code.readTo place) i
  := by
  rw [readTo, List.take_add_one, hi, Option.toList_some, List.foldl_append]
  rfl

theorem step_readTo (hi : code.instructions[place]? = some i) :
  Depth.step code (code.readTo place) i
    = ⟨max 0 (code.readDepth place + i.stackDiff),
      max (code.readTo place).greatest (code.readDepth place + i.stackDiff)⟩
  := by
  rw [readDepth, hi, Option.any_some]
  rfl

/-- The depth that is read is never negative. -/
theorem current_readTo_nonneg (code : MethodCode) (place : Nat) :
  0 ≤ (code.readTo place).current
  := by
  induction place with
  | zero => apply Int.le_refl
  | succ place ih =>
      cases hi : code.instructions[place]? with
      | none => rwa [readTo, List.take_add_one, hi, Option.toList_none, List.append_nil]
      | some i =>
          rw [readTo_succ hi, step_readTo hi]
          apply Int.le_max_left

theorem current_le_readDepth (code : MethodCode) (place : Nat) :
  (code.readTo place).current ≤ code.readDepth place
  := by
  rw [readDepth]
  split <;> omega

/-- At a handler the thrown value is read. -/
theorem one_le_readDepth {h : Handler} (hmem : h ∈ code.handlers)
    (hlabel : code.instructions[place]? = some (.label h.target)) :
  1 ≤ code.readDepth place
  := by
  have henters : code.entersHandler (.label h.target) = true :=
    List.any_eq_true.mpr ⟨h, hmem, decide_eq_true rfl⟩
  have hcurrent := code.current_readTo_nonneg place
  rw [readDepth, hlabel, Option.any_some, henters, if_pos rfl]
  omega

/-- The depth that is read next is no less than what the instruction leaves. -/
theorem readDepth_succ (hi : code.instructions[place]? = some i) :
  code.readDepth place + i.stackDiff ≤ code.readDepth (place + 1)
  := by
  have hle := code.current_le_readDepth (place + 1)
  rw [readTo_succ hi, step_readTo hi] at hle
  apply Int.le_trans (Int.le_max_right _ _) hle

/-- The declared size covers every depth that is read, unless it is the greatest that can be
declared. -/
theorem readDepth_le_maxStack (hi : code.instructions[place]? = some i) :
  min 65535 (code.readDepth place + i.stackDiff) ≤ code.maxStack
  := by
  have hgreatest : code.readDepth place + i.stackDiff
      ≤ (code.instructions.foldl (Depth.step code) ⟨0, 0⟩).greatest := by
    have hread : code.readDepth place + i.stackDiff ≤ (code.readTo (place + 1)).greatest := by
      rw [readTo_succ hi, step_readTo hi]
      apply Int.le_max_right
    have hrest := Grading.greatest_le_foldl code (code.instructions.drop (place + 1))
      (code.readTo (place + 1))
    rw [readTo, ← List.foldl_append, List.take_append_drop] at hrest
    apply Int.le_trans hread hrest
  unfold maxStack
  omega

/-! ### Paths that get ahead -/

/-- A path from the start of the code comes to a place with so many slots on the stack. The last
jump on it has landed by `excess` slots deeper than what is read at its label. -/
inductive Climbs (code : MethodCode) : Nat → Int → Int → Prop
  | start : Climbs code 0 0 0
  | next {place : Nat} {depth excess : Int} {i : Instruction} (h : Climbs code place depth excess)
      (hi : code.instructions[place]? = some i) (hfalls : i.falls = true) :
      Climbs code (place + 1) (depth + i.effect) excess
  | jump {place target : Nat} {depth excess : Int} {i : Instruction} {l : Label}
      (h : Climbs code place depth excess) (hi : code.instructions[place]? = some i)
      (hl : l ∈ i.targets) (htarget : code.instructions[target]? = some (.label l)) :
      Climbs code target (depth + i.effect)
        (max 0 (depth + i.effect - code.readDepth target))
  | thrown {place target : Nat} {depth excess : Int} (h : Climbs code place depth excess)
      (hcatches : code.Catches place target) :
      Climbs code target 1 0

/-- Every path has climbed by something. -/
theorem Visits.exists_climbs {depth : Int} (h : code.Visits place depth) :
  ∃ excess, code.Climbs place depth excess
  := by
  induction h with
  | start => exact ⟨0, .start⟩
  | @step place next depth i _ hi hnext ih =>
      obtain ⟨excess, ih⟩ := ih
      cases hnext with
      | next hi' hfalls =>
          obtain rfl := Option.some.inj (hi.symm.trans hi')
          exact ⟨_, .next ih hi hfalls⟩
      | jump hi' hl htarget =>
          obtain rfl := Option.some.inj (hi.symm.trans hi')
          exact ⟨_, .jump ih hi hl htarget⟩
  | thrown _ hcatches ih =>
      obtain ⟨excess, ih⟩ := ih
      exact ⟨0, .thrown ih hcatches⟩

/-- A path is ahead of what is read by no more than its last jump was. -/
theorem Climbs.depth_le {depth excess : Int} (h : code.Climbs place depth excess) :
  0 ≤ excess ∧ depth ≤ code.readDepth place + excess
  := by
  induction h with
  | start =>
      have hle := code.current_le_readDepth 0
      have hnonneg := code.current_readTo_nonneg 0
      omega
  | @next place depth excess i _ hi _ ih =>
      have hle := readDepth_succ hi
      have heffect := i.effect_le_stackDiff
      omega
  | jump => omega
  | thrown _ hcatches =>
      obtain ⟨h, hmem, -, hlabel⟩ := hcatches
      have hle := one_le_readDepth hmem hlabel
      omega

end MethodCode

/-- Every path through some code exceeds the declared size of the stack by no more than by how
much deeper its last jump has landed than what is read at the label, unless it exceeds the greatest
size that can be declared. So the declared size suffices for paths on which no jump lands deeper
than what is read. -/
theorem visits_le_maxStack {code : MethodCode} {place : Nat} {depth : Int} {i : Instruction}
    (h : code.Visits place depth) (hi : code.instructions[place]? = some i)
    (hle : depth + i.effect ≤ 65535) :
  ∃ excess, code.Climbs place depth excess
    ∧ ∀ excess, code.Climbs place depth excess → depth + i.effect ≤ code.maxStack + excess
  := by
  obtain ⟨excess, hclimbs⟩ := h.exists_climbs
  use excess, hclimbs
  intro excess hclimbs
  obtain ⟨hnonneg, hdepth⟩ := hclimbs.depth_le
  have hmax := MethodCode.readDepth_le_maxStack hi
  have heffect := i.effect_le_stackDiff
  omega

/-- Code with a jump over an instruction that would take a slot away. -/
def leap : MethodCode :=
  ⟨[.int 1, .goto ⟨"over"⟩, .pop 1, .label ⟨"over"⟩, .int 2, .ret (some .int)], [], 0⟩

/-- A path through this code on which nothing is taken from the stack comes to two slots, where one
is declared. It is ahead by the slot that its jump has kept. -/
theorem leap_exceeds_maxStack :
  leap.Visits 1 1 ∧ leap.Visits 3 1 ∧ leap.Visits 4 1
    ∧ [0, 1, 3, 4].map (leap.instructions[·]?.map Instruction.pops) = List.replicate 4 (some 0)
    ∧ leap.maxStack = 1 ∧ 1 + (Instruction.int 2).effect = 2
    ∧ ∃ excess, leap.Climbs 4 1 excess
      ∧ ∀ excess, leap.Climbs 4 1 excess →
        1 + (Instruction.int 2).effect ≤ leap.maxStack + excess
  := by
  have hpushed : leap.Visits (0 + 1) (0 + (Instruction.int 1).effect) :=
    .step .start rfl (.next rfl rfl)
  have hlanded : leap.Visits 3 (1 + (Instruction.goto ⟨"over"⟩).effect) :=
    .step hpushed rfl (.jump rfl List.mem_cons_self rfl)
  have hvisits : leap.Visits (3 + 1) (1 + (Instruction.label ⟨"over"⟩).effect) :=
    .step hlanded rfl (.next rfl rfl)
  exact ⟨hpushed, hlanded, hvisits, rfl, rfl, rfl, visits_le_maxStack hvisits rfl (by decide)⟩

end ClassForge
