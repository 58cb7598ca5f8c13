import ClassForge.Proofs.Peephole.Rewriting
import Mathlib.Logic.Function.Iterate

/-!
# Rewriting comes to an end

A pass that uses a rule makes the code lighter, so that some pass is the first to use none.
Such a pass leaves the code as it is, and wherever it has found a rule that applies, a handler
starts or ends strictly within the window. What is true of the code that the last pass was
given is then true of the optimized code: another pass does nothing to it, and neither does
the optimizer.
-/

namespace ClassForge

namespace Peephole

/-! ### Windows and rules -/

/-- Where a window stands that can be replaced, some rule applies. -/
theorem Replaces.step?_ne_none {window replacement : List Instruction}
    (h : Replaces window replacement) (rest : List Instruction) :
  step? (window ++ rest) ≠ none
  := by
  intro hnone
  simp only [step?, Option.or_eq_none_iff] at hnone
  obtain ⟨hdrop, hincrement, hstore, hnull, hnegation, hrepeat⟩ := hnone
  cases h with
  | dropLoad slot kind => simp [dropPopped?] at hdrop
  | dropConstant c => simp [dropPopped?] at hdrop
  | incrementInPlace slot h => simp [incrementInPlace?, h] at hincrement
  | storeThenIncrement slot h => simp [storeThenIncrement?, h] at hstore
  | compareWithNull target => simp [compareWithNull?] at hnull
  | compareWithNonNull target => simp [compareWithNull?] at hnull
  | foldNegation h => simp [foldNegation?, h] at hnegation
  | duplicateRepeat h => simp [duplicateRepeat?, h] at hrepeat

/-- Where a handler starts or ends strictly within a window. -/
theorem anyStraddles_eq_true {handlers : List Handler} {start stop : Nat} :
  anyStraddles handlers start stop = true
    ↔ ∃ h ∈ handlers, (start < h.start ∧ h.start < stop) ∨ (start < h.stop ∧ h.stop < stop)
  := by
  simp only [anyStraddles, List.any_eq_true, Handler.straddles, Bool.or_eq_true, Bool.and_eq_true,
    decide_eq_true_eq]

/-! ### Passes without a rewrite -/

section

variable {done rest : List Instruction} {index : Nat} {handlers : List Handler}
  {applied : List (Rule × Nat)}

/-- A pass adds to the rules that were applied. -/
theorem length_le_scan (done : List Instruction) (index : Nat) (handlers : List Handler)
    (applied : List (Rule × Nat)) (rest : List Instruction) :
  applied.length ≤ (scan done index handlers applied rest).applied.length
  := by
  fun_induction scan done index handlers applied rest with
  | case1 done index handlers applied => simp
  | case2 done index handlers applied i tail hnone ih => apply ih
  | case3 done index handlers applied i tail r hsome hstraddles ih => apply ih
  | case4 done index handlers applied i tail r hsome hstraddles ih =>
      apply Nat.le_trans (Nat.le_succ applied.length) ih

/-- A scan that goes on after a rewrite has used more rules than before it. -/
theorem not_length_scan_cons_le (done : List Instruction) (index : Nat) (handlers : List Handler)
    (applied : List (Rule × Nat)) (rest : List Instruction) (a : Rule × Nat) :
  ¬ (scan done index handlers (a :: applied) rest).applied.length ≤ applied.length
  := by
  intro hle
  have hle' := length_le_scan done index handlers (a :: applied) rest
  apply Nat.not_succ_le_self applied.length (Nat.le_trans hle' hle)

/-- A scan that uses no more rules leaves the rest as it is. -/
theorem scan_eq_of_length_le
    (h : (scan done index handlers applied rest).applied.length ≤ applied.length) :
  scan done index handlers applied rest = ⟨done.reverse ++ rest, handlers, applied.reverse⟩
  := by
  fun_induction scan done index handlers applied rest with
  | case1 done index handlers applied => rw [List.append_nil]
  | case2 done index handlers applied i tail hnone ih =>
      rw [ih h, List.reverse_cons, List.append_assoc, List.singleton_append]
  | case3 done index handlers applied i tail r hsome hstraddles ih =>
      rw [ih h, List.reverse_cons, List.append_assoc, List.singleton_append]
  | case4 done index handlers applied i tail r hsome hstraddles ih =>
      exact absurd h (not_length_scan_cons_le _ _ _ _ _ _)

/-- A scan that uses no more rules has found a handler in the way wherever one applies. -/
theorem straddles_of_length_le
    (h : (scan done index handlers applied rest).applied.length ≤ applied.length) {k : Nat}
    {r : RuleStep} (hr : step? (rest.drop k) = some r) :
  anyStraddles handlers (index + k) (index + k + r.length) = true
  := by
  fun_induction scan done index handlers applied rest generalizing k with
  | case1 done index handlers applied =>
      rw [List.drop_nil] at hr
      contradiction
  | case2 done index handlers applied i tail hnone ih =>
      cases k with
      | zero =>
          rw [List.drop_zero, hnone] at hr
          contradiction
      | succ k =>
          have hk := ih h hr
          rwa [Nat.add_assoc, Nat.add_comm 1 k] at hk
  | case3 done index handlers applied i tail r' hsome hstraddles ih =>
      cases k with
      | zero =>
          rw [List.drop_zero, hsome] at hr
          obtain rfl := Option.some.inj hr
          apply hstraddles
      | succ k =>
          have hk := ih h hr
          rwa [Nat.add_assoc, Nat.add_comm 1 k] at hk
  | case4 done index handlers applied i tail r' hsome hstraddles ih =>
      exact absurd h (not_length_scan_cons_le _ _ _ _ _ _)

end

/-! ### Passes over the code of a method -/

/-- The code after one pass. -/
def rewritten (code : MethodCode) : MethodCode :=
  { code with
    instructions := (pass code.instructions code.handlers).instructions
    handlers := (pass code.instructions code.handlers).handlers }

/-- The number of rewrites in one pass. -/
def rewriteCount (code : MethodCode) : Nat :=
  (pass code.instructions code.handlers).applied.length

theorem weight_rewritten (code : MethodCode) :
  weight (rewritten code).instructions + rewriteCount code ≤ weight code.instructions
  := weight_pass code.instructions code.handlers

theorem rewritten_eq_self {code : MethodCode} (h : rewriteCount code = 0) :
  rewritten code = code
  := by
  have hpass : pass code.instructions code.handlers = ⟨code.instructions, code.handlers, []⟩ :=
    scan_eq_of_length_le (Nat.le_of_eq h)
  rw [rewritten, hpass]

/-- No rule can be used anywhere in the code: at every place there stands no window that can
be replaced, or a handler starts or ends strictly within what the first rule that applies
would replace. -/
def Settled (code : MethodCode) : Prop :=
  ∀ index, (∀ window rest replacement, code.instructions.drop index = window ++ rest →
      ¬ Replaces window replacement)
    ∨ ∃ r, step? (code.instructions.drop index) = some r ∧ ∃ h ∈ code.handlers,
      (index < h.start ∧ h.start < index + r.length) ∨ (index < h.stop ∧ h.stop < index + r.length)

/-- Where a pass rewrites nothing, no rule applies anywhere. -/
theorem settled_of_rewriteCount {code : MethodCode} (h : rewriteCount code = 0) :
  Settled code
  := by
  intro index
  cases hstep : step? (code.instructions.drop index) with
  | none =>
      left
      intro window rest replacement hdrop hreplaces
      rw [hdrop] at hstep
      apply hreplaces.step?_ne_none rest hstep
  | some r =>
      right
      use r, rfl
      have hstraddles := straddles_of_length_le (Nat.le_of_eq h) hstep
      rw [Nat.zero_add] at hstraddles
      apply anyStraddles_eq_true.mp hstraddles

/-! ### The loop -/

/-- Where a pass rewrites nothing, it is the only one. -/
theorem optimize_of_rewriteCount {code : MethodCode} (h : rewriteCount code = 0) :
  optimize code = rewritten code
  := by
  have hpasses : passes code.instructions code.handlers
      = [pass code.instructions code.handlers] := by
    rw [passes, if_pos (List.eq_nil_of_length_eq_zero h)]
  rw [optimize, hpasses]
  rfl

/-- The optimizer goes on with what the first pass has made. -/
theorem optimize_rewritten {code : MethodCode} (h : rewriteCount code ≠ 0) :
  optimize (rewritten code) = optimize code
  := by
  have hpasses : passes code.instructions code.handlers = pass code.instructions code.handlers
      :: passes (rewritten code).instructions (rewritten code).handlers := by
    rw [passes, if_neg fun hnil => h (List.length_eq_zero_iff.mpr hnil)]
    rfl
  obtain ⟨p, ps, hrest⟩ := List.exists_cons_of_ne_nil
    (passes_ne_nil (rewritten code).instructions (rewritten code).handlers)
  rw [optimize, optimize, hpasses, hrest]
  rfl

/-- The optimizer makes passes up to the first without a rewrite, which comes after no more
passes than the code has weight: each pass that is followed by another takes some of it. -/
theorem exists_optimize_eq_iterate (code : MethodCode) :
  ∃ n ≤ weight code.instructions, rewriteCount (rewritten^[n] code) = 0
    ∧ (∀ m < n, rewriteCount (rewritten^[m] code) ≠ 0) ∧ optimize code = rewritten^[n + 1] code
  := by
  generalize hweight : weight code.instructions = total
  induction total using Nat.strongRecOn generalizing code with
  | ind total ih =>
      by_cases hcount : rewriteCount code = 0
      · use 0, Nat.zero_le total, hcount, fun m hm => absurd hm (Nat.not_lt_zero m)
        apply optimize_of_rewriteCount hcount
      · have hlighter := weight_rewritten code
        obtain ⟨n, hn, hlast, hbefore, heq⟩ :=
          ih (weight (rewritten code).instructions) (by omega) (rewritten code) rfl
        use n + 1, by omega, hlast
        constructor
        · intro m hm
          cases m with
          | zero => apply hcount
          | succ m => apply hbefore m (Nat.lt_of_succ_lt_succ hm)
        · rw [← optimize_rewritten hcount, heq]
          rfl

/-- Passes come to an end, and the code that they leave is settled: no rule can be used in it,
another pass does nothing to it, and neither does the optimizer. -/
theorem optimize_settles (code : MethodCode) :
  (∃ n ≤ weight code.instructions, rewriteCount (rewritten^[n] code) = 0
      ∧ (∀ m < n, rewriteCount (rewritten^[m] code) ≠ 0)
      ∧ optimize code = rewritten^[n + 1] code)
    ∧ rewriteCount (optimize code) = 0 ∧ rewritten (optimize code) = optimize code
    ∧ optimize (optimize code) = optimize code ∧ Settled (optimize code)
  := by
  have hloop := exists_optimize_eq_iterate code
  have hcount : rewriteCount (optimize code) = 0 := by
    obtain ⟨n, -, hlast, -, heq⟩ := hloop
    rwa [heq, Function.iterate_succ_apply', rewritten_eq_self hlast]
  have hself := rewritten_eq_self hcount
  use hloop, hcount, hself
  constructor
  · rw [optimize_of_rewriteCount hcount, hself]
  · apply settled_of_rewriteCount hcount

end Peephole

end ClassForge
