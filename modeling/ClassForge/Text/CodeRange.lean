/-!
# Ranges of code points

A set of code points given as a list of inclusive ranges in ascending order, the form in which
the tables of character properties are written. The search through an ascending list finds
exactly the code points that lie in one of its ranges.
-/

namespace ClassForge.Text

/-- Whether `n` lies in one of the ranges. The search ends at the first range that starts
above `n`. -/
def inRanges (n : Nat) : List (Nat × Nat) → Bool
  | [] => false
  | (first, last) :: rest =>
    if n < first then false else if n ≤ last then true else inRanges n rest

/-- Whether the ranges are nonempty, ascending and apart, the first of them not below `low`. -/
def ascendingFrom (low : Nat) : List (Nat × Nat) → Bool
  | [] => true
  | (first, last) :: rest => low ≤ first && first ≤ last && ascendingFrom (last + 1) rest

/-- The ranges of an ascending list hold nothing below its bound. -/
theorem le_of_ascendingFrom {low : Nat} {ranges : List (Nat × Nat)}
    (h : ascendingFrom low ranges = true) {range : Nat × Nat} (hrange : range ∈ ranges) :
  low ≤ range.1
  := by
  induction ranges generalizing low with
  | nil => contradiction
  | cons head rest ih =>
      simp only [ascendingFrom, Bool.and_eq_true, decide_eq_true_eq] at h
      obtain ⟨⟨hlow, hordered⟩, hrest⟩ := h
      cases hrange with
      | head => exact hlow
      | tail _ hrange =>
          have hle := ih hrest hrange
          omega

/-- In an ascending list the search finds exactly the members of the ranges. -/
theorem inRanges_iff {low n : Nat} {ranges : List (Nat × Nat)}
    (h : ascendingFrom low ranges = true) :
  inRanges n ranges = true ↔ ∃ range ∈ ranges, range.1 ≤ n ∧ n ≤ range.2
  := by
  induction ranges generalizing low with
  | nil => simp [inRanges]
  | cons head rest ih =>
      simp only [ascendingFrom, Bool.and_eq_true, decide_eq_true_eq] at h
      obtain ⟨⟨-, hordered⟩, hrest⟩ := h
      simp only [inRanges, List.mem_cons, exists_eq_or_imp]
      split
      · next hbelow =>
        simp only [Bool.false_eq_true, false_iff, not_or, not_exists, not_and]
        refine ⟨by omega, fun range hrange => ?_⟩
        have hle := le_of_ascendingFrom hrest hrange
        omega
      · next hreached =>
        split
        · next hinside =>
          simp only [true_iff]
          exact .inl ⟨by omega, hinside⟩
        · next hbeyond =>
          rw [ih hrest]
          constructor
          · exact .inr
          · rintro (hhead | hrange)
            · omega
            · exact hrange

end ClassForge.Text
