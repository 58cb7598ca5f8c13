import ClassForge.Instruction.Effect

/-!
# Peephole rules

A rule looks at the instructions from some place on. If it applies there, it tells how many
of them it replaces and by what. Every rule makes the code lighter, where an instruction that
pushes a value by itself weighs two and any other weighs one.
-/

namespace ClassForge

/-- The peephole rules. -/
inductive Rule where
  /-- A value that is pushed and dropped again goes away. -/
  | dropPopped
  /-- A local that gets its own value plus a constant is incremented. -/
  | incrementInPlace
  /-- A local that gets a value plus a constant gets the value and is then incremented. -/
  | storeThenIncrement
  /-- A comparison with the null literal becomes a test for null. -/
  | compareWithNull
  /-- A literal that is negated becomes the literal with the opposite sign. -/
  | foldNegation
  /-- A value that is pushed twice is pushed once and duplicated. -/
  | duplicateRepeat
  deriving DecidableEq, Repr

/-- The name of a rule in logs. -/
def Rule.name : Rule → String
  | dropPopped => "drop-popped"
  | incrementInPlace => "increment-in-place"
  | storeThenIncrement => "store-then-increment"
  | compareWithNull => "compare-with-null"
  | foldNegation => "fold-negation"
  | duplicateRepeat => "duplicate-repeat"

/-- What a rule does at a place: the first `length` instructions become `replacement`. -/
structure RuleStep where
  rule : Rule
  length : Nat
  replacement : List Instruction
  deriving DecidableEq

namespace Peephole

/-- The change that adding or subtracting `value` makes, if an increment can hold it. -/
def delta? (op : ArithOp) (value : Int32) : Option Int16 :=
  let change? : Option Int :=
    match op with
    | .add => some value.toInt
    | .sub => some (-value.toInt)
    | _ => none
  change?.bind fun change =>
    if -32768 ≤ change ∧ change ≤ 32767 then some (Int16.ofInt change) else none

/-- The slots of the value that an instruction pushes, if it takes nothing from the stack and
does nothing else. -/
def pushed? : Instruction → Option Nat
  | .load _ kind => some kind.slots
  | .constant c => some c.kind.slots
  | .getField field true => some field.type.slots
  | _ => none

/-- The rule for values that are pushed and dropped. -/
def dropPopped? : List Instruction → Option RuleStep
  | .load _ kind :: .pop slots :: _ =>
    if kind.slots = slots then some ⟨.dropPopped, 2, []⟩ else none
  | .constant c :: .pop slots :: _ =>
    if c.kind.slots = slots then some ⟨.dropPopped, 2, []⟩ else none
  | _ => none

/-- The rule for a local that gets its own value plus a constant. -/
def incrementInPlace? : List Instruction → Option RuleStep
  | .load source .int :: .constant (.int value) :: .arith op .int :: .store slot .int :: _ =>
    if source = slot then
      (delta? op value).map fun delta => ⟨.incrementInPlace, 4, [.increment slot delta]⟩
    else none
  | _ => none

/-- The rule for a local that gets a value plus a constant. -/
def storeThenIncrement? : List Instruction → Option RuleStep
  | .constant (.int value) :: .arith op .int :: .store slot .int :: _ =>
    (delta? op value).map fun delta =>
      ⟨.storeThenIncrement, 3, [.store slot .int, .increment slot delta]⟩
  | _ => none

/-- The rule for comparisons with null. -/
def compareWithNull? : List Instruction → Option RuleStep
  | .constant .null :: .branch (.compare .reference condition) target :: _ =>
    match condition with
    | .eq => some ⟨.compareWithNull, 2, [.branch .null target]⟩
    | .ne => some ⟨.compareWithNull, 2, [.branch .nonNull target]⟩
    | _ => none
  | _ => none

/-- The rule for negated literals. -/
def foldNegation? : List Instruction → Option RuleStep
  | .constant c :: .neg kind :: _ =>
    if c.kind = kind then
      c.negated?.map fun negated => ⟨.foldNegation, 2, [.constant negated]⟩
    else none
  | _ => none

/-- The rule for values that are pushed twice. -/
def duplicateRepeat? : List Instruction → Option RuleStep
  | first :: second :: _ =>
    if first = second then
      (pushed? first).map fun slots => ⟨.duplicateRepeat, 2, [first, .dup slots]⟩
    else none
  | _ => none

/-- What the first rule that applies does. -/
def step? (code : List Instruction) : Option RuleStep :=
  (dropPopped? code).or <| (incrementInPlace? code).or <| (storeThenIncrement? code).or <|
    (compareWithNull? code).or <| (foldNegation? code).or (duplicateRepeat? code)

/-! ### Rules make code lighter -/

/-- The weight of an instruction. -/
def weigh : Instruction → Nat
  | .load .. | .constant _ | .getField .. => 2
  | _ => 1

/-- The weight of a list of instructions. -/
def weight (code : List Instruction) : Nat :=
  code.foldr (fun i total => weigh i + total) 0

@[simp]
theorem weight_nil :
  weight [] = 0
  := rfl

@[simp]
theorem weight_cons (i : Instruction) (code : List Instruction) :
  weight (i :: code) = weigh i + weight code
  := rfl

@[simp]
theorem weight_append (a b : List Instruction) :
  weight (a ++ b) = weight a + weight b
  := by
  induction a with
  | nil => simp
  | cons i a ih =>
    simp only [List.cons_append, weight_cons, ih]
    omega

@[simp]
theorem weight_reverse (code : List Instruction) :
  weight code.reverse = weight code
  := by
  induction code with
  | nil => rfl
  | cons i code ih =>
    simp only [List.reverse_cons, weight_append, weight_cons, weight_nil, ih]
    omega

/-- A step takes away at least one instruction and puts lighter code in place of what it
takes away. -/
def Lightens (code : List Instruction) (r : RuleStep) : Prop :=
  0 < r.length ∧ weight r.replacement + weight (code.drop r.length) < weight code

/-- Dropping a value that is popped makes the code lighter. -/
theorem dropPopped?_lightens {code : List Instruction} {r : RuleStep}
    (h : dropPopped? code = some r) :
  Lightens code r
  := by
  unfold dropPopped? at h
  split at h
  · split at h
    · obtain rfl := Option.some.inj h
      simp only [Lightens, List.drop_succ_cons, List.drop_zero, weight_cons, weight_nil, weigh]
      omega
    · contradiction
  · split at h
    · obtain rfl := Option.some.inj h
      simp only [Lightens, List.drop_succ_cons, List.drop_zero, weight_cons, weight_nil, weigh]
      omega
    · contradiction
  · contradiction

/-- An increment in place is lighter than the load, the arithmetic and the store. -/
theorem incrementInPlace?_lightens {code : List Instruction} {r : RuleStep}
    (h : incrementInPlace? code = some r) :
  Lightens code r
  := by
  unfold incrementInPlace? at h
  split at h
  · split at h
    · obtain ⟨delta, -, rfl⟩ := Option.map_eq_some_iff.1 h
      simp only [Lightens, List.drop_succ_cons, List.drop_zero, weight_cons, weight_nil, weigh]
      omega
    · contradiction
  · contradiction

/-- A store and an increment are lighter than the arithmetic and the store. -/
theorem storeThenIncrement?_lightens {code : List Instruction} {r : RuleStep}
    (h : storeThenIncrement? code = some r) :
  Lightens code r
  := by
  unfold storeThenIncrement? at h
  split at h
  · obtain ⟨delta, -, rfl⟩ := Option.map_eq_some_iff.1 h
    simp only [Lightens, List.drop_succ_cons, List.drop_zero, weight_cons, weight_nil, weigh]
    omega
  · contradiction

/-- A test for null is lighter than a comparison with null. -/
theorem compareWithNull?_lightens {code : List Instruction} {r : RuleStep}
    (h : compareWithNull? code = some r) :
  Lightens code r
  := by
  unfold compareWithNull? at h
  split at h
  · split at h
    · obtain rfl := Option.some.inj h
      simp only [Lightens, List.drop_succ_cons, List.drop_zero, weight_cons, weight_nil, weigh]
      omega
    · obtain rfl := Option.some.inj h
      simp only [Lightens, List.drop_succ_cons, List.drop_zero, weight_cons, weight_nil, weigh]
      omega
    · contradiction
  · contradiction

/-- A negated literal is lighter than a literal and its negation. -/
theorem foldNegation?_lightens {code : List Instruction} {r : RuleStep}
    (h : foldNegation? code = some r) :
  Lightens code r
  := by
  unfold foldNegation? at h
  split at h
  · split at h
    · obtain ⟨negated, -, rfl⟩ := Option.map_eq_some_iff.1 h
      simp only [Lightens, List.drop_succ_cons, List.drop_zero, weight_cons, weight_nil, weigh]
      omega
    · contradiction
  · contradiction

/-- A copy of a value is lighter than what would push the value again. -/
theorem duplicateRepeat?_lightens {code : List Instruction} {r : RuleStep}
    (h : duplicateRepeat? code = some r) :
  Lightens code r
  := by
  unfold duplicateRepeat? at h
  split at h
  · split at h
    · next heq =>
      obtain ⟨slots, hpushed, rfl⟩ := Option.map_eq_some_iff.1 h
      subst heq
      unfold pushed? at hpushed
      split at hpushed
      · simp only [Lightens, List.drop_succ_cons, List.drop_zero, weight_cons, weight_nil, weigh]
        omega
      · simp only [Lightens, List.drop_succ_cons, List.drop_zero, weight_cons, weight_nil, weigh]
        omega
      · simp only [Lightens, List.drop_succ_cons, List.drop_zero, weight_cons, weight_nil, weigh]
        omega
      · contradiction
    · contradiction
  · contradiction

/-- Whichever rule is applied, it makes the code lighter. -/
theorem step?_lightens {code : List Instruction} {r : RuleStep} (h : step? code = some r) :
  Lightens code r
  := by
  simp only [step?, Option.or_eq_some_iff] at h
  obtain h | ⟨-, h | ⟨-, h | ⟨-, h | ⟨-, h | ⟨-, h⟩⟩⟩⟩⟩ := h
  · apply dropPopped?_lightens h
  · apply incrementInPlace?_lightens h
  · apply storeThenIncrement?_lightens h
  · apply compareWithNull?_lightens h
  · apply foldNegation?_lightens h
  · apply duplicateRepeat?_lightens h

end Peephole

end ClassForge
