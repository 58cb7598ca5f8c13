import ClassForge.Proofs.Lowering.Realization

/-!
# Values and jumps

The code of an expression is sound if its value realizes what the expression means, and if its
jump branches by the truth value of that. Soundness is kept by the ways to make a jump from a
value, a value from a jump, and the jump of a logical operation or a comparison from its
operands. A branch within an expression goes to a label that stands in the code of the same
expression, with the operands evaluated so far still on the stack.
-/

namespace ClassForge

open Machine Execution

variable {H A : Type}

/-- The truth of a value that is made of a truth value. -/
theorem Machine.Comp.truth_ofTruth (c : Comp H A Bool) :
  (Comp.ofTruth c).truth = c
  := by
  funext heap
  simp only [Comp.truth, Comp.value, Comp.ofTruth, Comp.bind_eq, Comp.bind_assoc, Comp.pure_eq,
    Comp.bind_pure, Comp.require, Value.truth?_ofBool]
  rw [Comp.bind]
  cases c heap <;> rfl

/-- The second truth value, unless the first one is `d`, which decides. -/
def Machine.Comp.decided (d : Bool) (c c' : Comp H A Bool) : Comp H A Bool := do
  let b ← c
  if b = d then return d else c'

theorem LogicOp.eval_and (c c' : Comp H A Bool) :
  LogicOp.eval c c' .and = Comp.decided false c c'
  := by
  apply congrArg (Comp.bind c)
  funext b
  cases b <;> rfl

theorem LogicOp.eval_or (c c' : Comp H A Bool) :
  LogicOp.eval c c' .or = Comp.decided true c c'
  := by
  apply congrArg (Comp.bind c)
  funext b
  cases b <;> rfl

variable [DecidableEq A]

/-- Code without handlers in which every label stands at the place that jumps to it find. -/
structure Placed (code : MethodCode) : Prop where
  handlers : code.handlers = []
  placeOf : ∀ {l place}, code.instructions[place]? = some (.label l) →
    placeOf? code.instructions l = some place

/-- The jump of an expression realizes a truth value. -/
def JumpSound (w : World H A) (code : MethodCode) (frame : Frame A)
    (jump : Label → Bool → Gen Unit) (c : Comp H A Bool) : Prop :=
  ∀ target place, placeOf? code.instructions target = some place → ∀ onTrue stack,
    Realizes w code (fun p => State.mk p stack frame) (jump target onTrue) c
      (fun p b => State.mk (if b = onTrue then place else p) stack frame)

/-- The value of an expression realizes a computation. -/
def ValueSound (w : World H A) (code : MethodCode) (frame : Frame A) {α : Type} (value : Gen α)
    (c : Comp H A (Option (Value A))) : Prop :=
  ∀ stack, Realizes w code (fun p => State.mk p stack frame) value c
    (fun p v => State.mk p (v.toList ++ stack) frame)

/-- The code of an expression that gives a value of the kind, or none, is sound. -/
structure ExprCode.Sound (w : World H A) (code : MethodCode) (frame : Frame A) (x : ExprCode)
    (c : Comp H A (Option (Value A))) (r : Option Kind) : Prop where
  value : ValueSound w code frame x.value c
  jump : r = some .int → JumpSound w code frame x.jump c.truth
  gives : c.Gives fun v => v.map Value.kind = r

variable {w : World H A} {code : MethodCode} {frame : Frame A}

/-- The value of an expression as an operand of what is done next. -/
theorem ExprCode.Sound.andThen {x : ExprCode} {c : Comp H A (Option (Value A))} {kind : Kind}
    {α β : Type} {f : Ty → Gen α} {d : Value A → Comp H A β} {finish : Nat → β → H → State H A}
    (h : x.Sound w code frame c (some kind)) {stack : List (Value A)}
    (hf : ∀ type v, v.kind = kind →
      Realizes w code (fun p => State.mk p (v :: stack) frame) (f type) (d v) finish) :
  Realizes w code (fun p => State.mk p stack frame) (x.value >>= f) (c.value >>= d) finish
  := ((h.value stack).value h.gives).bind h.gives.value hf

theorem Int32.compare_zero_eq_iff (n : Int32) :
  compare n.toInt 0 = .eq ↔ n = 0
  := by
  rw [Std.compare_eq_iff_eq, ← Int32.toInt_zero, Int32.toInt_inj]

/-- A branch by whether an integer is zero. -/
theorem branch?_ifZero (n : Int32) (onTrue : Bool) (stack : List (Value A)) :
  branch? w (.zero (if onTrue then .ne else .eq)) (.int n :: stack)
    = some (decide (decide (n ≠ 0) = onTrue), stack)
  := by
  have hzero := Int32.compare_zero_eq_iff n
  cases onTrue <;> simp [branch?, Condition.holds, hzero]

/-- A jump by the value of an expression. -/
theorem JumpSound.ofValue {value : Gen Ty}
    {c : Comp H A (Option (Value A))} (hvalue : ValueSound w code frame value c)
    (hgives : c.Gives fun v => v.map Value.kind = some .int) :
  JumpSound w code frame (ExprCode.ofValue value).jump c.truth
  := by
  intro target place hplace onTrue stack
  rw [Comp.truth, Comp.value, Comp.bind_eq, Comp.bind_eq, Comp.bind_assoc]
  apply (hvalue stack).bind hgives
  rintro type v hv
  obtain ⟨v, rfl, hkind⟩ := Option.map_eq_some_iff.mp hv
  cases v with
  | int n =>
      split
      · apply Realizes.branch hplace (branch?_ifZero n onTrue stack)
      · apply Realizes.fail
  | _ => contradiction

/-- The code of an expression whose jump tests its value. -/
theorem ExprCode.Sound.ofValue {value : Gen Ty} {c : Comp H A (Option (Value A))}
    {r : Option Kind} (hvalue : ValueSound w code frame value c)
    (hgives : c.Gives fun v => v.map Value.kind = r) :
  (ExprCode.ofValue value).Sound w code frame c r
  := by
  constructor
  · apply hvalue
  · rintro rfl
    apply JumpSound.ofValue hvalue hgives
  · apply hgives

/-! ### Labels -/

/-- Going over a label changes nothing. -/
theorem reaches_of_label {l : Label} {place : Nat} (h : code.instructions[place]? = some (.label l))
    (stack : List (Value A)) (frame : Frame A) (heap : H) :
  Reaches (step w code) ⟨place, stack, frame, heap⟩ ⟨place + 1, stack, frame, heap⟩
  := by
  apply Reaches.of_step
  rw [step_of_getElem? h]
  rfl

theorem reaches_of_constant {c : Constant} {place : Nat}
    (h : code.instructions[place]? = some (.constant c)) (stack : List (Value A))
    (frame : Frame A) (heap : H) :
  Reaches (step w code) ⟨place, stack, frame, heap⟩ ⟨place + 1, w.constant c :: stack, frame, heap⟩
  := by
  apply Reaches.of_step
  rw [step_of_getElem? h]
  rfl

theorem reaches_of_goto {l : Label} {place place' : Nat}
    (h : code.instructions[place]? = some (.goto l))
    (hplace : placeOf? code.instructions l = some place') (stack : List (Value A))
    (frame : Frame A) (heap : H) :
  Reaches (step w code) ⟨place, stack, frame, heap⟩ ⟨place', stack, frame, heap⟩
  := by
  apply Reaches.of_step
  rw [step_of_getElem? h, Instruction.goto, World.act_branch, branch?, settle, enter, hplace]

/-- A value that is made by a jump. If the jump is taken, zero is left on the stack, and one
otherwise. -/
theorem ValueSound.ofJump (hplaced : Placed code) {jump : Label → Bool → Gen Unit}
    {c : Comp H A Bool} (hjump : JumpSound w code frame jump c) :
  ValueSound w code frame (ExprCode.ofJump jump).value (Comp.ofTruth c)
  := by
  intro stack
  constructor
  intro index labels out hout hstands
  obtain ⟨jumped, hjumped, hcode⟩ : ∃ jumped,
      jump ⟨Gen.reservedMark.toString ++ toString labels⟩ false index (labels + 2) = .ok jumped
        ∧ out.code = jumped.code ++ [.int 1,
          .goto ⟨Gen.reservedMark.toString ++ toString (labels + 1)⟩,
          .label ⟨Gen.reservedMark.toString ++ toString labels⟩, .int 0,
          .label ⟨Gen.reservedMark.toString ++ toString (labels + 1)⟩] := by
    simp only [ExprCode.ofJump, Gen.bind_eq_ok, Gen.fresh_eq_ok, Gen.emit_eq_ok, Gen.pure_eq,
      Gen.pure_eq_ok] at hout
    obtain ⟨_, _, rfl, ⟨_, _, rfl, ⟨jumped, _, hjumped, ⟨_, _, rfl, ⟨_, _, rfl, ⟨_, _, rfl,
      ⟨_, _, rfl, ⟨_, _, rfl, rfl, rfl⟩, rfl⟩, rfl⟩, rfl⟩, rfl⟩, rfl⟩, rfl⟩, rfl⟩ := hout
    use jumped, hjumped
    rfl
  rw [hcode] at hstands ⊢
  obtain ⟨hstands, hone, hgoto, hfalse, hzero, hdone, -⟩ := standsAt_append.mp hstands
  rw [List.length_append, ← Nat.add_assoc]
  apply ((hjump _ _ (hplaced.placeOf hfalse) false stack).performs hjumped hstands).bind
    (P := fun _ => True) ⟨fun _ => True.intro⟩
  intro b _
  apply Performs.of_reaches
  intro heap
  cases b with
  | true =>
      apply (reaches_of_constant hone stack frame heap).trans
      apply (reaches_of_goto hgoto (hplaced.placeOf hdone) _ frame heap).trans
      apply reaches_of_label hdone
  | false =>
      apply (reaches_of_label hfalse stack frame heap).trans
      apply (reaches_of_constant hzero stack frame heap).trans
      apply reaches_of_label hdone

/-- The code of an expression whose value is made by its jump. -/
theorem ExprCode.Sound.ofJump (hplaced : Placed code) {jump : Label → Bool → Gen Unit}
    {c : Comp H A Bool} (hjump : JumpSound w code frame jump c) :
  (ExprCode.ofJump jump).Sound w code frame (Comp.ofTruth c) (some .int)
  := by
  constructor
  · apply ValueSound.ofJump hplaced hjump
  · intro _
    rw [Comp.truth_ofTruth]
    apply hjump
  · apply Comp.gives_ofTruth

/-! ### Logical operations -/

/-- The jump of a negation branches on the other truth value. -/
theorem JumpSound.not {jump : Label → Bool → Gen Unit} {c : Comp H A Bool}
    (h : JumpSound w code frame jump c) :
  JumpSound w code frame (fun target onTrue => jump target !onTrue) (do return !(← c))
  := by
  intro target place hplace onTrue stack
  apply (h target place hplace (!onTrue) stack).map
  intro p b
  cases b <;> cases onTrue <;> rfl

variable {left right : ExprCode} {c c' : Comp H A Bool} {target : Label} {place : Nat}

/-- Both operands jump to the target when they have the truth value that decides. -/
theorem realizes_decided (hleft : JumpSound w code frame left.jump c)
    (hright : JumpSound w code frame right.jump c')
    (hplace : placeOf? code.instructions target = some place) (d : Bool)
    (stack : List (Value A)) :
  Realizes w code (fun p => State.mk p stack frame)
    (do left.jump target d; right.jump target d) (Comp.decided d c c')
    (fun p b => State.mk (if b = d then place else p) stack frame)
  := by
  apply (hleft target place hplace d stack).bind (P := fun _ => True) ⟨fun _ => True.intro⟩
  intro _ b _
  by_cases hb : b = d
  · simp only [if_pos hb]
    apply Realizes.skip
    intro p p'
    rw [if_pos rfl]
  · simp only [if_neg hb]
    apply hright target place hplace

/-- The left operand jumps past the right one when it decides, and the right one jumps to the
target when it has the other truth value. -/
theorem realizes_undecided (hplaced : Placed code) (hleft : JumpSound w code frame left.jump c)
    (hright : JumpSound w code frame right.jump c')
    (hplace : placeOf? code.instructions target = some place) (d : Bool)
    (stack : List (Value A)) :
  Realizes w code (fun p => State.mk p stack frame)
    (do
      let skip ← Gen.fresh
      left.jump skip d
      right.jump target !d
      Gen.emit (.label skip))
    (Comp.decided d c c') (fun p b => State.mk (if b = !d then place else p) stack frame)
  := by
  constructor
  intro index labels out hout hstands
  obtain ⟨x, y, hx, hy, hcode⟩ : ∃ x y,
      left.jump ⟨Gen.reservedMark.toString ++ toString labels⟩ d index (labels + 1) = .ok x
        ∧ right.jump target (!d) (index + x.code.length) x.labels = .ok y
        ∧ out.code = x.code ++ (y.code
          ++ [.label ⟨Gen.reservedMark.toString ++ toString labels⟩]) := by
    simp only [Gen.bind_eq_ok, Gen.fresh_eq_ok, Gen.emit_eq_ok] at hout
    obtain ⟨_, _, rfl, ⟨x, _, hx, ⟨y, _, hy, rfl, rfl⟩, rfl⟩, rfl⟩ := hout
    use x, y, hx, hy
    rfl
  rw [hcode] at hstands ⊢
  obtain ⟨hstands, hstands'⟩ := standsAt_append.mp hstands
  obtain ⟨hstands', hskip, -⟩ := standsAt_append.mp hstands'
  rw [List.length_append, List.length_append, ← Nat.add_assoc, ← Nat.add_assoc]
  apply ((hleft _ _ (hplaced.placeOf hskip) d stack).performs hx hstands).bind
    (P := fun _ => True) ⟨fun _ => True.intro⟩
  intro b _
  by_cases hb : b = d
  · simp only [if_pos hb]
    apply Performs.of_reaches
    intro heap
    rw [if_neg (by simp)]
    apply reaches_of_label hskip
  · simp only [if_neg hb]
    apply ((hright target place hplace (!d) stack).performs hy hstands').extend
    intro b' heap
    by_cases hb' : b' = !d
    · rw [if_pos hb', if_pos hb']
      apply Reaches.refl
    · rw [if_neg hb', if_neg hb']
      apply reaches_of_label hskip

theorem JumpSound.and (hplaced : Placed code) (hleft : JumpSound w code frame left.jump c)
    (hright : JumpSound w code frame right.jump c') :
  JumpSound w code frame (left.jumpAnd right) (LogicOp.eval c c' .and)
  := by
  intro target place hplace onTrue stack
  rw [LogicOp.eval_and]
  cases onTrue with
  | true => apply realizes_undecided hplaced hleft hright hplace false
  | false => apply realizes_decided hleft hright hplace false

theorem JumpSound.or (hplaced : Placed code) (hleft : JumpSound w code frame left.jump c)
    (hright : JumpSound w code frame right.jump c') :
  JumpSound w code frame (left.jumpOr right) (LogicOp.eval c c' .or)
  := by
  intro target place hplace onTrue stack
  rw [LogicOp.eval_or]
  cases onTrue with
  | true => apply realizes_decided hleft hright hplace true
  | false => apply realizes_undecided hplaced hleft hright hplace true

/-! ### Comparisons -/

/-- The condition that a branch on the given truth value tests. -/
def Condition.tested (c : Condition) (onTrue : Bool) : Condition :=
  if onTrue then c else c.negate

theorem Condition.holds_tested (c : Condition) (onTrue : Bool) (o : Ordering) :
  (c.tested onTrue).holds (some o) = decide (c.holds (some o) = onTrue)
  := by
  cases onTrue with
  | true => simp [tested]
  | false => simp [tested, holds_negate]

theorem compare_ofComparison (nanGreater : Bool) (o : Ordering) :
  compare (Value.ofComparison nanGreater (some o)).toInt 0 = o
  := by
  cases o <;> rfl

/-- The condition as it holds of the three outcomes of a comparison. An unordered pair has the
outcome for which the condition fails. -/
theorem Condition.holds_ofComparison (c : Condition) (o : Comparison) {nanGreater : Bool}
    (h : o = none → nanGreater = (c = .lt || c = .le)) :
  c.holds (some (compare (Value.ofComparison nanGreater o).toInt 0)) = c.holds o
  := by
  cases o with
  | some o => rw [compare_ofComparison]
  | none =>
      rw [h rfl]
      cases c <;> rfl

/-- Integers and references are compared by the branch itself. -/
theorem test?_tested {kind : Kind} {x y : Value A} (c : Condition) (onTrue : Bool)
    (hx : x.kind = kind) (hy : y.kind = kind)
    (h : kind = .int ∨ kind = .reference ∧ (c.tested onTrue = .eq ∨ c.tested onTrue = .ne)) :
  ∃ b, Value.test? w.floating c kind x y = some b
    ∧ Value.test? w.floating (c.tested onTrue) kind x y = some (decide (b = onTrue))
  := by
  obtain rfl | ⟨rfl, h⟩ := h
  · cases x <;> cases hx
    cases y <;> cases hy
    next m n =>
    use c.holds (some (compare m.toInt n.toInt)), rfl
    rw [← Condition.holds_tested]
    rfl
  · cases x <;> cases hx
    cases y <;> cases hy
    next r r' =>
    obtain rfl | rfl : c = .eq ∨ c = .ne := by
      cases c <;> cases onTrue <;> simp [Condition.tested, Condition.negate] at h ⊢
    · use decide (r = r'), rfl
      cases onTrue <;> simp [Condition.tested, Condition.negate, Value.test?]
    · use decide (r ≠ r'), rfl
      cases onTrue <;> simp [Condition.tested, Condition.negate, Value.test?]

/-- A comparison of two values can be branched on if they are numbers of 32 bits, or references that
are compared for identity. -/
theorem Checked.branchIf_eq_ok {type : Ty} {kind : Kind} {c : Condition} {target : Label}
    {i : Instruction} (hkind : Kind.of type = .ok kind) (h : branchIf type c target = .ok i) :
  (kind = .int ∨ kind = .reference ∧ (c = .eq ∨ c = .ne)) ∧ .branch (.compare kind c) target = i
  := by
  rw [branchIf, hkind] at h
  change (if _ then _ else _) = _ at h
  split at h
  · next hc =>
    use by simpa using hc
    apply Except.ok.inj h
  · contradiction

/-- A comparison with three outcomes. Only floating point numbers may be unordered, and an
unordered pair then counts as greater if less is asked for. -/
theorem Checked.compare_of_wide {type : Ty} {kind : Kind} (c : Condition)
    (hkind : Kind.of type = .ok kind) (hwide : kind = .long ∨ kind = .float ∨ kind = .double) :
  Checked.compare type c = .ok (.compare kind (kind ≠ .long && (c = .lt || c = .le)))
  := by
  rw [compare, hkind]
  obtain rfl | rfl | rfl := hwide <;> rfl

/-- Numbers of the same kind compare; `long` values are never unordered. -/
theorem compare?_of_kind {floating : Floating} {kind : Kind} {x y : Value A}
    (hkind : kind = .long ∨ kind = .float ∨ kind = .double) (hx : x.kind = kind)
    (hy : y.kind = kind) :
  ∃ o, Value.compare? floating kind x y = some o ∧ (kind = .long → o ≠ none)
    ∧ ∀ c, Value.test? floating c kind x y = some (c.holds o)
  := by
  cases x <;> cases hx <;> cases y <;> cases hy
  · simp [Value.kind] at hkind
  · next m n =>
    use some (Ord.compare m.toInt n.toInt), rfl, fun _ => Option.some_ne_none _
    exact fun _ => rfl
  · next x y =>
    use floating.compare32 x y, rfl, fun h => Kind.noConfusion h
    exact fun _ => rfl
  · next x y =>
    use floating.compare64 x y, rfl, fun h => Kind.noConfusion h
    exact fun _ => rfl
  · simp [Value.kind] at hkind

variable {type : Ty} {kind : Kind} {x y : Value A}

/-- A branch that compares goes by whether the condition holds. -/
theorem exists_branch?_compare (hx : x.kind = kind) (hy : y.kind = kind) {condition : Condition}
    {onTrue : Bool} (h : kind = .int ∨ kind = .reference
      ∧ (condition.tested onTrue = .eq ∨ condition.tested onTrue = .ne))
    (stack : List (Value A)) :
  ∃ b, Value.test? w.floating condition kind x y = some b
    ∧ branch? w (.compare kind (condition.tested onTrue)) (y :: x :: stack)
      = some (decide (b = onTrue), stack)
  := by
  obtain ⟨b, hb, hb'⟩ := test?_tested condition onTrue hx hy h
  use b, hb
  rw [branch?, if_pos (h.imp id And.left), hb']
  rfl

/-- A branch on the outcome of a comparison goes by whether the condition holds, also of an
unordered pair. -/
theorem exists_branch?_ofComparison (hwide : kind = .long ∨ kind = .float ∨ kind = .double)
    (hx : x.kind = kind) (hy : y.kind = kind) (condition : Condition) (onTrue : Bool)
    (stack : List (Value A)) :
  ∃ o, Value.compare? w.floating kind x y = some o
    ∧ Value.test? w.floating condition kind x y = some (condition.holds o)
    ∧ branch? w (.zero (condition.tested onTrue)) (.int (Value.ofComparison
        (kind ≠ .long && (condition = .lt || condition = .le)) o) :: stack)
      = some (decide (condition.holds o = onTrue), stack)
  := by
  obtain ⟨o, ho, hlong, htest⟩ : ∃ o, Value.compare? w.floating kind x y = some o
      ∧ (kind = .long → o ≠ none)
      ∧ ∀ c, Value.test? w.floating c kind x y = some (c.holds o) := compare?_of_kind hwide hx hy
  have hnan : o = none →
      (kind ≠ .long && (condition = .lt || condition = .le) : Bool)
        = (condition = .lt || condition = .le) := by
    intro hnone
    have hne : kind ≠ .long := fun hkind => hlong hkind hnone
    rw [decide_eq_true hne, Bool.true_and]
  use o, ho, htest condition
  rw [branch?, Condition.holds_tested, condition.holds_ofComparison o hnan]

/-- A branch that compares two values tests them. -/
theorem realizes_branchIf (hplace : placeOf? code.instructions target = some place)
    (hkind : Kind.of type = .ok kind) (hx : x.kind = kind) (hy : y.kind = kind)
    (condition : Condition) (onTrue : Bool) (stack : List (Value A)) :
  Realizes w code (fun p => State.mk p (y :: x :: stack) frame)
    (Gen.emitChecked (Checked.branchIf type (condition.tested onTrue) target))
    (Comp.require (Value.test? w.floating condition kind x y))
    (fun p b => State.mk (if b = onTrue then place else p) stack frame)
  := by
  constructor
  intro index labels out hout hstands
  obtain ⟨i, hi, rfl⟩ := Gen.emitChecked_eq_ok.mp hout
  obtain ⟨hbranch, rfl⟩ := Checked.branchIf_eq_ok hkind hi
  obtain ⟨b, hb, htest⟩ := exists_branch?_compare (w := w) hx hy hbranch stack
  rw [hb]
  apply (Realizes.branch hplace htest).performs rfl hstands

/-- Two wide values are compared first, and then the result is tested. -/
theorem realizes_compare (hplaced : Placed code)
    (hplace : placeOf? code.instructions target = some place) (hkind : Kind.of type = .ok kind)
    (hwide : kind = .long ∨ kind = .float ∨ kind = .double) (hx : x.kind = kind)
    (hy : y.kind = kind) (condition : Condition) (onTrue : Bool) (stack : List (Value A)) :
  Realizes w code (fun p => State.mk p (y :: x :: stack) frame)
    (do
      Gen.emitChecked (Checked.compare type condition)
      Gen.emit (.ifZero (condition.tested onTrue) target))
    (Comp.require (Value.test? w.floating condition kind x y))
    (fun p b => State.mk (if b = onTrue then place else p) stack frame)
  := by
  obtain ⟨o, ho, htest, hbranch⟩ :=
    exists_branch?_ofComparison (w := w) hwide hx hy condition onTrue stack
  rw [htest, Checked.compare_of_wide condition hkind hwide]
  apply Realizes.silent hplaced.handlers
  · rintro i hi heap
    obtain rfl := Except.ok.inj hi
    rw [World.act_compare, ho]
    rfl
  · apply Realizes.branch hplace hbranch

/-- The jump of a comparison. -/
theorem JumpSound.compare (hplaced : Placed code) {left right : ExprCode}
    {c c' : Comp H A (Option (Value A))} (condition : Condition)
    (hkind : type.kind? = some kind) (hleft : left.Sound w code frame c (some kind))
    (hright : right.Sound w code frame c' (some kind)) :
  JumpSound w code frame (ExprCode.jumpCompare condition left right type) (do
    let x ← c.value
    let y ← c'.value
    let kind ← Comp.require type.kind?
    Comp.require (Value.test? w.floating condition kind x y))
  := by
  intro target place hplace onTrue stack
  have hof := Ty.kind?_eq_some.mp hkind
  rw [ExprCode.jumpCompare, hkind]
  apply hleft.andThen
  intro _ x hx
  apply hright.andThen
  intro _ y hy
  apply Realizes.check
  intro kind' hkind'
  obtain rfl := Except.ok.inj (hof.symm.trans hkind')
  change Realizes w code _ _ (Comp.require (Value.test? w.floating condition kind x y)) _
  cases kind with
  | int => apply realizes_branchIf hplace hof hx hy
  | reference => apply realizes_branchIf hplace hof hx hy
  | long => apply realizes_compare hplaced hplace hof (by simp) hx hy
  | float => apply realizes_compare hplaced hplace hof (by simp) hx hy
  | double => apply realizes_compare hplaced hplace hof (by simp) hx hy

end ClassForge
