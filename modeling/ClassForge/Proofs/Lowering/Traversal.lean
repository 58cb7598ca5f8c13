import ClassForge.Proofs.Lowering.Combinators
import ClassForge.Proofs.Lowering.Labels

/-!
# Traversals

The code of a branch evaluates expressions and goes by their values to one of two places. How the
expressions are evaluated is left open: they may change the heap and they may throw. A run that
traverses such code is told step by step: it evaluates an expression, or it compares, branches or
goes over a label, and all of it within given places.

A run follows a computation with a record of what has been evaluated if it evaluates what the
computation records, in the same order.
-/

namespace ClassForge

open Machine Execution

/-! ### Comparisons -/

/-- The condition can be tested of values of the kind. References have no order. -/
def Condition.AppliesTo (c : Condition) (kind : Kind) : Prop :=
  kind = .reference → c = .eq ∨ c = .ne

theorem Condition.AppliesTo.tested {c : Condition} {kind : Kind} (h : c.AppliesTo kind)
    (onTrue : Bool) :
  (c.tested onTrue).AppliesTo kind
  := by
  intro hkind
  obtain rfl | rfl := h hkind <;> cases onTrue <;> simp [Condition.tested, Condition.negate]

/-- The instructions that compare two values of a kind and branch on the outcome. -/
def Condition.tests (c : Condition) (kind : Kind) (target : Label) (onTrue : Bool) :
    List Instruction :=
  match kind with
  | .int | .reference => [.branch (.compare kind (c.tested onTrue)) target]
  | .long | .float | .double =>
    [.compare kind (kind ≠ .long && (c = .lt || c = .le)), .ifZero (c.tested onTrue) target]

theorem Condition.tests_length_pos (c : Condition) (kind : Kind) (target : Label) (onTrue : Bool) :
  0 < (c.tests kind target onTrue).length
  := by
  cases kind <;> exact Nat.succ_pos _

/-- A comparison that can be branched on is one branch. -/
theorem Checked.branchIf_of_kind {type : Ty} {kind : Kind} {c : Condition}
    (hkind : Kind.of type = .ok kind)
    (h : kind = .int ∨ kind = .reference ∧ (c = .eq ∨ c = .ne)) (target : Label) :
  branchIf type c target = .ok (.branch (.compare kind c) target)
  := by
  rw [branchIf, hkind]
  change (if _ then _ else _) = _
  rw [if_pos (by simpa using h)]
  rfl

/-- The code of a branch on a comparison is that of the operands and the tests. -/
theorem ExprCode.jumpCompare_eq_ok {left right : ExprCode} {type : Ty} {kind : Kind}
    {condition : Condition} {index labels : Nat} {x y : Emitted Ty} (hkind : type.kind? = some kind)
    (hcondition : condition.AppliesTo kind) (hx : left.value index labels = .ok x)
    (hy : right.value (index + x.code.length) x.labels = .ok y) (target : Label) (onTrue : Bool) :
  left.jumpCompare condition right type target onTrue index labels
    = .ok ⟨(), x.code ++ (y.code ++ condition.tests kind target onTrue), y.labels⟩
  := by
  have hof := Ty.kind?_eq_some.mp hkind
  have hnarrow (h : kind = .int ∨ kind = .reference) :
      Checked.branchIf type (condition.tested onTrue) target
        = .ok (.branch (.compare kind (condition.tested onTrue)) target) := by
    apply Checked.branchIf_of_kind hof (h.imp id fun h => ⟨h, hcondition.tested onTrue h⟩)
  have hwide := Checked.compare_of_wide condition hof
  simp only [ExprCode.jumpCompare, Gen.bind_eq_ok, Gen.check_eq_ok]
  refine ⟨x, _, hx, ⟨y, _, hy, ⟨_, ⟨(), condition.tests kind target onTrue, y.labels⟩,
    ⟨kind, hof, rfl⟩, ?_, rfl⟩, rfl⟩, rfl⟩
  cases kind with
  | int => exact Gen.emitChecked_eq_ok.mpr ⟨_, hnarrow (by simp), rfl⟩
  | reference => exact Gen.emitChecked_eq_ok.mpr ⟨_, hnarrow (by simp), rfl⟩
  | long | float | double =>
      rw [hwide (by simp)]
      rfl

/-! ### Runs of branches -/

variable {H A : Type}

/-- The value of an expression, with a record beside the heap of what has been evaluated. -/
def recorded (value : Expr → Comp H A (Value A)) (e : Expr) :
    Comp (H × List Expr) A (Value A) := fun memory =>
  match value e memory.1 with
  | .done v heap => .done v (heap, memory.2 ++ [e])
  | .throws thrown heap => .throws thrown (heap, memory.2 ++ [e])
  | .stuck => .stuck

/-- Whether the instruction belongs to the branches themselves: it compares, branches or marks a
place. -/
def Instruction.isTest : Instruction → Bool
  | .label _ | .compare .. | .branch .. => true
  | _ => false

/-- Code that is run in a world with the locals as they are, and what expressions evaluate to. Every
label stands in the code once. -/
structure Evaluator (H A : Type) where
  world : World H A
  code : MethodCode
  scope : Scope
  frame : Frame A
  value : Expr → Comp H A (Value A)
  placed : ∀ {l place}, code.instructions[place]? = some (.label l) →
    placeOf? code.instructions l = some place

namespace Evaluator

/-- The code of the expression stands from the one place to the other. -/
def Occupies (ev : Evaluator H A) (e : Expr) (place next : Nat) : Prop :=
  ∃ labels out, e.value ev.scope place labels = .ok out
    ∧ StandsAt ev.code.instructions place out.code ∧ place + out.code.length = next

/-- A label stands in a block of the code if its place is one of the block's. -/
theorem label_mem_iff (ev : Evaluator H A) {block : List Instruction} {index place : Nat}
    {l : Label} (hstands : StandsAt ev.code.instructions index block)
    (hplace : placeOf? ev.code.instructions l = some place) :
  .label l ∈ block ↔ index ≤ place ∧ place < index + block.length
  := by
  constructor
  · intro hl
    obtain ⟨n, hn, hl⟩ := List.getElem_of_mem hl
    have hi := getElem?_of_standsAt hstands hn
    rw [List.getElem?_eq_getElem hn, hl] at hi
    obtain rfl := Option.some.inj (hplace.symm.trans (ev.placed hi))
    omega
  · rintro ⟨hfirst, hlast⟩
    obtain ⟨n, rfl⟩ := Nat.exists_eq_add_of_le hfirst
    have hn : n < block.length := by omega
    apply List.mem_of_getElem? (i := n)
    rw [← getElem?_of_standsAt hstands hn]
    apply getElem?_of_placeOf? hplace

variable [DecidableEq A]

/-- The code of the expression is emitted and, wherever it stands, leaves what the expression
evaluates to on the stack, a value of the kind. -/
structure Leaf (ev : Evaluator H A) (e : Expr) (kind : Kind) : Prop where
  emits : ∀ place labels, ∃ out, e.value ev.scope place labels = .ok out
  pushes : ∀ {place next heap v heap'}, ev.Occupies e place next → ev.value e heap = .done v heap' →
    ∀ stack, Reaches (step ev.world ev.code) ⟨place, stack, ev.frame, heap⟩
      ⟨next, v :: stack, ev.frame, heap'⟩
  gives : (ev.value e).Gives fun v => v.kind = kind

/-- The run comes from one state to another by evaluating the expressions one after the other, and
otherwise by tests only, all of it from place `first` on and before place `last`. -/
inductive Traverses (ev : Evaluator H A) (first last : Nat) :
    State H A → List Expr → State H A → Prop
  | refl (s : State H A) : Traverses ev first last s [] s
  | test {s s' s'' : State H A} {i : Instruction} {trace : List Expr} (hfirst : first ≤ s.place)
      (hlast : s.place < last) (hi : ev.code.instructions[s.place]? = some i)
      (htest : i.isTest = true) (hstep : step ev.world ev.code s = .inl s')
      (h : Traverses ev first last s' trace s'') : Traverses ev first last s trace s''
  | leaf {e : Expr} {place next : Nat} {stack : List (Value A)} {heap heap' : H} {v : Value A}
      {trace : List Expr} {s : State H A} (hfirst : first ≤ place) (hlast : next < last)
      (hoccupies : ev.Occupies e place next) (hvalue : ev.value e heap = .done v heap')
      (hreaches : Reaches (step ev.world ev.code) ⟨place, stack, ev.frame, heap⟩
        ⟨next, v :: stack, ev.frame, heap'⟩)
      (h : Traverses ev first last ⟨next, v :: stack, ev.frame, heap'⟩ trace s) :
      Traverses ev first last ⟨place, stack, ev.frame, heap⟩ (e :: trace) s

/-- The run has come to the code of an expression that it is to evaluate next. -/
def Arrives (ev : Evaluator H A) (first last : Nat) (s : State H A) (trace : List Expr)
    (e : Expr) (heap : H) : Prop :=
  ∃ place next stack, first ≤ place ∧ next < last ∧ ev.Occupies e place next
    ∧ ev.Traverses first last s trace ⟨place, stack, ev.frame, heap⟩

/-- The run does what the computation does: it evaluates what the computation records. Where that
gives a result, the run comes to the state for it; where it throws, the run has come to the
expression that throws. -/
structure Follows {β : Type} (ev : Evaluator H A) (first last : Nat) (start : H → State H A)
    (c : Comp (H × List Expr) A β) (finish : β → H → State H A) : Prop where
  done : ∀ {heap record b heap' record'}, c (heap, record) = .done b (heap', record') →
    ∃ trace, record' = record ++ trace
      ∧ ev.Traverses first last (start heap) trace (finish b heap')
  throws : ∀ {heap record thrown heap' record'},
    c (heap, record) = .throws thrown (heap', record') →
    ∃ trace e heap'', record' = record ++ (trace ++ [e])
      ∧ ev.Arrives first last (start heap) trace e heap'' ∧ ev.value e heap'' = .throws thrown heap'
  stuck : ∀ {heap record}, c (heap, record) = .stuck →
    ∃ trace e heap', ev.Arrives first last (start heap) trace e heap' ∧ ev.value e heap' = .stuck

variable {ev : Evaluator H A} {first last : Nat} {s s' s'' : State H A} {trace trace' : List Expr}

/-- Runs within the same places are composed, with what they evaluate. -/
theorem Traverses.trans (h : ev.Traverses first last s trace s')
    (h' : ev.Traverses first last s' trace' s'') :
  ev.Traverses first last s (trace ++ trace') s''
  := by
  induction h with
  | refl s => apply h'
  | test hfirst hlast hi htest hstep _ ih =>
      apply Traverses.test hfirst hlast hi htest hstep (ih h')
  | leaf hfirst hlast hoccupies hvalue hreaches _ ih =>
      apply Traverses.leaf hfirst hlast hoccupies hvalue hreaches (ih h')

/-- The run may be said to keep to more places. -/
theorem Traverses.mono {first' last' : Nat} (h : ev.Traverses first last s trace s')
    (hfirst : first' ≤ first) (hlast : last ≤ last') :
  ev.Traverses first' last' s trace s'
  := by
  induction h with
  | refl s => apply Traverses.refl
  | test hfirst' hlast' hi htest hstep _ ih =>
      apply Traverses.test (by omega) (by omega) hi htest hstep ih
  | leaf hfirst' hlast' hoccupies hvalue hreaches _ ih =>
      apply Traverses.leaf (by omega) (by omega) hoccupies hvalue hreaches ih

theorem Arrives.of_traverses {e : Expr} {heap : H} (h : ev.Traverses first last s trace s')
    (h' : ev.Arrives first last s' trace' e heap) :
  ev.Arrives first last s (trace ++ trace') e heap
  := by
  obtain ⟨place, next, stack, hfirst, hlast, hoccupies, h'⟩ := h'
  exact ⟨place, next, stack, hfirst, hlast, hoccupies, h.trans h'⟩

theorem Arrives.mono {first' last' : Nat} {e : Expr} {heap : H}
    (h : ev.Arrives first last s trace e heap) (hfirst : first' ≤ first) (hlast : last ≤ last') :
  ev.Arrives first' last' s trace e heap
  := by
  obtain ⟨place, next, stack, hfirst', hlast', hoccupies, h⟩ := h
  exact ⟨place, next, stack, by omega, by omega, hoccupies, h.mono hfirst hlast⟩

namespace Follows

variable {β γ : Type} {start : H → State H A} {c : Comp (H × List Expr) A β}
  {mid finish' : β → H → State H A} {finish : γ → H → State H A}

/-- Tests that lead to the state for a result evaluate nothing. -/
theorem of_traverses {b : γ} (h : ∀ heap, ev.Traverses first last (start heap) [] (finish b heap)) :
  ev.Follows first last start (pure b) finish
  := by
  constructor
  · intro heap record b' heap' record' heq
    obtain ⟨rfl, hmemory⟩ := Ends.done.inj heq
    obtain ⟨rfl, rfl⟩ := Prod.mk.inj hmemory
    exact ⟨[], (List.append_nil _).symm, h heap⟩
  · intro heap record thrown heap' record' heq
    contradiction
  · intro heap record heq
    contradiction

/-- What follows one computation and then another follows both. -/
theorem bind {d : β → Comp (H × List Expr) A γ} {P : β → Prop}
    (hc : ev.Follows first last start c mid) (hP : c.Gives P)
    (hd : ∀ b, P b → ev.Follows first last (mid b) (d b) finish) :
  ev.Follows first last start (c >>= d) finish
  := by
  constructor
  · intro heap record b' heap' record' heq
    obtain ⟨b, memory, hb, he⟩ | ⟨_, _, _, he⟩ | ⟨_, he⟩ := Comp.bind_cases heq
    · obtain ⟨trace, hrecord, htrace⟩ := hc.done hb
      obtain ⟨trace', rfl, htrace'⟩ := (hd b (hP.of_done hb)).done he
      use trace ++ trace'
      rw [hrecord, List.append_assoc]
      exact ⟨rfl, htrace.trans htrace'⟩
    · contradiction
    · contradiction
  · intro heap record thrown heap' record' heq
    obtain ⟨b, memory, hb, he⟩ | ⟨_, _, hc', he⟩ | ⟨_, he⟩ := Comp.bind_cases heq
    · obtain ⟨trace, hrecord, htrace⟩ := hc.done hb
      obtain ⟨trace', e, heap'', rfl, harrives, hthrows⟩ := (hd b (hP.of_done hb)).throws he
      use trace ++ trace', e, heap''
      rw [hrecord, List.append_assoc, List.append_assoc]
      exact ⟨rfl, harrives.of_traverses htrace, hthrows⟩
    · obtain ⟨rfl, rfl⟩ := Ends.throws.inj he
      apply hc.throws hc'
    · contradiction
  · intro heap record heq
    obtain ⟨b, memory, hb, he⟩ | ⟨_, _, _, he⟩ | ⟨hc', _⟩ := Comp.bind_cases heq
    · obtain ⟨trace, -, htrace⟩ := hc.done hb
      obtain ⟨trace', e, heap', harrives, hstuck⟩ := (hd b (hP.of_done hb)).stuck he
      exact ⟨trace ++ trace', e, heap', harrives.of_traverses htrace, hstuck⟩
    · contradiction
    · apply hc.stuck hc'

/-- What is followed within some places is followed within more. -/
theorem mono {first' last' : Nat} (h : ev.Follows first last start c mid)
    (hfirst : first' ≤ first) (hlast : last ≤ last') :
  ev.Follows first' last' start c mid
  := by
  constructor
  · intro heap record b heap' record' heq
    obtain ⟨trace, hrecord, htrace⟩ := h.done heq
    exact ⟨trace, hrecord, htrace.mono hfirst hlast⟩
  · intro heap record thrown heap' record' heq
    obtain ⟨trace, e, heap'', hrecord, harrives, hthrows⟩ := h.throws heq
    exact ⟨trace, e, heap'', hrecord, harrives.mono hfirst hlast, hthrows⟩
  · intro heap record heq
    obtain ⟨trace, e, heap', harrives, hstuck⟩ := h.stuck heq
    exact ⟨trace, e, heap', harrives.mono hfirst hlast, hstuck⟩

/-- Tests may come after a computation. -/
theorem extend (h : ev.Follows first last start c mid)
    (hfinish : ∀ b heap, ev.Traverses first last (mid b heap) [] (finish' b heap)) :
  ev.Follows first last start c finish'
  := by
  constructor
  · intro heap record b heap' record' heq
    obtain ⟨trace, hrecord, htrace⟩ := h.done heq
    have hall := htrace.trans (hfinish b heap')
    rw [List.append_nil] at hall
    exact ⟨trace, hrecord, hall⟩
  · intro heap record thrown heap' record' heq
    apply h.throws heq
  · intro heap record heq
    apply h.stuck heq

/-- The code of an expression evaluates the expression. -/
theorem leaf {e : Expr} {kind : Kind} (h : ev.Leaf e kind) {place next : Nat}
    (hoccupies : ev.Occupies e place next) (hfirst : first ≤ place) (hlast : next < last)
    (stack : List (Value A)) :
  ev.Follows first last (State.mk place stack ev.frame) (recorded ev.value e)
    (fun v => State.mk next (v :: stack) ev.frame)
  := by
  have harrives (heap : H) :
      ev.Arrives first last (State.mk place stack ev.frame heap) [] e heap :=
    ⟨place, next, stack, hfirst, hlast, hoccupies, .refl _⟩
  constructor
  · intro heap record v heap' record' heq
    unfold recorded at heq
    split at heq
    · next hvalue =>
      obtain ⟨rfl, hmemory⟩ := Ends.done.inj heq
      obtain ⟨rfl, rfl⟩ := Prod.mk.inj hmemory
      use [e], rfl
      exact .leaf hfirst hlast hoccupies hvalue (h.pushes hoccupies hvalue stack) (.refl _)
    · contradiction
    · contradiction
  · intro heap record thrown heap' record' heq
    unfold recorded at heq
    split at heq
    · contradiction
    · next hvalue =>
      obtain ⟨rfl, hmemory⟩ := Ends.throws.inj heq
      obtain ⟨rfl, rfl⟩ := Prod.mk.inj hmemory
      exact ⟨[], e, heap, rfl, harrives heap, hvalue⟩
    · contradiction
  · intro heap record heq
    unfold recorded at heq
    split at heq
    · contradiction
    · contradiction
    · next hvalue => exact ⟨[], e, heap, harrives heap, hvalue⟩

end Follows

/-- The value that is recorded for a leaf has its kind. -/
theorem Leaf.gives_recorded {e : Expr} {kind : Kind} (h : ev.Leaf e kind) :
  (recorded ev.value e).Gives fun v => v.kind = kind
  := by
  constructor
  intro memory v memory' heq
  unfold recorded at heq
  split at heq
  · next hvalue =>
    obtain ⟨rfl, -⟩ := Ends.done.inj heq
    apply h.gives.of_done hvalue
  · contradiction
  · contradiction

/-! ### Tests -/

variable {place : Nat} {stack stack' : List (Value A)} {heap : H}

theorem Traverses.of_label {l : Label} (hi : ev.code.instructions[place]? = some (.label l))
    (hfirst : first ≤ place) (hlast : place < last) :
  ev.Traverses first last ⟨place, stack, ev.frame, heap⟩ [] ⟨place + 1, stack, ev.frame, heap⟩
  := by
  apply Traverses.test hfirst hlast hi rfl _ (.refl _)
  rw [step_of_getElem? hi]
  rfl

/-- A branch, taken when the truth value is the given one. -/
theorem Traverses.of_branch {test : BranchTest} {target : Label} {place' : Nat} {b onTrue : Bool}
    (hi : ev.code.instructions[place]? = some (.branch test target))
    (htarget : placeOf? ev.code.instructions target = some place')
    (htest : branch? ev.world test stack = some (decide (b = onTrue), stack'))
    (hfirst : first ≤ place) (hlast : place < last) :
  ev.Traverses first last ⟨place, stack, ev.frame, heap⟩ []
    ⟨if b = onTrue then place' else place + 1, stack', ev.frame, heap⟩
  := by
  apply Traverses.test hfirst hlast hi rfl _ (.refl _)
  rw [step_of_getElem? hi, World.act_branch, htest]
  by_cases hb : b = onTrue
  · rw [decide_eq_true hb, if_pos hb, settle, enter, htarget]
  · rw [decide_eq_false hb, if_neg hb, settle]

theorem Traverses.of_compare {kind : Kind} {nanGreater : Bool} {x y : Value A} {o : Comparison}
    (hi : ev.code.instructions[place]? = some (.compare kind nanGreater))
    (hcompare : Value.compare? ev.world.floating kind x y = some o)
    (hfirst : first ≤ place) (hlast : place < last) :
  ev.Traverses first last ⟨place, y :: x :: stack, ev.frame, heap⟩ []
    ⟨place + 1, .int (Value.ofComparison nanGreater o) :: stack, ev.frame, heap⟩
  := by
  apply Traverses.test hfirst hlast hi rfl _ (.refl _)
  rw [step_of_getElem? hi, World.act_compare, hcompare]
  rfl

variable {target : Label} {place' : Nat} {onTrue : Bool}

/-- A branch on a comparison goes by whether the condition holds of the two values. -/
theorem Traverses.of_tests {kind : Kind} {x y : Value A} {condition : Condition}
    (hx : x.kind = kind) (hy : y.kind = kind) (hcondition : condition.AppliesTo kind)
    (hstands : StandsAt ev.code.instructions place (condition.tests kind target onTrue))
    (htarget : placeOf? ev.code.instructions target = some place') (stack : List (Value A)) :
  ∃ b, Value.test? ev.world.floating condition kind x y = some b
    ∧ ∀ heap, ev.Traverses place (place + (condition.tests kind target onTrue).length)
      ⟨place, y :: x :: stack, ev.frame, heap⟩ []
      ⟨if b = onTrue then place' else place + (condition.tests kind target onTrue).length, stack,
        ev.frame, heap⟩
  := by
  have hnarrow (hkind : kind = .int ∨ kind = .reference)
      (hi : ev.code.instructions[place]?
        = some (.branch (.compare kind (condition.tested onTrue)) target)) :
      ∃ b, Value.test? ev.world.floating condition kind x y = some b
        ∧ ∀ heap, ev.Traverses place (place + 1) ⟨place, y :: x :: stack, ev.frame, heap⟩ []
          ⟨if b = onTrue then place' else place + 1, stack, ev.frame, heap⟩ := by
    obtain ⟨b, hb, hbranch⟩ := exists_branch?_compare (w := ev.world) hx hy
      (hkind.imp id fun h => ⟨h, hcondition.tested onTrue h⟩) stack
    use b, hb
    intro heap
    apply Traverses.of_branch hi htarget hbranch (by omega) (by omega)
  have hwide (hkind : kind = .long ∨ kind = .float ∨ kind = .double)
      (hcompare : ev.code.instructions[place]?
        = some (.compare kind (kind ≠ .long && (condition = .lt || condition = .le))))
      (hi : ev.code.instructions[place + 1]?
        = some (.branch (.zero (condition.tested onTrue)) target)) :
      ∃ b, Value.test? ev.world.floating condition kind x y = some b
        ∧ ∀ heap, ev.Traverses place (place + 2) ⟨place, y :: x :: stack, ev.frame, heap⟩ []
          ⟨if b = onTrue then place' else place + 2, stack, ev.frame, heap⟩ := by
    obtain ⟨o, ho, hb, hbranch⟩ :=
      exists_branch?_ofComparison (w := ev.world) hkind hx hy condition onTrue stack
    use condition.holds o, hb
    intro heap
    apply (Traverses.of_compare hcompare ho (by omega) (by omega)).trans
    apply Traverses.of_branch hi htarget hbranch (by omega) (by omega)
  cases kind with
  | int => apply hnarrow (by simp) hstands.1
  | reference => apply hnarrow (by simp) hstands.1
  | long => apply hwide (by simp) hstands.1 hstands.2.1
  | float => apply hwide (by simp) hstands.1 hstands.2.1
  | double => apply hwide (by simp) hstands.1 hstands.2.1

end Evaluator

end ClassForge
