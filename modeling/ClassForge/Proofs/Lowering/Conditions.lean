import ClassForge.Proofs.Linking.Generation
import ClassForge.Proofs.Lowering.Traversal

/-!
# Branches on conditions

A condition is a tree of negations, conjunctions and disjunctions over truth values, comparisons
and leaves. The verdict of a condition is its truth value when the right operand of a conjunction
or disjunction is evaluated only if the left one does not decide.

The code of a branch on a condition comes to its target or to its end by the verdict, with the
stack as it was, and evaluates on the way what the verdict asks for. It does not leave its own
places before, but a label that it has made up itself is one of them: a branch to such a label goes
on within the condition.
-/

namespace ClassForge

open Machine Execution

variable {H A : Type} [DecidableEq A]

/-! ### Verdicts -/

/-- Whether a branch on the expression tests its value. -/
def Expr.isLeaf : Expr → Bool
  | .literal (.boolean _) | .not _ | .logic .. | .compare .. => false
  | _ => true

/-- The truth value of a condition, where leaves and operands of comparisons evaluate to the given
values. -/
def Expr.verdict (floating : Floating) (value : Expr → Comp H A (Value A)) :
    Expr → Comp H A Bool
  | .literal (.boolean b) => return b
  | .not operand => do return !(← operand.verdict floating value)
  | .logic op left right => op.eval (left.verdict floating value) (right.verdict floating value)
  | .compare condition left right type => do
    let x ← value left
    let y ← value right
    let kind ← Comp.require type.kind?
    Comp.require (Value.test? floating condition kind x y)
  | e => do Comp.require (← value e).truth?

namespace Evaluator

variable {ev : Evaluator H A} {target : Label} {place : Nat} {onTrue : Bool}

/-! ### Branches -/

/-- The generator emits code that, wherever it stands, comes to the target if the truth value is the
given one and to its end otherwise, with the stack as it was. -/
def BranchesTo (ev : Evaluator H A) (target : Label) (onTrue : Bool) (g : Gen Unit)
    (c : Comp (H × List Expr) A Bool) : Prop :=
  ∀ index labels, ∃ out, g index labels = .ok out
    ∧ ∀ {place}, StandsAt ev.code.instructions index out.code →
      placeOf? ev.code.instructions target = some place → ∀ stack,
      ev.Follows index (index + out.code.length) (State.mk index stack ev.frame) c
        fun b => State.mk (if b = onTrue then place else index + out.code.length) stack ev.frame

/-- The jump branches by the truth value, whatever the target. -/
def Branches (ev : Evaluator H A) (jump : Label → Bool → Gen Unit)
    (c : Comp (H × List Expr) A Bool) : Prop :=
  ∀ target onTrue, ev.BranchesTo target onTrue (jump target onTrue) c

namespace Branches

variable {left right : ExprCode} {c c' : Comp (H × List Expr) A Bool}

/-- A truth value that is written down is not tested. -/
theorem boolean (b : Bool) :
  ev.Branches (Literal.code (.boolean b)).jump (pure b)
  := by
  intro target onTrue index labels
  by_cases hb : b = onTrue
  · use ⟨(), [.goto target], labels⟩
    constructor
    · change (if b = onTrue then Gen.emit (.goto target) else _) index labels = _
      rw [if_pos hb]
      rfl
    · intro place hstands htarget stack
      apply Follows.of_traverses
      intro heap
      apply Traverses.of_branch hstands.1 htarget _ (by omega) (by simp)
      rw [decide_eq_true hb]
      rfl
  · use ⟨(), [], labels⟩
    constructor
    · change (if b = onTrue then _ else Gen.pure ()) index labels = _
      rw [if_neg hb]
      rfl
    · intro place hstands htarget stack
      apply Follows.of_traverses
      intro heap
      rw [if_neg hb]
      apply Traverses.refl

/-- The branch on a negation is the one on the other truth value. -/
theorem not {jump : Label → Bool → Gen Unit} (h : ev.Branches jump c) :
  ev.Branches (fun target onTrue => jump target !onTrue) (do return !(← c))
  := by
  intro target onTrue index labels
  obtain ⟨out, hout, hfollows⟩ := h target (!onTrue) index labels
  use out, hout
  intro place hstands htarget stack
  apply (hfollows hstands htarget stack).bind (P := fun _ => True) ⟨fun _ => True.intro⟩
  intro b _
  apply Follows.of_traverses
  intro heap
  cases b <;> cases onTrue <;> apply Traverses.refl

/-- Both operands branch to the target when they have the truth value that decides. -/
theorem decided (hleft : ev.Branches left.jump c) (hright : ev.Branches right.jump c') (d : Bool)
    (target : Label) :
  ev.BranchesTo target d (do left.jump target d; right.jump target d) (Comp.decided d c c')
  := by
  intro index labels
  obtain ⟨x, hx, hfollows⟩ := hleft target d index labels
  obtain ⟨y, hy, hfollows'⟩ := hright target d (index + x.code.length) x.labels
  use ⟨(), x.code ++ y.code, y.labels⟩, Gen.bind_eq_ok.mpr ⟨x, y, hx, hy, rfl⟩
  intro place hstands htarget stack
  obtain ⟨hstands, hstands'⟩ := standsAt_append.mp hstands
  rw [List.length_append, ← Nat.add_assoc]
  apply ((hfollows hstands htarget stack).mono (Nat.le_refl _) (Nat.le_add_right ..)).bind
    (P := fun _ => True) ⟨fun _ => True.intro⟩
  intro b _
  by_cases hb : b = d
  · simp only [if_pos hb]
    apply Follows.of_traverses
    intro heap
    rw [if_pos rfl]
    apply Traverses.refl
  · simp only [if_neg hb]
    apply (hfollows' hstands' htarget stack).mono (Nat.le_add_right ..) (Nat.le_refl _)

/-- The left operand branches past the right one when it decides, and the right one branches to the
target when it has the other truth value. -/
theorem undecided (hleft : ev.Branches left.jump c) (hright : ev.Branches right.jump c') (d : Bool)
    (target : Label) :
  ev.BranchesTo target (!d)
    (do
      let skip ← Gen.fresh
      left.jump skip d
      right.jump target !d
      Gen.emit (.label skip))
    (Comp.decided d c c')
  := by
  intro index labels
  obtain ⟨x, hx, hfollows⟩ := hleft (Gen.madeUp labels) d index (labels + 1)
  obtain ⟨y, hy, hfollows'⟩ := hright target (!d) (index + x.code.length) x.labels
  use ⟨(), x.code ++ (y.code ++ [.label (Gen.madeUp labels)]), y.labels⟩
  constructor
  · simp only [Gen.bind_eq_ok, Gen.fresh_eq_ok, Gen.emit_eq_ok]
    exact ⟨_, _, rfl, ⟨x, _, hx, ⟨y, _, hy, rfl, rfl⟩, rfl⟩, rfl⟩
  intro place hstands htarget stack
  obtain ⟨hstands, hstands'⟩ := standsAt_append.mp hstands
  obtain ⟨hstands', hskip, -⟩ := standsAt_append.mp hstands'
  rw [List.length_append, List.length_append, ← Nat.add_assoc, ← Nat.add_assoc]
  have hover (heap : H) : ev.Traverses index (index + x.code.length + y.code.length + 1)
      ⟨index + x.code.length + y.code.length, stack, ev.frame, heap⟩ []
      ⟨index + x.code.length + y.code.length + 1, stack, ev.frame, heap⟩ :=
    Traverses.of_label hskip (by omega) (by omega)
  apply ((hfollows hstands (ev.placed hskip) stack).mono (Nat.le_refl _) (by omega)).bind
    (P := fun _ => True) ⟨fun _ => True.intro⟩
  intro b _
  by_cases hb : b = d
  · simp only [if_pos hb]
    apply Follows.of_traverses
    intro heap
    rw [if_neg (by simp)]
    apply hover
  · simp only [if_neg hb]
    apply ((hfollows' hstands' htarget stack).mono (by omega) (by omega)).extend
    intro b' heap
    by_cases hb' : b' = !d
    · rw [if_pos hb', if_pos hb']
      apply Traverses.refl
    · rw [if_neg hb', if_neg hb']
      apply hover

theorem and (hleft : ev.Branches left.jump c) (hright : ev.Branches right.jump c') :
  ev.Branches (left.jumpAnd right) (LogicOp.eval c c' .and)
  := by
  intro target onTrue
  rw [LogicOp.eval_and]
  cases onTrue with
  | true => apply undecided hleft hright false
  | false => apply decided hleft hright false

theorem or (hleft : ev.Branches left.jump c) (hright : ev.Branches right.jump c') :
  ev.Branches (left.jumpOr right) (LogicOp.eval c c' .or)
  := by
  intro target onTrue
  rw [LogicOp.eval_or]
  cases onTrue with
  | true => apply decided hleft hright true
  | false => apply undecided hleft hright true

/-- A branch by the value of an expression. -/
theorem leaf {e : Expr} (h : ev.Leaf e .int)
    (hint : ∀ {place labels out}, e.value ev.scope place labels = .ok out →
      out.value.isIntLike = true) :
  ev.Branches (ExprCode.ofValue (e.value ev.scope)).jump
    (do Comp.require (← recorded ev.value e).truth?)
  := by
  intro target onTrue index labels
  obtain ⟨x, hx⟩ := h.emits index labels
  use ⟨(), x.code ++ [.ifZero (if onTrue then .ne else .eq) target], x.labels⟩
  constructor
  · apply Gen.bind_eq_ok.mpr
    use x, ⟨(), [.ifZero (if onTrue then .ne else .eq) target], x.labels⟩, hx
    rw [if_pos (hint hx)]
    exact ⟨rfl, rfl⟩
  intro place hstands htarget stack
  obtain ⟨hstands, hbranch, -⟩ := standsAt_append.mp hstands
  rw [List.length_append, ← Nat.add_assoc]
  apply (Follows.leaf h ⟨labels, x, hx, hstands, rfl⟩ (Nat.le_refl _) (by simp) stack).bind
    h.gives_recorded
  intro v hv
  cases v with
  | int n =>
      apply Follows.of_traverses
      intro heap
      apply Traverses.of_branch hbranch htarget (branch?_ifZero n onTrue stack) (by omega) (by simp)
  | _ => contradiction

/-- The branch on a comparison evaluates both operands and then tests them. -/
theorem compare {e e' : Expr} {type : Ty} {kind : Kind} {condition : Condition}
    (hkind : type.kind? = some kind) (hcondition : condition.AppliesTo kind)
    (h : ev.Leaf e kind) (h' : ev.Leaf e' kind) :
  ev.Branches (ExprCode.jumpCompare condition (e.code ev.scope) (e'.code ev.scope) type) (do
    let x ← recorded ev.value e
    let y ← recorded ev.value e'
    let kind ← Comp.require type.kind?
    Comp.require (Value.test? ev.world.floating condition kind x y))
  := by
  intro target onTrue index labels
  obtain ⟨x, hx⟩ := h.emits index labels
  obtain ⟨y, hy⟩ := h'.emits (index + x.code.length) x.labels
  have hpos := condition.tests_length_pos kind target onTrue
  use ⟨(), x.code ++ (y.code ++ condition.tests kind target onTrue), y.labels⟩,
    ExprCode.jumpCompare_eq_ok hkind hcondition hx hy target onTrue
  intro place hstands htarget stack
  obtain ⟨hstands, hstands'⟩ := standsAt_append.mp hstands
  obtain ⟨hstands', htests⟩ := standsAt_append.mp hstands'
  rw [List.length_append, List.length_append, ← Nat.add_assoc, ← Nat.add_assoc, hkind]
  apply (Follows.leaf h ⟨labels, x, hx, hstands, rfl⟩ (Nat.le_refl _) (by omega) stack).bind
    h.gives_recorded
  intro v hv
  apply (Follows.leaf h' ⟨x.labels, y, hy, hstands', rfl⟩ (by omega) (by omega) (v :: stack)).bind
    h'.gives_recorded
  intro v' hv'
  obtain ⟨b, hb, htraverses⟩ := Traverses.of_tests hv hv' hcondition htests htarget stack
  change ev.Follows _ _ _ (Comp.require (Value.test? ev.world.floating condition kind v v')) _
  rw [hb]
  apply Follows.of_traverses
  intro heap
  apply (htraverses heap).mono (by omega) (Nat.le_refl _)

end Branches

/-! ### Conditions -/

/-- The expression is a condition: truth values, comparisons of values of one kind and leaves that
are like integers, put together by negations, conjunctions and disjunctions. -/
inductive IsCondition (ev : Evaluator H A) : Expr → Prop
  | boolean (b : Bool) : IsCondition ev (.literal (.boolean b))
  | not {operand : Expr} (h : IsCondition ev operand) : IsCondition ev (.not operand)
  | logic (op : LogicOp) {left right : Expr} (hleft : IsCondition ev left)
      (hright : IsCondition ev right) : IsCondition ev (.logic op left right)
  | compare {condition : Condition} {left right : Expr} {type : Ty} {kind : Kind}
      (hkind : type.kind? = some kind) (hcondition : condition.AppliesTo kind)
      (hleft : ev.Leaf left kind) (hright : ev.Leaf right kind) :
      IsCondition ev (.compare condition left right type)
  | leaf {e : Expr} (hleaf : e.isLeaf = true) (h : ev.Leaf e .int)
      (hint : ∀ {place labels out}, e.value ev.scope place labels = .ok out →
        out.value.isIntLike = true) : IsCondition ev e

/-- The jump of a leaf tests its value. -/
theorem jump_of_isLeaf {e : Expr} (h : e.isLeaf = true) (scope : Scope) :
  e.jump scope = (ExprCode.ofValue (e.value scope)).jump
  := by
  cases e with
  | literal l =>
      cases l with
      | boolean b => contradiction
      | _ => rfl
  | not _ | logic _ _ _ | compare _ _ _ _ => contradiction
  | _ => rfl

/-- The verdict on an expression without structure is its value. -/
theorem verdict_of_isLeaf {e : Expr} (h : e.isLeaf = true) (floating : Floating)
    (value : Expr → Comp H A (Value A)) :
  e.verdict floating value = (do Comp.require (← value e).truth?)
  := by
  cases e with
  | literal l =>
      cases l with
      | boolean b => contradiction
      | _ => rfl
  | not _ | logic _ _ _ | compare _ _ _ _ => contradiction
  | _ => rfl

/-- The branch on a condition goes by its verdict. -/
theorem IsCondition.branches {e : Expr} (h : ev.IsCondition e) :
  ev.Branches (e.jump ev.scope) (e.verdict ev.world.floating (recorded ev.value))
  := by
  induction h with
  | boolean b => apply Branches.boolean
  | not _ ih => apply ih.not
  | logic op _ _ ihleft ihright =>
      cases op with
      | and => apply Branches.and ihleft ihright
      | or => apply Branches.or ihleft ihright
  | compare hkind hcondition hleft hright => apply Branches.compare hkind hcondition hleft hright
  | leaf hleaf h hint =>
      rw [jump_of_isLeaf hleaf, verdict_of_isLeaf hleaf]
      apply Branches.leaf h hint

/-- The labels in the code of a branch are made up. -/
theorem eq_madeUp_of_jump {e : Expr} {scope : Scope} {index labels : Nat} {out : Emitted Unit}
    {l : Label} (hout : e.jump scope target onTrue index labels = .ok out)
    (hl : .label l ∈ out.code) :
  ∃ n, l = Gen.madeUp n
  := by
  have hlenient : Gen.Lenient fun i => ∀ l, i = .label l → ∃ n, l = Gen.madeUp n :=
    Gen.lenient_label fun n => ⟨n, rfl⟩
  have hscope := scope.allows_label fun l => ∃ n, l = Gen.madeUp n
  have hregular := Expr.code_regular hlenient hscope e (by nofun)
  apply (hregular.jump target onTrue).emits hout _ hl l rfl

/-- The branch on a condition decides it. Its code is emitted and comes to the target if the verdict
is the truth value that is asked for, and to its end otherwise, with the stack as it was, having
evaluated what the verdict asks for and nothing else. The run thereby leaves the code unless the
target stands within it, and only a label that is made up does. -/
theorem jump_follows_verdict {e : Expr} (h : ev.IsCondition e) (target : Label) (onTrue : Bool)
    (index labels : Nat) :
  ∃ out, e.jump ev.scope target onTrue index labels = .ok out
    ∧ (.label target ∈ out.code → ∃ n, target = Gen.madeUp n)
    ∧ ∀ {place}, StandsAt ev.code.instructions index out.code →
      placeOf? ev.code.instructions target = some place →
      (.label target ∈ out.code ↔ index ≤ place ∧ place < index + out.code.length)
        ∧ ∀ stack, ev.Follows index (index + out.code.length) (State.mk index stack ev.frame)
          (e.verdict ev.world.floating (recorded ev.value))
          fun b => State.mk (if b = onTrue then place else index + out.code.length) stack ev.frame
  := by
  obtain ⟨out, hout, hfollows⟩ := h.branches target onTrue index labels
  use out, hout, eq_madeUp_of_jump hout
  intro place hstands htarget
  use ev.label_mem_iff hstands htarget
  apply hfollows hstands htarget

/-- A variable like an integer is a condition that evaluates to what its slot holds. -/
theorem IsCondition.var {name : String} {l : LocalSlot} {n : Int32}
    (hl : ev.scope.locals.find name = .ok l) (hint : l.type.isIntLike = true)
    (hkind : Kind.of l.type = .ok .int)
    (hload : ev.frame.load? l.slot.toNat .int = some (.int n))
    (hvalue : ev.value (.var name) = pure (.int n)) :
  ev.IsCondition (.var name)
  := by
  have hinstruction : Checked.load l.slot l.type = .ok (.load l.slot .int) := by
    rw [Checked.load, hkind]
    rfl
  have hcode (place labels : Nat) :
      (Expr.var name).value ev.scope place labels = .ok ⟨l.type, [.load l.slot .int], labels⟩ :=
    Gen.bind_eq_ok.mpr ⟨_, _, Gen.require_eq_ok.mpr ⟨l, hl, rfl⟩, Gen.bind_eq_ok.mpr
      ⟨_, _, Gen.emitChecked_eq_ok.mpr ⟨_, hinstruction, rfl⟩, rfl, rfl⟩, rfl⟩
  apply IsCondition.leaf rfl
  · constructor
    · intro place labels
      exact ⟨_, hcode place labels⟩
    · rintro place next heap v heap' ⟨labels, out, hout, hstands, rfl⟩ heq stack
      obtain rfl := Except.ok.inj (hout.symm.trans (hcode place labels))
      rw [hvalue] at heq
      obtain ⟨rfl, rfl⟩ := Ends.done.inj heq
      apply Reaches.of_step
      rw [step_of_getElem? hstands.1, World.act_load, hload]
      rfl
    · rw [hvalue]
      exact Comp.Gives.pure rfl
  · intro place labels out hout
    obtain rfl := Except.ok.inj (hout.symm.trans (hcode place labels))
    apply hint

end Evaluator

/-! ### A branch into a condition -/

/-- The condition `(a && b) || c`. -/
def admission : Expr :=
  .logic .or (.logic .and (.var "a") (.var "b")) (.var "c")

/-- The code of a branch on the condition. -/
def admissionCode (target : Label) : List Instruction :=
  [.load 0 .int, .ifZero .eq ⟨"#0"⟩, .load 1 .int, .ifZero .ne target, .label ⟨"#0"⟩,
    .load 2 .int, .ifZero .ne target]

/-- The branch on the condition within a method, where `a` and `b` are true and `c` is false. -/
def admitting (target : Label) : Evaluator Unit Nat where
  world := constantWorld
  code := ⟨admissionCode target ++ [.ret none, .label ⟨"done"⟩, .ret none], [], 3⟩
  scope := ⟨.object ⟨[], ["Gate"]⟩ [],
    ⟨"enter", staticFlag, [], [⟨"a", .boolean⟩, ⟨"b", .boolean⟩, ⟨"c", .boolean⟩], .void, [], none⟩,
    ⟨[⟨"a", .boolean, 0⟩, ⟨"b", .boolean, 1⟩, ⟨"c", .boolean, 2⟩], 3⟩⟩
  frame slot := [.int 1, .int 1, .int 0][slot]?
  value
    | .var name => pure (.int (if name = "c" then 0 else 1))
    | _ => Comp.stuck
  placed := by
    intro l place hl
    have hpositions : ∃ positions, positionsFrom ∅ 0
        (admissionCode target ++ [.ret none, .label ⟨"done"⟩, .ret none]) = .ok positions := by
      simp [admissionCode, positionsFrom, Instruction.ifZero]
    obtain ⟨positions, hpositions⟩ := hpositions
    apply placeOf?_of_positions hpositions hl

theorem admitting_isCondition_var (target : Label) :
  ∀ name ∈ ["a", "b", "c"], (admitting target).IsCondition (.var name)
  := by
  have ha : (admitting target).IsCondition (.var "a") := .var rfl rfl rfl rfl rfl
  have hb : (admitting target).IsCondition (.var "b") := .var rfl rfl rfl rfl rfl
  have hc : (admitting target).IsCondition (.var "c") := .var rfl rfl rfl rfl rfl
  simp only [List.forall_mem_cons]
  exact ⟨ha, hb, hc, List.forall_mem_nil _⟩

theorem admitting_isCondition (target : Label) :
  (admitting target).IsCondition admission
  := by
  have hvar := admitting_isCondition_var target
  apply Evaluator.IsCondition.logic .or _ (hvar "c" (by simp))
  apply Evaluator.IsCondition.logic .and (hvar "a" (by simp)) (hvar "b" (by simp))

/-- A branch to a label of the method leaves the condition once `a` and `b` are evaluated. A branch
to the label that the condition has made up itself stays within it, evaluates `c` as well and comes
to the end. -/
theorem admitting_jump_follows :
  (admitting ⟨"done"⟩).Traverses 0 7 ⟨0, [], (admitting ⟨"done"⟩).frame, ()⟩
      [.var "a", .var "b"] ⟨8, [], (admitting ⟨"done"⟩).frame, ()⟩
    ∧ (admitting ⟨"#0"⟩).Traverses 0 7 ⟨0, [], (admitting ⟨"#0"⟩).frame, ()⟩
      [.var "a", .var "b"] ⟨4, [], (admitting ⟨"#0"⟩).frame, ()⟩
    ∧ (admitting ⟨"#0"⟩).Traverses 0 7 ⟨0, [], (admitting ⟨"#0"⟩).frame, ()⟩
      [.var "a", .var "b", .var "c"] ⟨7, [], (admitting ⟨"#0"⟩).frame, ()⟩
  := by
  have hadmission {target : Label} {place : Nat}
      (hplace : placeOf? (admitting target).code.instructions target = some place) :
      (admitting target).Traverses 0 7 ⟨0, [], (admitting target).frame, ()⟩
        [.var "a", .var "b"] ⟨place, [], (admitting target).frame, ()⟩ := by
    obtain ⟨out, hout, -, hfollows⟩ :=
      Evaluator.jump_follows_verdict (admitting_isCondition target) target true 0 0
    have hcode : admission.jump (admitting target).scope target true 0 0
        = .ok ⟨(), admissionCode target, 1⟩ := rfl
    obtain rfl := Except.ok.inj (hcode.symm.trans hout)
    have hstands : StandsAt (admitting target).code.instructions 0 (admissionCode target) :=
      standsAt_middle [] (admissionCode target) [.ret none, .label ⟨"done"⟩, .ret none]
    have hverdict : admission.verdict (admitting target).world.floating
        (recorded (admitting target).value) ((), [])
          = .done true ((), [.var "a", .var "b"]) := rfl
    obtain ⟨trace, rfl, htrace⟩ := ((hfollows hstands hplace).2 []).done hverdict
    apply htrace
  have hplace : placeOf? (admitting ⟨"#0"⟩).code.instructions ⟨"#0"⟩ = some 4 := rfl
  refine ⟨hadmission rfl, hadmission hplace, (hadmission hplace).trans ?_⟩
  obtain ⟨out, hout, -, hfollows⟩ := Evaluator.jump_follows_verdict
    (admitting_isCondition_var ⟨"#0"⟩ "c" (by simp)) ⟨"#0"⟩ true 5 1
  have hcode : (Expr.var "c").jump (admitting ⟨"#0"⟩).scope ⟨"#0"⟩ true 5 1
      = .ok ⟨(), [.load 2 .int, .ifZero .ne ⟨"#0"⟩], 1⟩ := rfl
  obtain rfl := Except.ok.inj (hcode.symm.trans hout)
  have hverdict : (Expr.var "c").verdict (admitting ⟨"#0"⟩).world.floating
      (recorded (admitting ⟨"#0"⟩).value) ((), []) = .done false ((), [.var "c"]) := rfl
  obtain ⟨trace, rfl, htrace⟩ := ((hfollows ⟨rfl, rfl, True.intro⟩ hplace).2 []).done hverdict
  apply (Evaluator.Traverses.of_label (l := ⟨"#0"⟩) rfl (by simp) (by simp)).trans
  apply htrace.mono (by simp) (by simp)

end ClassForge
