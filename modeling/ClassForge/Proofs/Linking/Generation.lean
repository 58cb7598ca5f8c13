import ClassForge.Lowering.Method
import ClassForge.Proofs.Linking.Code
import ClassForge.Proofs.Linking.Errors
import ClassForge.Proofs.Lowering.Generation
import ClassForge.Proofs.Switch

/-!
# Code of expressions and statements that can be encoded

Lowering fails only for something that is not supported or for which there is no instruction.
The code that it gives for an expression creates an array with one dimension only where the
expression does, it accesses the locals of its scope only, and all labels in it are made up.
-/

namespace ClassForge

/-! ### Expressions within others -/

/-- The expressions whose values an expression asks for. -/
def Expr.operands : Expr → List Expr
  | .literal _ | .var _ | .self | .caught _ => []
  | .field _ _ _ object => object.toList
  | .element array index _ => [array, index]
  | .invoke _ _ _ _ receiver args => receiver.toList ++ args
  | .new _ _ args => args
  | .newArray _ lengths => lengths
  | .length operand | .neg operand _ | .not operand | .instanceOf operand _ | .cast operand _
  | .convert operand _ _ => [operand]
  | .arith _ left right _ | .logic _ left right | .compare _ left right _ => [left, right]

/-- An expression within another, at any depth. -/
inductive Expr.Within (e : Expr) : Expr → Prop where
  | refl : Within e e
  | operand {outer operand : Expr} (h : operand ∈ outer.operands) (hwithin : Within e operand) :
    Within e outer

/-- No array with one dimension is created in the expression whose elements would have no
values. -/
def Expr.ArraysValued (e : Expr) : Prop :=
  ∀ elem length, (Expr.newArray (.array elem) [length]).Within e → elem.erasure.isValueless = false

/-- The property holds of what creates arrays with one dimension for the expression. -/
def Expr.CreatesOnly (Q : Instruction → Prop) (e : Expr) : Prop :=
  ∀ elem length, (Expr.newArray (.array elem) [length]).Within e → Q (.newArray elem.erasure)

/-- What is created in an operand is created in the expression. -/
theorem Expr.CreatesOnly.operand {Q : Instruction → Prop} {outer operand : Expr}
    (h : outer.CreatesOnly Q) (hoperand : operand ∈ outer.operands) :
  operand.CreatesOnly Q
  := by
  intro elem length hwithin
  apply h elem length (.operand hoperand hwithin)

theorem Expr.ArraysValued.createsOnly {e : Expr} (h : e.ArraysValued) :
  e.CreatesOnly Instruction.Encodable
  := by
  rintro elem length hwithin _ ⟨⟩
  apply h elem length hwithin

/-! ### Generators -/

/-- Neither a label nor a switch nor the creation of an array with one dimension nor an access to
a local. -/
@[grind]
def Instruction.isPlain : Instruction → Bool
  | .label _ | .switch _ | .newArray _ | .load .. | .store .. | .increment .. => false
  | _ => true

/-- The property holds of all plain instructions and of all labels that are made up. -/
structure Gen.Lenient (Q : Instruction → Prop) : Prop where
  plain : ∀ {i : Instruction}, i.isPlain = true → Q i
  madeUp : ∀ n, Q (.label (Gen.madeUp n))

/-- The property holds of all accesses to locals that code in the scope may have. -/
structure Scope.Allows (scope : Scope) (Q : Instruction → Prop) : Prop where
  receiver : scope.method.isStatic = false → Q (.load 0 .reference)
  load : ∀ {name l kind}, scope.locals.find name = .ok l → Kind.of l.type = .ok kind →
    Q (.load l.slot kind)
  store : ∀ {name l kind}, scope.locals.find name = .ok l → Kind.of l.type = .ok kind →
    Q (.store l.slot kind)

/-- What holds of every access to a local holds of those in a scope. -/
theorem Scope.allows_of_access {Q : Instruction → Prop}
    (h : ∀ i, i.localAccess?.isSome = true → Q i) (scope : Scope) :
  scope.Allows Q
  := by
  constructor
  · intro _
    apply h _ rfl
  · intro name l kind _ _
    apply h _ rfl
  · intro name l kind _ _
    apply h _ rfl

/-- What holds of made-up labels is lenient as a property of labels alone. -/
theorem Gen.lenient_label {P : Label → Prop} (h : ∀ n, P (Gen.madeUp n)) :
  Gen.Lenient fun i => ∀ l, i = .label l → P l
  := by
  constructor
  · rintro i hi l rfl
    contradiction
  · rintro n l ⟨⟩
    apply h

/-- No access to a local is a label. -/
theorem Scope.allows_label (P : Label → Prop) (scope : Scope) :
  scope.Allows fun i => ∀ l, i = .label l → P l
  := by
  apply Scope.allows_of_access
  rintro i hi l rfl
  contradiction

/-- Plain instructions and labels can be encoded. -/
theorem Gen.lenient_encodable :
  Gen.Lenient Instruction.Encodable
  := by
  constructor
  · rintro i hi elem rfl
    contradiction
  · intro n
    nofun

/-- The generator fails only as can be expected, and the property holds of what it emits. -/
structure Gen.Regular {α : Type} (Q : Instruction → Prop) (x : Gen α) : Prop where
  failsOnly : ∀ index labels, FailsOnly CompileError.Foreseen (x index labels)
  emits : ∀ {index labels out}, x index labels = .ok out → ∀ i ∈ out.code, Q i

namespace Gen.Regular

variable {α β : Type} {Q : Instruction → Prop}

/-- A value alone is regular. -/
theorem pure (a : α) :
  (Gen.pure a).Regular Q
  := by
  constructor
  · intro index labels
    apply FailsOnly.ok
  · intro index labels out hout
    obtain rfl := pure_eq_ok.mp hout
    intro i hi
    contradiction

/-- What follows a value needs to be regular for the values that there can be. -/
theorem bindOf {x : Gen α} {f : α → Gen β} (hx : x.Regular Q)
    (hf : ∀ {index labels a}, x index labels = .ok a → (f a.value).Regular Q) :
  (x >>= f).Regular Q
  := by
  constructor
  · intro index labels
    constructor
    intro e he
    change Gen.bind x f index labels = .error e at he
    rw [Gen.bind] at he
    split at he
    · next e' he' =>
      obtain rfl := Except.error.inj he
      apply (hx.failsOnly index labels).of_error he'
    · next a ha =>
      split at he
      · next e' he' =>
        obtain rfl := Except.error.inj he
        apply ((hf ha).failsOnly _ _).of_error he'
      · contradiction
  · intro index labels out hout
    obtain ⟨a, b, ha, hb, rfl⟩ := bind_eq_ok.mp hout
    intro i hi
    obtain hi | hi := List.mem_append.mp hi
    · apply hx.emits ha i hi
    · apply (hf ha).emits hb i hi

theorem bind {x : Gen α} {f : α → Gen β} (hx : x.Regular Q) (hf : ∀ a, (f a).Regular Q) :
  (x >>= f).Regular Q
  := hx.bindOf fun _ => hf _

/-- An instruction with the property is regular. -/
theorem emit {i : Instruction} (h : Q i) :
  (Gen.emit i).Regular Q
  := by
  constructor
  · intro index labels
    apply FailsOnly.ok
  · intro index labels out hout
    obtain rfl := emit_eq_ok.mp hout
    intro j hj
    obtain rfl := List.mem_singleton.mp hj
    apply h

/-- A check emits nothing. -/
theorem check (x : Except InstructionError α) :
  (Gen.check x).Regular Q
  := by
  constructor
  · intro index labels
    cases x with
    | error e => exact FailsOnly.error rfl
    | ok a => apply FailsOnly.ok
  · intro index labels out hout
    obtain ⟨a, -, rfl⟩ := check_eq_ok.mp hout
    intro i hi
    contradiction

/-- An instruction that is checked is regular if it has the property. -/
theorem emitChecked {x : Except InstructionError Instruction} (h : ∀ i, x = .ok i → Q i) :
  (Gen.emitChecked x).Regular Q
  := by
  cases x with
  | error e =>
      constructor
      · intro index labels
        exact FailsOnly.error rfl
      · intro index labels out hout
        contradiction
  | ok i => apply emit (h i rfl)

/-- An instruction at the end of a generator that gives a value. -/
theorem emitThen {i : Instruction} (h : Q i) (a : α) :
  (Gen.emit i >>= fun _ => Gen.pure a).Regular Q
  := (emit h).bind fun _ => pure a

theorem fail {reason : Unsupported} (h : reason.isForeseen = true) :
  (Gen.fail reason : Gen α).Regular Q
  := by
  constructor
  · intro index labels
    exact FailsOnly.error h
  · intro index labels out hout
    contradiction

theorem require {x : Except Unsupported α} (h : FailsOnly (Unsupported.isForeseen · = true) x) :
  (Gen.require x).Regular Q
  := by
  cases x with
  | error reason => apply fail (h.of_error rfl)
  | ok a => apply pure

/-- What follows a value that is required needs to be regular if there is such a value. -/
theorem requireThen {x : Except Unsupported α} {f : α → Gen β}
    (h : FailsOnly (Unsupported.isForeseen · = true) x) (hf : ∀ a, x = .ok a → (f a).Regular Q) :
  (Gen.require x >>= f).Regular Q
  := by
  apply (require h).bindOf
  intro index labels out hout
  obtain ⟨a, ha, rfl⟩ := require_eq_ok.mp hout
  apply hf a ha

/-- A new label is made up. -/
theorem fresh {f : Label → Gen β} (hf : ∀ n, (f (madeUp n)).Regular Q) :
  (Gen.fresh >>= f).Regular Q
  := by
  have hfresh : Gen.fresh.Regular Q := by
    constructor
    · intro index labels
      apply FailsOnly.ok
    · intro index labels out hout
      obtain rfl := fresh_eq_ok.mp hout
      intro i hi
      contradiction
  apply hfresh.bindOf
  intro index labels out hout
  obtain rfl := fresh_eq_ok.mp hout
  apply hf labels

/-- Generators for the elements of a list are regular together. -/
theorem forEach {f : α → Gen Unit} {as : List α} (h : ∀ a ∈ as, (f a).Regular Q) :
  (Gen.forEach f as).Regular Q
  := by
  induction as with
  | nil => apply pure
  | cons a as ih =>
      rw [forEach_cons]
      apply bind (h a List.mem_cons_self)
      intro _
      apply ih fun a' ha' => h a' (List.mem_cons_of_mem a ha')

end Gen.Regular

/-- Plain instructions may be emitted. -/
theorem Gen.Lenient.emitChecked {Q : Instruction → Prop} (hQ : Lenient Q)
    {x : Except InstructionError Instruction} (h : ∀ i, x = .ok i → i.isPlain = true) :
  (Gen.emitChecked x).Regular Q
  := Regular.emitChecked fun i hi => hQ.plain (h i hi)

theorem Gen.Lenient.emitCheckedThen {Q : Instruction → Prop} (hQ : Lenient Q)
    {x : Except InstructionError Instruction} (h : ∀ i, x = .ok i → i.isPlain = true) {α : Type}
    (a : α) :
  (Gen.emitChecked x >>= fun _ => Gen.pure a).Regular Q
  := (hQ.emitChecked h).bind fun _ => Regular.pure a

open Gen (Lenient Regular)

variable {Q : Instruction → Prop} {scope : Scope}

/-! ### Expressions -/

/-- The code of an expression is regular, both for its value and in jumps. -/
structure ExprCode.Regular (Q : Instruction → Prop) (code : ExprCode) : Prop where
  value : code.value.Regular Q
  jump : ∀ target onTrue, (code.jump target onTrue).Regular Q

namespace ExprCode.Regular

variable (hQ : Lenient Q) {left right : ExprCode}
include hQ

/-- An expression with a value is regular if the value is. -/
theorem ofValue {value : Gen Ty} (h : value.Regular Q) :
  (ExprCode.ofValue value).Regular Q
  := by
  constructor
  · apply h
  · intro target onTrue
    apply h.bind
    intro type
    split
    · exact Regular.emit (hQ.plain rfl)
    · apply Regular.fail rfl

/-- An expression with a jump is regular if the jump is. -/
theorem ofJump {jump : Label → Bool → Gen Unit}
    (h : ∀ target onTrue, (jump target onTrue).Regular Q) :
  (ExprCode.ofJump jump).Regular Q
  := by
  constructor
  · apply Regular.fresh
    intro onFalse
    apply Regular.fresh
    intro done
    apply (h _ false).bind
    intro _
    refine Regular.bind (Regular.emit (hQ.plain rfl)) fun _ => ?_
    refine Regular.bind (Regular.emit (hQ.plain rfl)) fun _ => ?_
    refine Regular.bind (Regular.emit (hQ.madeUp onFalse)) fun _ => ?_
    refine Regular.bind (Regular.emit (hQ.plain rfl)) fun _ => ?_
    apply Regular.emitThen (hQ.madeUp done)
  · apply h

/-- A conjunction is regular if its operands are. -/
theorem jumpAnd (hleft : left.Regular Q) (hright : right.Regular Q) (target : Label)
    (onTrue : Bool) :
  (left.jumpAnd right target onTrue).Regular Q
  := by
  cases onTrue with
  | true =>
      apply Regular.fresh
      intro skip
      apply (hleft.jump _ false).bind
      intro _
      apply (hright.jump target true).bind
      intro _
      apply Regular.emit (hQ.madeUp skip)
  | false =>
      apply (hleft.jump target false).bind
      intro _
      apply hright.jump target false

/-- A disjunction is regular if its operands are. -/
theorem jumpOr (hleft : left.Regular Q) (hright : right.Regular Q) (target : Label)
    (onTrue : Bool) :
  (left.jumpOr right target onTrue).Regular Q
  := by
  cases onTrue with
  | true =>
      apply (hleft.jump target true).bind
      intro _
      apply hright.jump target true
  | false =>
      apply Regular.fresh
      intro skip
      apply (hleft.jump _ true).bind
      intro _
      apply (hright.jump target false).bind
      intro _
      apply Regular.emit (hQ.madeUp skip)

/-- A comparison is regular if its operands are. -/
theorem jumpCompare (condition : Condition) (hleft : left.Regular Q) (hright : right.Regular Q)
    (type : Ty) (target : Label) (onTrue : Bool) :
  (ExprCode.jumpCompare condition left right type target onTrue).Regular Q
  := by
  apply hleft.value.bind
  intro _
  apply hright.value.bind
  intro _
  apply (Regular.check _).bind
  intro kind
  have hbranch : (Gen.emitChecked (Checked.branchIf type
      (if onTrue then condition else condition.negate) target)).Regular Q :=
    hQ.emitChecked (by grind [Checked.branchIf])
  have htest : (Gen.emitChecked (Checked.compare type condition) >>= fun _ =>
      Gen.emit (.ifZero (if onTrue then condition else condition.negate) target)).Regular Q :=
    (hQ.emitChecked (by grind [Checked.compare])).bind fun _ => Regular.emit (hQ.plain rfl)
  cases kind with
  | int | reference => apply hbranch
  | long | float | double => apply htest

end ExprCode.Regular

/-- The check of a call fails only for what is foreseen. -/
theorem checkCall_failsOnly (mode : InvokeMode) (name : String) (type : MethodType)
    (hasReceiver : Bool) (args : Nat) :
  FailsOnly (Unsupported.isForeseen · = true) (checkCall mode name type hasReceiver args)
  := by
  unfold checkCall
  split
  · exact FailsOnly.error rfl
  · split
    · exact FailsOnly.error rfl
    · split
      · exact FailsOnly.error rfl
      · apply FailsOnly.ok

theorem Locals.find_failsOnly (locals : Locals) (name : String) :
  FailsOnly (Unsupported.isForeseen · = true) (locals.find name)
  := by
  unfold Locals.find
  split
  · apply FailsOnly.ok
  · exact FailsOnly.error rfl

section Expressions

variable (hQ : Lenient Q)
include hQ

/-- The code of a literal is regular. -/
theorem Literal.code_regular (l : Literal) :
  l.code.Regular Q
  := by
  have hinstruction : ∀ i, l.instruction = .ok i → i.isPlain = true := by
    intro i hi
    unfold Literal.instruction at hi
    split at hi <;> grind [Checked.getField, Instruction.int]
  have hvalue : (Gen.emitChecked l.instruction >>= fun _ => Gen.pure l.type).Regular Q :=
    hQ.emitCheckedThen hinstruction _
  cases l with
  | boolean b =>
      constructor
      · apply hvalue
      · intro target onTrue
        simp only [Literal.code]
        split
        · exact Regular.emit (hQ.plain rfl)
        · apply Regular.pure
  | _ => apply ExprCode.Regular.ofValue hQ hvalue

/-- Only the instruction for one length depends on the type of the elements. -/
theorem newArrayCode_regular {type elem : Ty} {count : Nat}
    (h : count = 1 → Q (.newArray elem.erasure)) :
  (newArrayCode type elem count).Regular Q
  := by
  unfold newArrayCode
  split
  · apply Regular.fail rfl
  · apply Regular.emitChecked
    have hnew := h rfl
    grind [Checked.newArray]
  · apply hQ.emitChecked
    grind [Checked.newArrays]

/-- The code of a cast is regular. -/
theorem castCode_regular (source target : Ty) :
  (castCode source target).Regular Q
  := by
  unfold castCode
  split
  · split
    · apply Regular.pure
    · apply hQ.emitChecked
      grind [Checked.conversion]
  · apply hQ.emitChecked
    grind [Checked.checkCast]

end Expressions

mutual

/-- The code of an expression is regular if what creates its arrays has the property. -/
theorem Expr.code_regular (hQ : Lenient Q) (hscope : scope.Allows Q) :
  (e : Expr) → e.CreatesOnly Q → (e.code scope).Regular Q
  | .literal l, _ => by
      rw [Expr.code]
      apply Literal.code_regular hQ
  | .var name, _ => by
      rw [Expr.code]
      apply ExprCode.Regular.ofValue hQ
      apply Regular.requireThen (scope.locals.find_failsOnly name)
      intro l hl
      refine Regular.bind (Regular.emitChecked fun i hi => ?_) fun _ => Regular.pure _
      obtain ⟨kind, hkind, hi⟩ := Except.bind_eq_ok_iff.mp hi
      obtain rfl := Except.ok.inj hi
      apply hscope.load hl hkind
  | .self, _ => by
      rw [Expr.code]
      apply ExprCode.Regular.ofValue hQ
      split
      · apply Regular.fail rfl
      · next hstatic => apply Regular.emitThen (hscope.receiver (Bool.eq_false_iff.mpr hstatic))
  | .field owner name type object, h => by
      rw [Expr.code]
      apply ExprCode.Regular.ofValue hQ
      apply (Expr.valueIfAny_regular hQ hscope object fun e he =>
        h.operand (Option.mem_toList.mpr he)).bind
      intro _
      apply hQ.emitCheckedThen (by grind [Checked.getField])
  | .element array index elem, h => by
      rw [Expr.code]
      apply ExprCode.Regular.ofValue hQ
      apply (Expr.code_regular hQ hscope array (h.operand (by simp [Expr.operands]))).value.bind
      intro _
      apply (Expr.code_regular hQ hscope index (h.operand (by simp [Expr.operands]))).value.bind
      intro _
      apply hQ.emitCheckedThen (by grind [Checked.arrayLoad])
  | .length array, h => by
      rw [Expr.code]
      apply ExprCode.Regular.ofValue hQ
      apply (Expr.code_regular hQ hscope array (h.operand List.mem_cons_self)).value.bind
      intro _
      apply Regular.emitThen (hQ.plain rfl)
  | .invoke mode owner name type receiver args, h => by
      rw [Expr.code]
      apply ExprCode.Regular.ofValue hQ
      apply (Regular.require (checkCall_failsOnly ..)).bind
      intro _
      apply (Expr.valueIfAny_regular hQ hscope receiver fun e he =>
        h.operand (List.mem_append_left args (Option.mem_toList.mpr he))).bind
      intro _
      apply (Expr.valuesInOrder_regular hQ hscope args fun e he =>
        h.operand (List.mem_append_right _ he)).bind
      intro _
      apply Regular.emitThen (hQ.plain rfl)
  | .new type params args, h => by
      rw [Expr.code]
      apply ExprCode.Regular.ofValue hQ
      apply (hQ.emitChecked (by cases type <;> grind [Checked.new])).bind
      intro _
      refine Regular.bind (Regular.emit (hQ.plain rfl)) fun _ => ?_
      apply (Expr.valuesInOrder_regular hQ hscope args fun e he => h.operand he).bind
      intro _
      apply Regular.emitThen (hQ.plain rfl)
  | .newArray type lengths, h => by
      cases type with
      | array elem =>
          rw [Expr.code]
          apply ExprCode.Regular.ofValue hQ
          apply (Expr.valuesInOrder_regular hQ hscope lengths fun e he => h.operand he).bind
          intro _
          have hnew : lengths.length = 1 → Q (.newArray elem.erasure) := by
            intro hlength
            obtain ⟨length, rfl⟩ := List.length_eq_one_iff.mp hlength
            apply h elem length .refl
          apply (newArrayCode_regular hQ hnew).bind
          intro _
          apply Regular.pure
      | _ =>
          rw [Expr.code]
          · exact ExprCode.Regular.ofValue hQ (Regular.fail rfl)
          · intro elem helem
            contradiction
  | .neg operand type, h => by
      rw [Expr.code]
      apply ExprCode.Regular.ofValue hQ
      apply (Expr.code_regular hQ hscope operand (h.operand List.mem_cons_self)).value.bind
      intro _
      apply hQ.emitCheckedThen (by grind [Checked.neg])
  | .not operand, h => by
      rw [Expr.code]
      apply ExprCode.Regular.ofJump hQ
      intro target onTrue
      apply (Expr.code_regular hQ hscope operand (h.operand List.mem_cons_self)).jump
  | .arith op left right type, h => by
      rw [Expr.code]
      apply ExprCode.Regular.ofValue hQ
      apply (Expr.code_regular hQ hscope left (h.operand (by simp [Expr.operands]))).value.bind
      intro _
      apply (Expr.code_regular hQ hscope right (h.operand (by simp [Expr.operands]))).value.bind
      intro _
      apply hQ.emitCheckedThen (by grind [Checked.arith])
  | .logic op left right, h => by
      have hleft := Expr.code_regular hQ hscope left (h.operand (by simp [Expr.operands]))
      have hright := Expr.code_regular hQ hscope right (h.operand (by simp [Expr.operands]))
      cases op with
      | and =>
          rw [Expr.code]
          apply ExprCode.Regular.ofJump hQ (ExprCode.Regular.jumpAnd hQ hleft hright)
      | or =>
          rw [Expr.code]
          apply ExprCode.Regular.ofJump hQ (ExprCode.Regular.jumpOr hQ hleft hright)
  | .compare condition left right type, h => by
      have hleft := Expr.code_regular hQ hscope left (h.operand (by simp [Expr.operands]))
      have hright := Expr.code_regular hQ hscope right (h.operand (by simp [Expr.operands]))
      rw [Expr.code]
      apply ExprCode.Regular.ofJump hQ (ExprCode.Regular.jumpCompare hQ condition hleft hright type)
  | .instanceOf value type, h => by
      rw [Expr.code]
      apply ExprCode.Regular.ofValue hQ
      apply (Expr.code_regular hQ hscope value (h.operand List.mem_cons_self)).value.bind
      intro _
      apply hQ.emitCheckedThen (by grind [Checked.instanceOf])
  | .cast value type, h => by
      rw [Expr.code]
      apply ExprCode.Regular.ofValue hQ
      apply (Expr.code_regular hQ hscope value (h.operand List.mem_cons_self)).value.bind
      intro source
      apply (castCode_regular hQ source type).bind
      intro _
      apply Regular.pure
  | .convert value source target, h => by
      rw [Expr.code]
      apply ExprCode.Regular.ofValue hQ
      apply (Expr.code_regular hQ hscope value (h.operand List.mem_cons_self)).value.bind
      intro _
      split
      · apply (Regular.pure ()).bind
        intro _
        apply Regular.pure
      · apply hQ.emitCheckedThen (by grind [Checked.conversion])
  | .caught type, _ => by
      rw [Expr.code]
      apply ExprCode.Regular.ofValue hQ (Regular.pure type)

/-- The value that there may be is regular if its expression is. -/
theorem Expr.valueIfAny_regular (hQ : Lenient Q) (hscope : scope.Allows Q) :
  (e? : Option Expr) → (∀ e ∈ e?, e.CreatesOnly Q) → (Expr.valueIfAny scope e?).Regular Q
  | none, _ => by
      rw [Expr.valueIfAny]
      apply Regular.pure
  | some e, h => by
      rw [Expr.valueIfAny]
      apply (Expr.code_regular hQ hscope e (h e rfl)).value.bind
      intro _
      apply Regular.pure

/-- Values in order are regular if their expressions are. -/
theorem Expr.valuesInOrder_regular (hQ : Lenient Q) (hscope : scope.Allows Q) :
  (es : List Expr) → (∀ e ∈ es, e.CreatesOnly Q) → (Expr.valuesInOrder scope es).Regular Q
  | [], _ => by
      rw [Expr.valuesInOrder]
      apply Regular.pure
  | e :: es, h => by
      rw [Expr.valuesInOrder]
      apply (Expr.code_regular hQ hscope e (h e List.mem_cons_self)).value.bind
      intro _
      apply Expr.valuesInOrder_regular hQ hscope es fun e' he' => h e' (List.mem_cons_of_mem e he')

end

/-! ### Statements -/

/-- The expressions of a place. -/
def Place.operands : Place → List Expr
  | .var _ => []
  | .field _ _ _ object => object.toList
  | .element array index _ => [array, index]

/-- The expressions of a statement. -/
def Stmt.operands : Stmt → List Expr
  | .assign place value => place.operands ++ [value]
  | .eval operand | .throw operand | .branch operand _ | .lock operand | .unlock operand
  | .switch operand _ _ => [operand]
  | .ret value => value.toList
  | .goto _ | .label _ => []

section Statements

variable (hQ : Lenient Q) (hscope : scope.Allows Q)
include hQ hscope

/-- The code of an assignment is regular if that of its expressions is. -/
theorem Place.assign_regular {value : Expr} (hvalue : value.CreatesOnly Q)
    {place : Place} (hplace : ∀ e ∈ place.operands, e.CreatesOnly Q) :
  (place.assign scope value).Regular Q
  := by
  have hvalue : (value.value scope).Regular Q := (Expr.code_regular hQ hscope value hvalue).value
  cases place with
  | var name =>
      apply Regular.requireThen (scope.locals.find_failsOnly name)
      intro l hl
      apply hvalue.bind
      intro _
      apply Regular.emitChecked
      intro i hi
      obtain ⟨kind, hkind, hi⟩ := Except.bind_eq_ok_iff.mp hi
      obtain rfl := Except.ok.inj hi
      apply hscope.store hl hkind
  | field owner name type object =>
      apply (Expr.valueIfAny_regular hQ hscope object fun e he =>
        hplace e (Option.mem_toList.mpr he)).bind
      intro _
      apply hvalue.bind
      intro _
      apply hQ.emitChecked
      grind [Checked.putField]
  | element array index elem =>
      apply (Expr.code_regular hQ hscope array (hplace array (by simp [Place.operands]))).value.bind
      intro _
      apply (Expr.code_regular hQ hscope index (hplace index (by simp [Place.operands]))).value.bind
      intro _
      apply hvalue.bind
      intro _
      apply hQ.emitChecked
      grind [Checked.arrayStore]

/-- The switch is the one that the statement is lowered to. -/
def Stmt.Selects (s : Stmt) (switch : Switch) : Prop :=
  ∃ key cases fallback, s = .switch key cases fallback
    ∧ Switch.ofCases fallback cases = .ok switch

/-- The code of a statement is regular if that of its expressions is and the property holds of
the label or the switch that it may be. -/
theorem Stmt.code_regular (s : Stmt) (h : ∀ e ∈ s.operands, e.CreatesOnly Q)
    (hlabel : ∀ l, s = .label l → Q (.label l))
    (hswitch : ∀ switch, s.Selects switch → Q (.switch switch)) :
  (s.code scope).Regular Q
  := by
  have hoperand (e : Expr) (he : e ∈ s.operands) : (e.code scope).Regular Q :=
    Expr.code_regular hQ hscope e (h e he)
  cases s with
  | assign place value =>
      apply Place.assign_regular hQ hscope (h value (by simp [Stmt.operands]))
      intro e he
      apply h e (List.mem_append_left _ he)
  | eval e =>
      apply (hoperand e List.mem_cons_self).value.bind
      intro type
      split
      · apply Regular.pure
      · apply hQ.emitChecked
        grind [Checked.pop]
  | ret value =>
      cases value with
      | none =>
          rw [Stmt.code]
          split
          · exact Regular.emit (hQ.plain rfl)
          · apply Regular.fail rfl
      | some value =>
          rw [Stmt.code]
          split
          · apply Regular.fail rfl
          · apply (hoperand value List.mem_cons_self).value.bind
            intro _
            apply hQ.emitChecked
            grind [Checked.ret]
  | throw value =>
      apply (hoperand value List.mem_cons_self).value.bind
      intro _
      exact Regular.emit (hQ.plain rfl)
  | goto target => exact Regular.emit (hQ.plain rfl)
  | branch condition target => apply (hoperand condition List.mem_cons_self).jump
  | label l =>
      rw [Stmt.code]
      split
      · apply Regular.fail rfl
      · apply Regular.emit (hlabel l rfl)
  | lock value =>
      apply (hoperand value List.mem_cons_self).value.bind
      intro _
      exact Regular.emit (hQ.plain rfl)
  | unlock value =>
      apply (hoperand value List.mem_cons_self).value.bind
      intro _
      exact Regular.emit (hQ.plain rfl)
  | switch key cases fallback =>
      apply (hoperand key List.mem_cons_self).value.bind
      intro type
      split
      · apply Regular.emitChecked
        intro i hi
        obtain ⟨switch, hs, rfl⟩ := Checked.switch_eq_ok hi
        apply hswitch switch ⟨key, cases, fallback, rfl, hs⟩
      · apply Regular.fail rfl

end Statements

end ClassForge
