import ClassForge.Proofs.Lowering.Statement
import ClassForge.Proofs.Stack.Generation
import ClassForge.Proofs.Stack.Width

/-!
# Depths of lowered code

The code of an expression whose operands have the slots that are asked of them leaves the slots
of its value on the stack, and the code of a statement leaves the stack empty. Only the label of
a handler leaves the thrown value, which the statement after it picks up.
-/

namespace ClassForge

open Gen (Grades Admits)

/-! ### Expressions -/

/-- A literal leaves the slots of its type. -/
theorem Literal.code_grades (l : Literal) :
  l.code.Grades false l.type.slots
  := by
  have hvalue (P : Grading → Prop) (base : Nat) :
      (Gen.emitChecked l.instruction >>= fun _ => Gen.pure l.type).Grades P base
        (base + l.type.slots) :=
    (Grades.emitMoves Literal.instruction_moves (Nat.zero_le base) rfl).thenPure _
  cases l with
  | boolean b =>
      constructor
      · apply hvalue
      · intro _ P base target onTrue htarget
        simp only [Literal.code]
        split
        · apply Grades.emitGoto htarget (Nat.le_refl base)
        · apply Grades.pure
  | _ => apply ExprCode.Grades.ofValue hvalue

/-- The creation of an array takes its lengths and leaves one slot. -/
theorem newArrayCode_grades {P : Grading → Prop} (type elem : Ty) (base count : Nat) :
  (newArrayCode type elem count).Grades P (base + count) (base + 1)
  := by
  unfold newArrayCode
  split
  · apply Grades.fail
  · apply Grades.emitMoves Checked.newArray_moves (by omega) (by omega)
  · apply Grades.emitMoves Checked.newArrays_moves (by omega) (by omega)

/-- A call has a receiver unless it is static. -/
theorem checkCall_eq_ok {mode : InvokeMode} {name : String} {type : MethodType}
    {hasReceiver : Bool} {args : Nat} (h : checkCall mode name type hasReceiver args = .ok ()) :
  mode = .static ↔ hasReceiver = false
  := by
  unfold checkCall at h
  grind

theorem castCode_same (p : Primitive) :
  castCode (.primitive p) (.primitive p) = Gen.pure ()
  := by
  rw [castCode, if_pos (by rfl), if_pos rfl]

theorem castCode_primitive {p q : Primitive} (h : p ≠ q) :
  castCode (.primitive p) (.primitive q)
    = Gen.emitChecked (Checked.conversion (.primitive p) (.primitive q))
  := by
  rw [castCode, if_pos (by rfl), if_neg (h ∘ Ty.primitive.inj)]

theorem castCode_reference {source target : Ty}
    (h : (source.primitive?.isSome && target.primitive?.isSome) = false) :
  castCode source target = Gen.emitChecked (Checked.checkCast target)
  := by
  rw [castCode, h, if_neg Bool.false_ne_true]

variable {scope : Scope} {ctx : Context}

/-- What a value is cast or converted to takes the slots of the new type. -/
theorem conversion_grades {P : Grading → Prop} (p q : Primitive) (base : Nat) :
  (Gen.emitChecked (Checked.conversion (.primitive p) (.primitive q))).Grades P
    (base + p.kind.slots) (base + q.kind.slots)
  := Grades.emitMoves Checked.conversion_moves (by omega) (by omega)

mutual

/-- The code of an expression leaves the slots of its value on the stack. -/
theorem Expr.code_grades (hfits : scope.Fits ctx) :
  (e : Expr) → {c : Bool} → {slots : Nat} → e.PicksUp c → Expr.Takes ctx e slots →
    (e.code scope).Grades c slots
  | .literal l, c, _, hpicks, .literal => by
      obtain rfl : c = false := hpicks.operands nofun nofun
      rw [Expr.code]
      apply Literal.code_grades
  | .var name, c, _, hpicks, .var htype => by
      obtain rfl : c = false := hpicks.operands nofun nofun
      rw [Expr.code]
      apply ExprCode.Grades.ofValue
      intro P base
      apply Grades.requireThen
      intro l hl
      rw [hfits.typeOf?, Locals.find_eq_ok.mp hl] at htype
      obtain rfl := Option.some.inj htype
      apply (Grades.emitMoves Checked.load_moves (Nat.zero_le _) rfl).thenPure
  | .self, c, _, hpicks, .self => by
      obtain rfl : c = false := hpicks.operands nofun nofun
      rw [Expr.code]
      apply ExprCode.Grades.ofValue
      intro P base
      change Grades (if _ then _ else _) _ _ _
      split
      · apply Grades.fail
      · have hload : (Instruction.load 0 .reference).Moves 0 1 := ⟨rfl, rfl, rfl, rfl⟩
        apply (Grades.emit fun g _ => hload.step g (Nat.zero_le _) rfl).thenPure
  | .field owner name type object, c, _, hpicks, .field hobject => by
      rw [Expr.code]
      apply ExprCode.Grades.ofValue
      intro P base
      apply (Expr.valueIfAny_grades hfits object (hpicks.operands nofun nofun) hobject P base).bind
      intro _
      apply (Grades.emitMoves Checked.getField_moves (by omega) (by omega)).thenPure
  | .element array index elem, c, _, hpicks, .element harray hindex => by
      obtain ⟨hfirst, hsecond, -⟩ := hpicks.operands nofun nofun
      have hindex := Expr.code_grades hfits index hsecond hindex
      rw [Expr.code]
      apply ExprCode.Grades.ofValue
      intro P base
      apply ((Expr.code_grades hfits array hfirst harray).value P base).bind
      intro _
      apply (hindex.value P (base + 1)).bind
      intro _
      apply (Grades.emitMoves Checked.arrayLoad_moves (by omega) (by omega)).thenPure
  | .length array, c, _, hpicks, .length harray => by
      obtain ⟨hfirst, -⟩ := hpicks.operands nofun nofun
      rw [Expr.code]
      apply ExprCode.Grades.ofValue
      intro P base
      apply ((Expr.code_grades hfits array hfirst harray).value P base).bind
      intro _
      have hlength : Instruction.arrayLength.Moves 1 1 := ⟨rfl, rfl, rfl, rfl⟩
      apply (Grades.emit fun g _ => hlength.step g (by omega) (by omega)).thenPure
  | .invoke mode owner name type receiver args, c, _, hpicks, .invoke hreceiver hargs => by
      have hpicks := hpicks.operands nofun nofun
      have hvalue (c) (hc : Expr.PickUp c receiver.toList) :=
        Expr.valueIfAny_grades hfits receiver hc hreceiver
      have hvalues (c) (hc : Expr.PickUp c args) := Expr.valuesInOrder_grades hfits args hc hargs
      have hinvoke := Checked.invoke_moves owner name type mode
      rw [Expr.code]
      apply ExprCode.Grades.ofValue
      intro P base
      apply Grades.requireThen
      intro _ hcall
      have hmode := checkCall_eq_ok hcall
      cases receiver with
      | none =>
          rw [if_pos (hmode.mpr rfl)] at hinvoke
          rw [Expr.valueIfAny]
          apply (Grades.pure ()).bind
          intro _
          apply (hvalues c hpicks P base).bind
          intro _
          apply (Grades.emit fun g _ => hinvoke.step g (by omega) (by omega)).thenPure
      | some receiver =>
          rw [if_neg fun hstatic => nomatch hmode.mp hstatic] at hinvoke
          apply (hvalue c ⟨hpicks.1, rfl⟩ P base).bind
          intro _
          apply (hvalues false hpicks.2 P (base + 1)).bind
          intro _
          apply (Grades.emit fun g _ => hinvoke.step g (by omega) (by omega)).thenPure
  | .new type params args, c, _, hpicks, .new hargs => by
      obtain ⟨rfl, hargs'⟩ := hpicks.args
      have hinvoke : (Checked.invoke type "<init>" ⟨params, .void⟩ .special).Moves
          (slotsOf (params.map Ty.erasure) + 1) 0 := Checked.invoke_moves ..
      rw [Expr.code]
      apply ExprCode.Grades.ofValue
      intro P base
      apply (Grades.emitMoves Checked.new_moves (e := base + 1) (Nat.zero_le _) rfl).bind
      intro _
      have hdup : (Instruction.dup 1).Moves 1 2 := ⟨rfl, rfl, rfl, rfl⟩
      apply (Grades.emit (e := base + 2) fun g _ => hdup.step g (by omega) (by omega)).bind
      intro _
      apply (Expr.valuesInOrder_grades hfits args hargs' hargs P (base + 2)).bind
      intro _
      apply (Grades.emit fun g _ => hinvoke.step g (by omega) (by omega)).thenPure
  | .newArray type lengths, c, _, hpicks, .newArray hlengths => by
      cases type with
      | array elem =>
          rw [Expr.code]
          apply ExprCode.Grades.ofValue
          intro P base
          apply (Expr.valuesInOrder_grades hfits lengths (hpicks.operands nofun nofun) hlengths P
            base).bind
          intro _
          rw [slotsOf_replicate, show Ty.int.slots = 1 from rfl, Nat.mul_one]
          apply (newArrayCode_grades _ _ base lengths.length).thenPure
      | _ =>
          rw [Expr.code]
          · exact ExprCode.Grades.ofValue fun P base => Grades.fail
          · intro elem helem
            contradiction
  | .neg operand type, c, _, hpicks, .neg hoperand => by
      obtain ⟨hfirst, -⟩ := hpicks.operands nofun nofun
      rw [Expr.code]
      apply ExprCode.Grades.ofValue
      intro P base
      apply ((Expr.code_grades hfits operand hfirst hoperand).value P base).bind
      intro _
      apply (Grades.emitMoves Checked.neg_moves (by omega) (by omega)).thenPure
  | .not operand, c, _, hpicks, .not hoperand => by
      obtain ⟨hfirst, -⟩ := hpicks.operands nofun nofun
      rw [Expr.code]
      apply ExprCode.Grades.ofJump
      intro P base target onTrue
      apply (Expr.code_grades hfits operand hfirst hoperand).jump rfl
  | .arith op left right type, c, _, hpicks, .arith hleft hright => by
      obtain ⟨hfirst, hsecond, -⟩ := hpicks.operands nofun nofun
      have hright := Expr.code_grades hfits right hsecond hright
      rw [Expr.code]
      apply ExprCode.Grades.ofValue
      intro P base
      apply ((Expr.code_grades hfits left hfirst hleft).value P base).bind
      intro _
      apply (hright.value P (base + type.slots)).bind
      intro _
      apply (Grades.emitMoves Checked.arith_moves (by omega) (by omega)).thenPure
  | .logic op left right, c, _, hpicks, .logic hleft hright => by
      obtain ⟨hfirst, hsecond, -⟩ := hpicks.operands nofun nofun
      have hleft := Expr.code_grades hfits left hfirst hleft
      have hright := Expr.code_grades hfits right hsecond hright
      cases op with
      | and =>
          rw [Expr.code]
          apply ExprCode.Grades.ofJump
          intro P base target
          apply hleft.jumpAnd hright
      | or =>
          rw [Expr.code]
          apply ExprCode.Grades.ofJump
          intro P base target
          apply hleft.jumpOr hright
  | .compare condition left right type, c, _, hpicks, .compare hleft hright => by
      obtain ⟨hfirst, hsecond, -⟩ := hpicks.operands nofun nofun
      have hleft := Expr.code_grades hfits left hfirst hleft
      have hright := Expr.code_grades hfits right hsecond hright
      rw [Expr.code]
      apply ExprCode.Grades.ofJump
      intro P base target
      apply hleft.jumpCompare condition hright
  | .instanceOf value type, c, _, hpicks, .instanceOf hvalue => by
      obtain ⟨hfirst, -⟩ := hpicks.operands nofun nofun
      rw [Expr.code]
      apply ExprCode.Grades.ofValue
      intro P base
      apply ((Expr.code_grades hfits value hfirst hvalue).value P base).bind
      intro _
      apply (Grades.emitMoves Checked.instanceOf_moves (by omega) (by omega)).thenPure
  | .cast value _, c, _, hpicks, .castSame htype hvalue => by
      obtain ⟨hfirst, -⟩ := hpicks.operands nofun nofun
      rw [Expr.code]
      apply ExprCode.Grades.ofValue
      intro P base
      apply ((Expr.code_grades hfits value hfirst hvalue).value P base).bindYields
        (Expr.yields_type hfits value)
      rw [htype, castCode_same]
      apply (Grades.pure ()).thenPure
  | .cast value _, c, _, hpicks, .castPrimitive htype hne hvalue => by
      obtain ⟨hfirst, -⟩ := hpicks.operands nofun nofun
      rw [Expr.code]
      apply ExprCode.Grades.ofValue
      intro P base
      apply ((Expr.code_grades hfits value hfirst hvalue).value P base).bindYields
        (Expr.yields_type hfits value)
      rw [htype, castCode_primitive hne]
      apply (conversion_grades _ _ base).thenPure
  | .cast value _, c, _, hpicks, .castReference htypes hvalue => by
      obtain ⟨hfirst, -⟩ := hpicks.operands nofun nofun
      rw [Expr.code]
      apply ExprCode.Grades.ofValue
      intro P base
      apply ((Expr.code_grades hfits value hfirst hvalue).value P base).bindYields
        (Expr.yields_type hfits value)
      rw [castCode_reference htypes]
      apply (Grades.emitMoves Checked.checkCast_moves (by omega) (by omega)).thenPure
  | .convert value _ _, c, _, hpicks, .convertSame hvalue => by
      obtain ⟨hfirst, -⟩ := hpicks.operands nofun nofun
      rw [Expr.code]
      apply ExprCode.Grades.ofValue
      intro P base
      apply ((Expr.code_grades hfits value hfirst hvalue).value P base).bind
      intro _
      rw [if_pos rfl]
      apply (Grades.pure ()).thenPure
  | .convert value _ _, c, _, hpicks, .convert hne hvalue => by
      obtain ⟨hfirst, -⟩ := hpicks.operands nofun nofun
      rw [Expr.code]
      apply ExprCode.Grades.ofValue
      intro P base
      apply ((Expr.code_grades hfits value hfirst hvalue).value P base).bind
      intro _
      rw [if_neg fun heq => hne (Ty.primitive.inj heq)]
      apply (conversion_grades _ _ base).thenPure
  | .caught type, c, _, hpicks, .caught => by
      obtain rfl := hpicks.eq_true
      rw [Expr.code]
      apply ExprCode.Grades.ofValue
      intro P base
      apply Grades.pure

/-- The value that there may be leaves one slot if there is one. -/
theorem Expr.valueIfAny_grades (hfits : scope.Fits ctx) :
  (e? : Option Expr) → {c : Bool} → Expr.PickUp c e?.toList → (∀ e ∈ e?, Expr.Takes ctx e 1) →
    ∀ P base, (Expr.valueIfAny scope e?).Grades P (base + c.toNat)
      (base + if e?.isNone then 0 else 1)
  | none, c, hpicks, _, P, base => by
      obtain rfl : c = false := hpicks
      rw [Expr.valueIfAny]
      apply Grades.pure
  | some e, c, hpicks, htakes, P, base => by
      rw [Expr.valueIfAny]
      apply ((Expr.code_grades hfits e hpicks.1 (htakes e rfl)).value P base).thenPure

/-- Values in order leave the slots of their types. -/
theorem Expr.valuesInOrder_grades (hfits : scope.Fits ctx) :
  (es : List Expr) → {c : Bool} → {types : List Ty} → Expr.PickUp c es →
    Expr.TakeAll ctx es types → ∀ P base,
      (Expr.valuesInOrder scope es).Grades P (base + c.toNat) (base + slotsOf types)
  | [], c, _, hpicks, .nil, P, base => by
      obtain rfl : c = false := hpicks
      rw [Expr.valuesInOrder]
      apply Grades.pure
  | e :: es, c, type :: types, hpicks, .cons htakes hall, P, base => by
      rw [Expr.valuesInOrder]
      apply ((Expr.code_grades hfits e hpicks.1 htakes).value P base).bind
      intro _
      have hrest := Expr.valuesInOrder_grades hfits es hpicks.2 hall P (base + type.slots)
      rwa [Nat.add_assoc base type.slots (slotsOf types)] at hrest

end

/-! ### Statements -/

/-- What a grading makes of the labels of statements: at those of the handlers something is
caught, and at the others the stack is empty. -/
def Grading.Suits (handlers : List Label) (g : Grading) : Prop :=
  ∀ l, l.isReserved = false →
    (g.caught l ↔ l ∈ handlers) ∧ g.depth l = if l ∈ handlers then 1 else 0

theorem Grading.admits_suits (handlers : List Label) {target : Label}
    (h : target.isReserved = false) :
  Admits (Grading.Suits handlers) target 0
  := by
  intro g hg hcaught
  obtain ⟨hiff, hdepth⟩ := hg target h
  rw [hdepth, if_neg (hcaught ∘ hiff.mpr)]

theorem Ty.slots_of_isVoid {t : Ty} (h : t.isVoid = true) :
  t.slots = 0
  := by
  unfold Ty.isVoid at h
  split at h
  · rfl
  · contradiction

/-- The code of an expression on an empty stack. -/
theorem Expr.value_grades (hfits : scope.Fits ctx) {e : Expr} {c : Bool} {slots : Nat}
    (hpicks : e.PicksUp c) (htakes : Expr.Takes ctx e slots) {P : Grading → Prop} :
  (e.value scope).Grades P c.toNat slots
  := by
  have h := (Expr.code_grades hfits e hpicks htakes).value P 0
  rwa [Nat.zero_add, Nat.zero_add] at h

/-- An assignment leaves nothing: its place and its value are evaluated and then stored. The
exception that was caught may be picked up by the first of the expressions. -/
theorem Place.assign_grades (hfits : scope.Fits ctx) {place : Place} {value : Expr} {c : Bool}
    (hsized : (Stmt.assign place value).Sized ctx)
    (hpicks : Expr.PickUp c (place.operands ++ [value])) {P : Grading → Prop} :
  (place.assign scope value).Grades P c.toNat 0
  := by
  cases hsized with
  | assignVar htype hvalue =>
      apply Grades.requireThen
      intro l hl
      rw [hfits.typeOf?, Locals.find_eq_ok.mp hl] at htype
      obtain rfl := Option.some.inj htype
      apply (Expr.value_grades hfits hpicks.1 hvalue).bind
      intro _
      apply Grades.emitMoves Checked.store_moves (Nat.le_refl _) (by omega)
  | @assignField owner name type object _ hobject hvalue =>
      cases object with
      | none =>
          rw [Place.assign, Expr.valueIfAny]
          apply (Grades.pure ()).bind
          intro _
          apply (Expr.value_grades hfits hpicks.1 hvalue).bind
          intro _
          apply Grades.emitMoves Checked.putField_moves (Nat.le_refl _) (by omega)
      | some object =>
          have hobject := Expr.valueIfAny_grades hfits (some object) (c := c) ⟨hpicks.1, rfl⟩
            hobject P 0
          rw [Nat.zero_add] at hobject
          apply hobject.bind
          intro _
          apply ((Expr.code_grades hfits value hpicks.2.1 hvalue).value P 1).bind
          intro _
          apply Grades.emitMoves Checked.putField_moves
          · change type.erasure.slots + 1 ≤ _
            omega
          · change 0 + (type.erasure.slots + 1) = _
            omega
  | assignElement harray hindex hvalue =>
      apply (Expr.value_grades hfits hpicks.1 harray).bind
      intro _
      apply ((Expr.code_grades hfits _ hpicks.2.1 hindex).value P 1).bind
      intro _
      apply ((Expr.code_grades hfits _ hpicks.2.2.1 hvalue).value P 2).bind
      intro _
      apply Grades.emitMoves Checked.arrayStore_moves (Nat.le_refl _) (by omega)

/-- The code of a statement leaves the stack empty, but for the thrown value at the label of a
handler. -/
theorem Stmt.code_grades (hfits : scope.Fits ctx) {handlers : List Label} {s : Stmt} {c : Bool}
    (hsized : s.Sized ctx) (hpicks : Expr.PickUp c s.operands)
    (htargets : ∀ l ∈ s.targets, l.isReserved = false) :
  (s.code scope).Grades (Grading.Suits handlers) c.toNat (s.entersHandler handlers).toNat
  := by
  have hmoves {i : Instruction} (h : i.Moves 1 0) : (Gen.emit i).Grades (Grading.Suits handlers) 1 0
    := Grades.emit fun g _ => h.step g (Nat.le_refl 1) rfl
  cases s with
  | assign place value => apply Place.assign_grades hfits hsized hpicks
  | eval e =>
      cases hsized with
      | eval htakes =>
          apply (Expr.value_grades hfits hpicks.1 htakes).bindYields (Expr.yields_type hfits e)
          split
          · next hvoid =>
            rw [Ty.slots_of_isVoid hvoid]
            apply Grades.pure
          · apply Grades.emitMoves Checked.pop_moves (Nat.le_refl _) (Nat.zero_add _)
  | ret value =>
      cases hsized with
      | ret =>
          obtain rfl : c = false := hpicks
          rw [Stmt.code]
          split
          · apply Grades.emit
            intro g _
            apply Grading.Step.straight rfl rfl (Nat.le_refl 0) rfl
          · apply Grades.fail
      | retValue htakes =>
          rw [← hfits.result] at htakes
          rw [Stmt.code]
          split
          · apply Grades.fail
          · next hvoid =>
            apply (Expr.value_grades hfits hpicks.1 htakes).bind
            intro _
            apply Grades.emitMoves (Checked.ret_moves (by simpa using hvoid)) (Nat.le_refl _)
              (Nat.zero_add _)
  | throw value =>
      cases hsized with
      | throw htakes =>
          apply (Expr.value_grades hfits hpicks.1 htakes).bind
          intro _
          apply hmoves ⟨rfl, rfl, rfl, rfl⟩
  | goto target =>
      obtain rfl : c = false := hpicks
      apply Grades.emitGoto _ (Nat.le_refl 0)
      apply Grading.admits_suits handlers (htargets target List.mem_cons_self)
  | branch condition target =>
      cases hsized with
      | branch htakes =>
          have hjump := (Expr.code_grades hfits condition hpicks.1 htakes).jump rfl _ 0 target true
            (Grading.admits_suits handlers (htargets target List.mem_cons_self))
          rwa [Nat.zero_add] at hjump
  | label l =>
      obtain rfl : c = false := hpicks
      rw [Stmt.code]
      split
      · apply Grades.fail
      · next hreserved =>
        apply Grades.emit
        intro g hg
        obtain ⟨hcaught, hdepth⟩ := hg l (by simpa using hreserved)
        rw [Stmt.entersHandler]
        by_cases hl : l ∈ handlers
        · rw [if_pos hl] at hdepth
          have hstep := Grading.Step.handler (d := 0) (hcaught.mpr hl) (Nat.le_of_eq hdepth)
          rw [hdepth] at hstep
          rwa [decide_eq_true hl]
        · rw [if_neg hl] at hdepth
          rw [decide_eq_false hl]
          apply Grading.Step.label hdepth
  | lock value =>
      cases hsized with
      | lock htakes =>
          apply (Expr.value_grades hfits hpicks.1 htakes).bind
          intro _
          apply hmoves ⟨rfl, rfl, rfl, rfl⟩
  | unlock value =>
      cases hsized with
      | unlock htakes =>
          apply (Expr.value_grades hfits hpicks.1 htakes).bind
          intro _
          apply hmoves ⟨rfl, rfl, rfl, rfl⟩
  | switch key cases fallback =>
      cases hsized with
      | switch htakes =>
          apply (Expr.value_grades hfits hpicks.1 htakes).bind
          intro type
          split
          · apply Grades.emitChecked
            intro i hi g hg
            obtain ⟨s, hs, rfl⟩ := Checked.switch_eq_ok hi
            obtain ⟨hfallback, hperm, -⟩ := Switch.ofCases_eq_ok hs
            apply Grading.Step.plain rfl (Nat.le_refl 1) rfl
            intro l hl
            apply Grading.admits_suits handlers _ g hg
            apply htargets
            rw [Instruction.targets, hfallback] at hl
            apply List.mem_cons.mpr
            rwa [List.mem_cons, (hperm.map _).mem_iff] at hl
          · apply Grades.fail

/-- The code of statements that pick up what is thrown leaves the stack empty. -/
theorem Stmt.forEach_grades (hfits : scope.Fits ctx) {handlers : List Label} :
  (stmts : List Stmt) → {c : Bool} → (∀ s ∈ stmts, s.Sized ctx) →
    Stmt.PickUp handlers c stmts →
    (∀ s ∈ stmts, ∀ l ∈ s.targets, l.isReserved = false) →
      (Gen.forEach (Stmt.code scope) stmts).Grades (Grading.Suits handlers) c.toNat 0
  | [], c, _, hpicks, _ => by
      obtain rfl : c = false := hpicks
      rw [Gen.forEach_nil]
      apply Grades.pure
  | s :: rest, c, hsized, hpicks, htargets => by
      rw [Gen.forEach_cons]
      apply (Stmt.code_grades hfits (hsized s List.mem_cons_self) hpicks.1
        (htargets s List.mem_cons_self)).bind
      intro _
      apply Stmt.forEach_grades hfits rest _ hpicks.2
      · intro s' hs'
        apply htargets s' (List.mem_cons_of_mem s hs')
      · intro s' hs'
        apply hsized s' (List.mem_cons_of_mem s hs')

end ClassForge
