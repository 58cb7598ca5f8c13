import ClassForge.Proofs.Linking.References

/-!
# Calls

The code of every expression has the code of its operands in it, so every call in the body of a
method stands in the code that the method is lowered to, however deep it is nested. A method is
called with an argument for each parameter, and the call takes from the stack what the receiver
and the arguments have put there. The arguments of a constructor are not counted: what is left of
the new object depends on how many slots they take.
-/

namespace ClassForge

/-! ### Parts of the code of expressions -/

/-- The code of the expression has a part with the property, for its value and for a jump. -/
structure ExprCode.HasPart (code : ExprCode) (Q : List Instruction → Prop) : Prop where
  value : code.value.HasPart Q
  jump : ∀ target onTrue, (code.jump target onTrue).HasPart Q

namespace ExprCode.HasPart

variable {Q : List Instruction → Prop} {left right : ExprCode}

theorem ofValue {value : Gen Ty} (h : value.HasPart Q) :
  (ExprCode.ofValue value).HasPart Q
  := by
  use h
  intro target onTrue
  apply Gen.HasPart.before h

/-- A part of a jump is a part of the value that is made by way of it. -/
theorem ofJump {jump : Label → Bool → Gen Unit}
    (h : ∀ target onTrue, (jump target onTrue).HasPart Q) :
  (ExprCode.ofJump jump).HasPart Q
  := by
  refine ⟨?_, h⟩
  apply Gen.HasPart.after
  intro onFalse
  apply Gen.HasPart.after
  intro done
  apply Gen.HasPart.before (h onFalse false)

/-- What is in the code of an operand is in the code of a conjunction. -/
theorem jumpAnd (h : left.HasPart Q ∨ right.HasPart Q) (target : Label) (onTrue : Bool) :
  (left.jumpAnd right target onTrue).HasPart Q
  := by
  cases onTrue with
  | true =>
      apply Gen.HasPart.after
      intro skip
      obtain hleft | hright := h
      · apply Gen.HasPart.before (hleft.jump skip false)
      · apply Gen.HasPart.after
        intro _
        apply Gen.HasPart.before (hright.jump target true)
  | false =>
      obtain hleft | hright := h
      · apply Gen.HasPart.before (hleft.jump target false)
      · apply Gen.HasPart.after
        intro _
        apply hright.jump target false

/-- What is in the code of an operand is in the code of a disjunction. -/
theorem jumpOr (h : left.HasPart Q ∨ right.HasPart Q) (target : Label) (onTrue : Bool) :
  (left.jumpOr right target onTrue).HasPart Q
  := by
  cases onTrue with
  | true =>
      obtain hleft | hright := h
      · apply Gen.HasPart.before (hleft.jump target true)
      · apply Gen.HasPart.after
        intro _
        apply hright.jump target true
  | false =>
      apply Gen.HasPart.after
      intro skip
      obtain hleft | hright := h
      · apply Gen.HasPart.before (hleft.jump skip true)
      · apply Gen.HasPart.after
        intro _
        apply Gen.HasPart.before (hright.jump target false)

theorem jumpCompare (h : left.HasPart Q ∨ right.HasPart Q) (condition : Condition) (type : Ty)
    (target : Label) (onTrue : Bool) :
  (ExprCode.jumpCompare condition left right type target onTrue).HasPart Q
  := by
  obtain hleft | hright := h
  · apply Gen.HasPart.before hleft.value
  · apply Gen.HasPart.after
    intro _
    apply Gen.HasPart.before hright.value

end ExprCode.HasPart

namespace Expr

variable {scope : Scope} {Q : List Instruction → Prop}

theorem valueIfAny_hasPart {e? : Option Expr} {e : Expr} (he : e ∈ e?)
    (h : (e.code scope).HasPart Q) :
  (valueIfAny scope e?).HasPart Q
  := by
  obtain rfl := Option.mem_def.mp he
  rw [valueIfAny]
  apply Gen.HasPart.before h.value

/-- What is in the code of an expression is in the code of values in order. -/
theorem valuesInOrder_hasPart {es : List Expr} {e : Expr} (he : e ∈ es)
    (h : (e.code scope).HasPart Q) :
  (valuesInOrder scope es).HasPart Q
  := by
  induction es with
  | nil => contradiction
  | cons first rest ih =>
      rw [valuesInOrder]
      cases he with
      | head => apply Gen.HasPart.before h.value
      | tail _ he =>
          apply Gen.HasPart.after
          intro _
          apply ih he

/-- The code of an operand stands in the code of the expression. -/
theorem code_hasPart_of_operand {outer operand : Expr} (hoperand : operand ∈ outer.operands)
    (h : (operand.code scope).HasPart Q) :
  (outer.code scope).HasPart Q
  := by
  cases outer with
  | literal | var | self | caught => contradiction
  | field owner name type object =>
      rw [code]
      apply ExprCode.HasPart.ofValue
      apply Gen.HasPart.before
      apply valueIfAny_hasPart (Option.mem_toList.mp hoperand) h
  | element array index elem =>
      rw [code]
      apply ExprCode.HasPart.ofValue
      obtain rfl | hoperand := List.mem_cons.mp hoperand
      · apply Gen.HasPart.before h.value
      · obtain rfl := List.mem_singleton.mp hoperand
        apply Gen.HasPart.after
        intro _
        apply Gen.HasPart.before h.value
  | invoke mode owner name type receiver args =>
      rw [code]
      apply ExprCode.HasPart.ofValue
      apply Gen.HasPart.after
      intro _
      obtain hoperand | hoperand := List.mem_append.mp hoperand
      · apply Gen.HasPart.before
        apply valueIfAny_hasPart (Option.mem_toList.mp hoperand) h
      · apply Gen.HasPart.after
        intro _
        apply Gen.HasPart.before
        apply valuesInOrder_hasPart hoperand h
  | new type params args =>
      rw [code]
      apply ExprCode.HasPart.ofValue
      apply Gen.HasPart.after
      intro _
      apply Gen.HasPart.after
      intro _
      apply Gen.HasPart.before
      apply valuesInOrder_hasPart hoperand h
  | newArray type lengths =>
      cases type with
      | array elem =>
          rw [code]
          apply ExprCode.HasPart.ofValue
          apply Gen.HasPart.before
          apply valuesInOrder_hasPart hoperand h
      | _ =>
          rw [code]
          · apply ExprCode.HasPart.ofValue Gen.HasPart.fail
          · intro elem helem
            contradiction
  | length operand | neg operand | instanceOf operand | cast operand | convert operand =>
      obtain rfl := List.mem_singleton.mp hoperand
      rw [code]
      apply ExprCode.HasPart.ofValue
      apply Gen.HasPart.before h.value
  | not operand =>
      obtain rfl := List.mem_singleton.mp hoperand
      rw [code]
      apply ExprCode.HasPart.ofJump
      intro target onTrue
      apply h.jump
  | arith op left right type =>
      rw [code]
      apply ExprCode.HasPart.ofValue
      obtain rfl | hoperand := List.mem_cons.mp hoperand
      · apply Gen.HasPart.before h.value
      · obtain rfl := List.mem_singleton.mp hoperand
        apply Gen.HasPart.after
        intro _
        apply Gen.HasPart.before h.value
  | logic op left right =>
      have hparts : (left.code scope).HasPart Q ∨ (right.code scope).HasPart Q := by
        obtain rfl | hoperand := List.mem_cons.mp hoperand
        · left
          apply h
        · obtain rfl := List.mem_singleton.mp hoperand
          right
          apply h
      cases op with
      | and =>
          rw [code]
          apply ExprCode.HasPart.ofJump (ExprCode.HasPart.jumpAnd hparts)
      | or =>
          rw [code]
          apply ExprCode.HasPart.ofJump (ExprCode.HasPart.jumpOr hparts)
  | compare condition left right type =>
      have hparts : (left.code scope).HasPart Q ∨ (right.code scope).HasPart Q := by
        obtain rfl | hoperand := List.mem_cons.mp hoperand
        · left
          apply h
        · obtain rfl := List.mem_singleton.mp hoperand
          right
          apply h
      rw [code]
      apply ExprCode.HasPart.ofJump (ExprCode.HasPart.jumpCompare hparts condition type)

/-- The code of an expression stands in the code of all that it is within. -/
theorem code_hasPart_of_within {e outer : Expr} (hwithin : e.Within outer)
    (h : (e.code scope).HasPart Q) :
  (outer.code scope).HasPart Q
  := by
  induction hwithin with
  | refl => apply h
  | operand hoperand _ ih => apply code_hasPart_of_operand hoperand ih

end Expr

/-- The code of an operand stands in the code of the statement. -/
theorem Stmt.code_hasPart_of_operand {scope : Scope} {Q : List Instruction → Prop} {s : Stmt}
    {operand : Expr} (hoperand : operand ∈ s.operands) (h : (operand.code scope).HasPart Q) :
  (s.code scope).HasPart Q
  := by
  cases s with
  | assign place value =>
      obtain hoperand | hoperand := List.mem_append.mp hoperand
      · cases place with
        | var name => contradiction
        | field owner name type object =>
            apply Gen.HasPart.before
            apply Expr.valueIfAny_hasPart (Option.mem_toList.mp hoperand) h
        | element array index elem =>
            obtain rfl | hoperand := List.mem_cons.mp hoperand
            · apply Gen.HasPart.before h.value
            · obtain rfl := List.mem_singleton.mp hoperand
              apply Gen.HasPart.after
              intro _
              apply Gen.HasPart.before h.value
      · obtain rfl := List.mem_singleton.mp hoperand
        cases place with
        | var name =>
            apply Gen.HasPart.after
            intro _
            apply Gen.HasPart.before h.value
        | field owner name type object =>
            apply Gen.HasPart.after
            intro _
            apply Gen.HasPart.before h.value
        | element array index elem =>
            apply Gen.HasPart.after
            intro _
            apply Gen.HasPart.after
            intro _
            apply Gen.HasPart.before h.value
  | eval operand | throw operand | lock operand | unlock operand | switch operand =>
      obtain rfl := List.mem_singleton.mp hoperand
      apply Gen.HasPart.before h.value
  | branch condition target =>
      obtain rfl := List.mem_singleton.mp hoperand
      apply h.jump target true
  | ret value =>
      obtain rfl := Option.mem_toList.mp hoperand
      rw [Stmt.code]
      split
      · apply Gen.HasPart.fail
      · apply Gen.HasPart.before h.value
  | goto | label => contradiction

/-! ### What code leaves on the stack -/

/-- Run by itself, the code takes nothing from the stack but what it has put there, and it leaves
so many slots whichever way it comes to its end. -/
def Leaves (code : List Instruction) (slots : Nat) : Prop :=
  ∀ place depth, (MethodCode.mk code [] 0).Visits place depth →
    (∀ i, code[place]? = some i → i.pops ≤ depth) ∧ (place = code.length → depth = slots)

/-- Code that is graded from the empty stack leaves the depth at which the grading ends. -/
theorem Gen.Grades.leaves {α : Type} {x : Gen α} {slots index labels : Nat} {out : Emitted α}
    (h : x.Grades (fun _ => True) 0 slots) (hout : x index labels = .ok out) :
  Leaves out.code slots
  := by
  obtain ⟨-, depths, hgrades⟩ := h index labels out hout
  have hrun := hgrades (Grading.ofDepths [] depths) trivial fun n _ _ => Grading.depth_madeUp n
  have hfits : (Grading.ofDepths [] depths).Fits ⟨out.code, [], 0⟩ := by
    refine ⟨fun l => ⟨fun hl => ?_, ?_⟩, fun l hl => ?_, ⟨slots, hrun⟩⟩
    · contradiction
    · rintro ⟨handler, hhandler, -⟩
      contradiction
    · contradiction
  have henters : MethodCode.EnteredByThrows ⟨out.code, [], 0⟩ := List.forall_mem_nil _
  obtain ⟨places, hstart, hend, hsteps⟩ := hrun.exists_depths
  intro place depth hvisits
  rw [hfits.depth_of_visits henters hstart hsteps hvisits]
  constructor
  · intro i hi
    rw [Grading.depthAt_of_getElem? hi]
    exact_mod_cast (hsteps place i hi).pops_le
  · rintro rfl
    simp [Grading.depthAt, hend]

/-! ### Calls -/

/-- A call has an argument for each parameter. -/
theorem args_of_checkCall {mode : InvokeMode} {name : String} {type : MethodType}
    {hasReceiver : Bool} {args : Nat} (h : checkCall mode name type hasReceiver args = .ok ()) :
  args = type.params.length
  := by
  unfold checkCall at h
  grind

namespace Expr

variable {scope : Scope} {ctx : Context} {receiver : Option Expr} {args : List Expr}

/-- The values of a receiver and of arguments leave the slots of the arguments on the stack, and
one more if there is a receiver. -/
theorem operands_grades (hfits : scope.Fits ctx) {types : List Ty}
    (hfree : ∀ e ∈ receiver.toList ++ args, e.CaughtFree)
    (hreceiver : ∀ e ∈ receiver, Takes ctx e 1) (hargs : TakeAll ctx args types)
    (P : Grading → Prop) (base : Nat) :
  (valueIfAny scope receiver >>= fun _ => valuesInOrder scope args).Grades P base
    (base + (slotsOf types + if receiver.isNone then 0 else 1))
  := by
  obtain ⟨hfirst, hrest⟩ := List.forall_mem_append.mp hfree
  apply (valueIfAny_grades hfits receiver (pickUp_false_iff.mpr hfirst) hreceiver P base).bind
  intro _
  rw [Nat.add_comm (slotsOf types), ← Nat.add_assoc]
  apply valuesInOrder_grades hfits args (pickUp_false_iff.mpr hrest) hargs

/-- The code of a call makes the call after code that leaves what the call takes. -/
theorem invoke_hasPart (hfits : scope.Fits ctx) (mode : InvokeMode) (owner : Ty) (name : String)
    (type : MethodType) :
  ((Expr.invoke mode owner name type receiver args).code scope).HasPart fun part =>
    ∃ front, part = front ++ [Checked.invoke owner name type mode]
      ∧ args.length = type.params.length ∧ (mode = .static ↔ receiver = none)
      ∧ ((∀ e ∈ receiver.toList ++ args, e.CaughtFree) → (∀ e ∈ receiver, Takes ctx e 1) →
        TakeAll ctx args type.erasure.params →
        Leaves front (Checked.invoke owner name type mode).pops)
  := by
  rw [code]
  apply ExprCode.HasPart.ofValue
  intro index labels out hout
  obtain ⟨_, x, hrequire, hx, rfl⟩ := Gen.bind_eq_ok.mp hout
  obtain ⟨_, hcall, rfl⟩ := Gen.require_eq_ok.mp hrequire
  obtain ⟨a, y, ha, hy, rfl⟩ := Gen.bind_eq_ok.mp hx
  obtain ⟨b, z, hb, hz, rfl⟩ := Gen.bind_eq_ok.mp hy
  obtain ⟨_, w, hi, hw, rfl⟩ := Gen.bind_eq_ok.mp hz
  obtain rfl := Gen.emit_eq_ok.mp hi
  obtain rfl := Gen.pure_eq_ok.mp hw
  have hmode : mode = .static ↔ receiver = none := by
    rw [checkCall_eq_ok hcall, Option.isSome_eq_false_iff, Option.isNone_iff_eq_none]
  refine ⟨a.code ++ b.code ++ [Checked.invoke owner name type mode], by simp, a.code ++ b.code, rfl,
    args_of_checkCall hcall, hmode, ?_⟩
  intro hfree hreceiver hargs
  have hslots : (Checked.invoke owner name type mode).pops
      = 0 + (slotsOf type.erasure.params + if receiver.isNone then 0 else 1) := by
    rw [(Checked.invoke_moves owner name type mode).pops, Nat.zero_add]
    simp only [hmode, Option.isNone_iff_eq_none]
  rw [hslots]
  apply (operands_grades hfits hfree hreceiver hargs _ 0).leaves
    (Gen.bind_eq_ok.mpr ⟨a, b, ha, hb, rfl⟩)

/-- The code of a creation calls the constructor after code that leaves two references to the new
object and the arguments. -/
theorem new_hasPart (hfits : scope.Fits ctx) (type : Ty) (params : List Ty) :
  ((Expr.new type params args).code scope).HasPart fun part =>
    ∃ front, part = front ++ [Checked.invoke type "<init>" ⟨params, .void⟩ .special]
      ∧ ∀ types, (∀ e ∈ args, e.CaughtFree) → TakeAll ctx args types →
        Leaves front (2 + slotsOf types)
  := by
  rw [code]
  apply ExprCode.HasPart.ofValue
  intro index labels out hout
  obtain ⟨a, x, ha, hx, rfl⟩ := Gen.bind_eq_ok.mp hout
  obtain ⟨b, y, hb, hy, rfl⟩ := Gen.bind_eq_ok.mp hx
  obtain ⟨c, z, hc, hz, rfl⟩ := Gen.bind_eq_ok.mp hy
  obtain ⟨_, w, hi, hw, rfl⟩ := Gen.bind_eq_ok.mp hz
  obtain rfl := Gen.emit_eq_ok.mp hi
  obtain rfl := Gen.pure_eq_ok.mp hw
  refine ⟨a.code ++ (b.code ++ c.code) ++ [Checked.invoke type "<init>" ⟨params, .void⟩ .special],
    by simp, a.code ++ (b.code ++ c.code), rfl, ?_⟩
  intro types hfree htakes
  have hdup : (Instruction.dup 1).Moves 1 2 := ⟨rfl, rfl, rfl, rfl⟩
  have hfront : (Gen.emitChecked (Checked.new type) >>= fun _ => Gen.emit (.dup 1) >>= fun _ =>
      valuesInOrder scope args).Grades (fun _ => True) 0 (2 + slotsOf types) := by
    apply (Gen.Grades.emitMoves Checked.new_moves (Nat.zero_le 0) rfl).bind
    intro _
    apply (Gen.Grades.emit fun g _ => hdup.step g (Nat.le_refl 1) rfl).bind
    intro _
    apply valuesInOrder_grades hfits args (pickUp_false_iff.mpr hfree) htakes
  apply hfront.leaves
    (Gen.bind_eq_ok.mpr ⟨a, _, ha, Gen.bind_eq_ok.mpr ⟨b, c, hb, hc, rfl⟩, rfl⟩)

end Expr

/-- Somewhere in the code the instruction stands right after code with the property. -/
def MethodCode.Prepares (code : MethodCode) (i : Instruction) (Q : List Instruction → Prop) :
    Prop :=
  ∃ before front after, code.instructions = before ++ front ++ i :: after ∧ Q front

/-- What is in the code of an expression is in the code that the method is lowered to. -/
theorem Method.infix_of_lower {self : Ty} {m : Method} {body : Body} {code : MethodCode}
    (hbody : m.body = some body) (hlower : (m.lower self).outcome = .ok code) {s : Stmt}
    (hs : s ∈ body.stmts) {outer e : Expr} (houter : outer ∈ s.operands) (he : e.Within outer)
    {Q : List Instruction → Prop}
    (h : ∀ scope : Scope, scope.Fits (.ofMethod self m body) → (e.code scope).HasPart Q) :
  ∃ part, part <:+: code.instructions ∧ Q part
  := by
  obtain ⟨body', locals, out, handlers, hbody', hlocals, hout, -, rfl⟩ :=
    Method.lowerBody_eq_ok (Method.lower_eq_ok.mp hlower)
  obtain rfl := Option.some.inj (hbody.symm.trans hbody')
  have hpart := Expr.code_hasPart_of_within he (h _ (Scope.fits_ofMethod self hlocals))
  obtain ⟨part, hpart, hQ⟩ := Gen.HasPart.forEach hs (Stmt.code_hasPart_of_operand houter hpart)
    0 0 out hout
  obtain ⟨tail, htail, -⟩ := withReturn_eq_append m.result out.code
  refine ⟨part, ?_, hQ⟩
  change part <:+: withReturn m.result out.code
  rw [htail]
  apply hpart.trans (List.prefix_append out.code tail).isInfix

theorem MethodCode.prepares_of_infix {code : MethodCode} {i : Instruction}
    {front : List Instruction} {Q : List Instruction → Prop}
    (h : front ++ [i] <:+: code.instructions) (hQ : Q front) :
  code.Prepares i Q
  := by
  obtain ⟨before, after, hcode⟩ := h
  use before, front, after
  simp [← hcode, hQ]

/-- Every call in a method that has been lowered stands in its code, however deep it is nested. A
method is called with an argument for each parameter and with a receiver unless it is static, and
if the values have the slots of the parameters, what the call takes is what its receiver and its
arguments have put on the stack. A constructor may be called with any number of arguments: there
are two references to the new object and what the arguments have put on the stack, and one of the
two is left exactly if that has the slots of the parameters. -/
theorem lower_calls {self : Ty} {m : Method} {body : Body} {code : MethodCode}
    (hbody : m.body = some body) (hlower : (m.lower self).outcome = .ok code) {s : Stmt}
    (hs : s ∈ body.stmts) {outer : Expr} (houter : outer ∈ s.operands) :
  (∀ mode owner name type receiver args,
    (Expr.invoke mode owner name type receiver args).Within outer →
      args.length = type.params.length ∧ (mode = .static ↔ receiver = none)
        ∧ code.Prepares (Checked.invoke owner name type mode) fun front =>
          (∀ e ∈ receiver.toList ++ args, e.CaughtFree) →
          (∀ e ∈ receiver, Expr.Takes (.ofMethod self m body) e 1) →
          Expr.TakeAll (.ofMethod self m body) args type.erasure.params →
          Leaves front (Checked.invoke owner name type mode).pops)
    ∧ ∀ type params args, (Expr.new type params args).Within outer →
      code.Prepares (Checked.invoke type "<init>" ⟨params, .void⟩ .special) fun front =>
        ∀ types, (∀ e ∈ args, e.CaughtFree) → Expr.TakeAll (.ofMethod self m body) args types →
          Leaves front (2 + slotsOf types)
            ∧ (2 + slotsOf types
                = (Checked.invoke type "<init>" ⟨params, .void⟩ .special).pops + 1
              ↔ slotsOf types = slotsOf (params.map Ty.erasure))
  := by
  constructor
  · intro mode owner name type receiver args hwithin
    obtain ⟨_, hinfix, front, rfl, harity, hmode, hleaves⟩ :=
      Method.infix_of_lower hbody hlower hs houter hwithin fun scope hfits =>
        Expr.invoke_hasPart hfits mode owner name type
    use harity, hmode
    apply MethodCode.prepares_of_infix hinfix hleaves
  · intro type params args hwithin
    obtain ⟨_, hinfix, front, rfl, hleaves⟩ :=
      Method.infix_of_lower hbody hlower hs houter hwithin fun scope hfits =>
        Expr.new_hasPart hfits type params
    apply MethodCode.prepares_of_infix hinfix
    intro types hfree htakes
    use hleaves types hfree htakes
    have hpops : (Checked.invoke type "<init>" ⟨params, .void⟩ .special).pops
        = slotsOf (params.map Ty.erasure) + 1 := (Checked.invoke_moves ..).pops
    omega

/-- The type of boxes. -/
def boxType : Ty :=
  .object ⟨[], ["Box"]⟩ []

/-- Creates a box without the number that its constructor declares, and puts a sum into another
box. -/
def unfilled : Body :=
  ⟨[], [.eval (.new boxType [.int] []),
    .eval (.invoke .virtual boxType "put" ⟨[.primitive .long, .int], .int⟩
      (some (.new boxType [] []))
      [.literal (.long 7), .arith .add (.literal (.int 1)) (.literal (.int 2)) .int])], []⟩

/-- The method with this body. -/
def unfilledMethod : Method :=
  ⟨"unfilled", staticFlag, [], [], .void, [], some unfilled⟩

/-- The code that the method is lowered to. -/
def unfilledCode : MethodCode :=
  ⟨[.new boxType, .dup 1, Checked.invoke boxType "<init>" ⟨[.int], .void⟩ .special, .pop 1,
      .new boxType, .dup 1, Checked.invoke boxType "<init>" ⟨[], .void⟩ .special,
      .constant (.long 7), .constant (.int 1), .constant (.int 2), .arith .add .int,
      Checked.invoke boxType "put" ⟨[.primitive .long, .int], .int⟩ .virtual, .pop 1,
      .ret none], [], 0⟩

/-- The method is lowered, although the constructor is called without its argument. -/
theorem lower_unfilled :
  (unfilledMethod.lower (.object ⟨[], ["Desk"]⟩ [])).outcome = .ok unfilledCode
  := by
  have hcode : (unfilledMethod.lower (.object ⟨[], ["Desk"]⟩ [])).outcome.toOption
      = some unfilledCode := by
    decide +kernel
  cases hlower : (unfilledMethod.lower (.object ⟨[], ["Desk"]⟩ [])).outcome with
  | error e =>
      rw [hlower] at hcode
      contradiction
  | ok code =>
      rw [hlower] at hcode
      rw [Option.some.inj hcode]

/-- The constructor that is called without its argument takes both references to the new object,
and nothing is left of it. The other call takes the box, the number and the sum. -/
theorem unfilled_calls :
  unfilledCode.Prepares (Checked.invoke boxType "<init>" ⟨[.int], .void⟩ .special)
      (Leaves · (Checked.invoke boxType "<init>" ⟨[.int], .void⟩ .special).pops)
    ∧ unfilledCode.Prepares
      (Checked.invoke boxType "put" ⟨[.primitive .long, .int], .int⟩ .virtual) (Leaves · 4)
  := by
  constructor
  · obtain ⟨before, front, after, hcode, hleaves⟩ :=
      (lower_calls rfl lower_unfilled (s := unfilled.stmts[0]) (by simp [unfilled])
        (List.mem_singleton_self _)).2 _ _ _ .refl
    use before, front, after, hcode
    apply (hleaves [] (List.forall_mem_nil _) .nil).1
  · obtain ⟨before, front, after, hcode, hleaves⟩ :=
      ((lower_calls rfl lower_unfilled (s := unfilled.stmts[1]) (by simp [unfilled])
        (List.mem_singleton_self _)).1 _ _ _ _ _ _ .refl).2.2
    use before, front, after, hcode
    apply hleaves
    · have hliteral (l : Literal) : (Expr.literal l).CaughtFree :=
        Expr.caughtFree_iff.mpr ⟨by simp, List.forall_mem_nil _⟩
      have hnew (type : Ty) : (Expr.new type [] []).CaughtFree :=
        Expr.caughtFree_iff.mpr ⟨by simp, List.forall_mem_nil _⟩
      have hsum (l r : Literal) : (Expr.arith .add (.literal l) (.literal r) .int).CaughtFree :=
        Expr.caughtFree_iff.mpr ⟨by simp, by simp [Expr.operands, hliteral]⟩
      simp [hliteral, hnew, hsum]
    · rintro e ⟨⟩
      exact .new .nil
    · exact .cons .literal (.cons (.arith .literal .literal) .nil)

end ClassForge
