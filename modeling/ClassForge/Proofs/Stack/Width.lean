import ClassForge.Proofs.Linking.Generation
import ClassForge.Proofs.Source.Typing

/-!
# Widths of values

What has to hold of a body so that the depth of the stack can be told: every operand takes as
many slots as are asked of it, and the thrown value is picked up first thing after the label of
a handler and nowhere else. What kinds the values are of does not matter here.
-/

namespace ClassForge

/-! ### Slots of values -/

mutual

/-- The value of the expression takes so many slots, and those of its operands as many as are
taken from the stack. -/
inductive Expr.Takes (ctx : Context) : Expr → Nat → Prop
  | literal {l} :
      Expr.Takes ctx (.literal l) l.type.slots
  | var {name type} :
      ctx.typeOf? name = some type → Expr.Takes ctx (.var name) type.slots
  | self :
      Expr.Takes ctx .self 1
  | field {owner name type object} :
      (∀ e ∈ object, Expr.Takes ctx e 1) →
      Expr.Takes ctx (.field owner name type object) type.erasure.slots
  | element {array index elem} :
      Expr.Takes ctx array 1 → Expr.Takes ctx index 1 →
      Expr.Takes ctx (.element array index elem) elem.erasure.slots
  | length {array} :
      Expr.Takes ctx array 1 → Expr.Takes ctx (.length array) 1
  | invoke {mode owner name type receiver args} :
      (∀ e ∈ receiver, Expr.Takes ctx e 1) → Expr.TakeAll ctx args type.erasure.params →
      Expr.Takes ctx (.invoke mode owner name type receiver args) type.erasure.result.slots
  | new {type params args} :
      Expr.TakeAll ctx args (params.map Ty.erasure) → Expr.Takes ctx (.new type params args) 1
  | newArray {type lengths} :
      Expr.TakeAll ctx lengths (List.replicate lengths.length .int) →
      Expr.Takes ctx (.newArray type lengths) 1
  | neg {operand type} :
      Expr.Takes ctx operand type.slots → Expr.Takes ctx (.neg operand type) type.slots
  | not {operand} :
      Expr.Takes ctx operand 1 → Expr.Takes ctx (.not operand) 1
  | arith {op left right type} :
      Expr.Takes ctx left type.slots →
      Expr.Takes ctx right (if op.isShift then 1 else type.slots) →
      Expr.Takes ctx (.arith op left right type) type.slots
  | logic {op left right} :
      Expr.Takes ctx left 1 → Expr.Takes ctx right 1 → Expr.Takes ctx (.logic op left right) 1
  | compare {condition left right type} :
      Expr.Takes ctx left type.slots → Expr.Takes ctx right type.slots →
      Expr.Takes ctx (.compare condition left right type) 1
  | instanceOf {value type} :
      Expr.Takes ctx value 1 → Expr.Takes ctx (.instanceOf value type) 1
  | castSame {value p slots} :
      value.type ctx = .primitive p → Expr.Takes ctx value slots →
      Expr.Takes ctx (.cast value (.primitive p)) slots
  | castPrimitive {value p q} :
      value.type ctx = .primitive p → p ≠ q → Expr.Takes ctx value p.kind.slots →
      Expr.Takes ctx (.cast value (.primitive q)) q.kind.slots
  | castReference {value type} :
      ((value.type ctx).primitive?.isSome && type.primitive?.isSome) = false →
      Expr.Takes ctx value 1 → Expr.Takes ctx (.cast value type) 1
  | convertSame {value type slots} :
      Expr.Takes ctx value slots → Expr.Takes ctx (.convert value type type) slots
  | convert {value p q} :
      p ≠ q → Expr.Takes ctx value p.kind.slots →
      Expr.Takes ctx (.convert value (.primitive p) (.primitive q)) q.kind.slots
  | caught {type} :
      Expr.Takes ctx (.caught type) 1

/-- The expressions are as many as the types, and their values take the slots of the types. -/
inductive Expr.TakeAll (ctx : Context) : List Expr → List Ty → Prop
  | nil : Expr.TakeAll ctx [] []
  | cons {e es type types} :
      Expr.Takes ctx e type.slots → Expr.TakeAll ctx es types →
      Expr.TakeAll ctx (e :: es) (type :: types)

end

/-- The values that a statement asks for take the slots that are taken from the stack. -/
inductive Stmt.Sized (ctx : Context) : Stmt → Prop
  | assignVar {name value type} :
      ctx.typeOf? name = some type → Expr.Takes ctx value type.slots →
      Stmt.Sized ctx (.assign (.var name) value)
  | assignField {owner name type object value} :
      (∀ e ∈ object, Expr.Takes ctx e 1) → Expr.Takes ctx value type.erasure.slots →
      Stmt.Sized ctx (.assign (.field owner name type object) value)
  | assignElement {array index elem value} :
      Expr.Takes ctx array 1 → Expr.Takes ctx index 1 → Expr.Takes ctx value elem.erasure.slots →
      Stmt.Sized ctx (.assign (.element array index elem) value)
  | eval {e} :
      Expr.Takes ctx e (e.type ctx).slots → Stmt.Sized ctx (.eval e)
  | ret :
      Stmt.Sized ctx (.ret none)
  | retValue {value} :
      Expr.Takes ctx value ctx.result.slots → Stmt.Sized ctx (.ret (some value))
  | throw {value} :
      Expr.Takes ctx value 1 → Stmt.Sized ctx (.throw value)
  | goto {target} :
      Stmt.Sized ctx (.goto target)
  | branch {condition target} :
      Expr.Takes ctx condition 1 → Stmt.Sized ctx (.branch condition target)
  | label {l} :
      Stmt.Sized ctx (.label l)
  | lock {value} :
      Expr.Takes ctx value 1 → Stmt.Sized ctx (.lock value)
  | unlock {value} :
      Expr.Takes ctx value 1 → Stmt.Sized ctx (.unlock value)
  | switch {key cases fallback} :
      Expr.Takes ctx key 1 → Stmt.Sized ctx (.switch key cases fallback)

/-! ### The thrown value -/

/-- The expression does not ask for the thrown value. -/
def Expr.CaughtFree (e : Expr) : Prop :=
  ∀ type, ¬ (Expr.caught type).Within e

/-- The expression asks for the thrown value first and does not ask for it again. A new object
is there before any of the arguments are. -/
inductive Expr.CaughtFirst : Expr → Prop
  | caught (type : Ty) : CaughtFirst (.caught type)
  | operand {e first : Expr} {rest : List Expr}
      (hnew : ∀ type params args, e ≠ .new type params args)
      (hoperands : e.operands = first :: rest) (hfirst : first.CaughtFirst)
      (hrest : ∀ e ∈ rest, e.CaughtFree) : CaughtFirst e

/-- The thrown value is picked up first if it is there, and otherwise not asked for. -/
def Expr.PicksUp (caught : Bool) (e : Expr) : Prop :=
  if caught then e.CaughtFirst else e.CaughtFree

/-- The same of expressions that are evaluated in order: the first picks up the thrown value and
the others find none. -/
def Expr.PickUp : (caught : Bool) → List Expr → Prop
  | c, [] => c = false
  | c, e :: es => e.PicksUp c ∧ Expr.PickUp false es

/-- Whether the statement is the label of a handler. -/
def Stmt.entersHandler (handlers : List Label) : Stmt → Bool
  | .label l => l ∈ handlers
  | _ => false

/-- Each label of a handler is followed by a statement that picks up the thrown value first, and
no other statement asks for it. The first statement comes after such a label if `caught`. -/
def Stmt.PickUp (handlers : List Label) : (caught : Bool) → List Stmt → Prop
  | c, [] => c = false
  | c, s :: rest => Expr.PickUp c s.operands ∧ Stmt.PickUp handlers (s.entersHandler handlers) rest

/-- A body whose values have the slots that are asked of them, that jumps to labels of its own
only, and whose handlers pick up what is thrown. -/
structure Body.Stacked (ctx : Context) (body : Body) : Prop where
  sized : ∀ s ∈ body.stmts, s.Sized ctx
  targets : ∀ s ∈ body.stmts, ∀ l ∈ s.targets, .label l ∈ body.stmts
  handlers : ∀ t ∈ body.traps, .label t.handler ∈ body.stmts
  caught : Stmt.PickUp (body.traps.map Trap.handler) false body.stmts

namespace Expr

variable {e : Expr} {caught : Bool}

/-- An expression is free of what was caught exactly if it is not that itself and all of its
operands are. -/
theorem caughtFree_iff :
  e.CaughtFree ↔ (∀ type, e ≠ .caught type) ∧ ∀ operand ∈ e.operands, operand.CaughtFree
  := by
  constructor
  · intro h
    constructor
    · rintro type rfl
      apply h type .refl
    · intro operand hoperand type hwithin
      apply h type (.operand hoperand hwithin)
  · rintro ⟨hne, hoperands⟩ type hwithin
    cases hwithin with
    | refl => exact hne type rfl
    | operand hoperand hwithin => apply hoperands _ hoperand type hwithin

theorem CaughtFree.operand {operand : Expr} (h : e.CaughtFree) (hoperand : operand ∈ e.operands) :
  operand.CaughtFree
  := (caughtFree_iff.mp h).2 operand hoperand

theorem pickUp_false_iff {es : List Expr} :
  PickUp false es ↔ ∀ e ∈ es, e.CaughtFree
  := by
  induction es with
  | nil => simp [PickUp]
  | cons e es ih => simp [PickUp, PicksUp, ih]

theorem PicksUp.eq_true {type : Ty} (h : (Expr.caught type).PicksUp caught) :
  caught = true
  := by
  cases caught with
  | true => rfl
  | false => exact absurd .refl (h type)

/-- What picks up the thrown value has its first operand pick it up. -/
theorem PicksUp.operands (h : e.PicksUp caught) (hcaught : ∀ type, e ≠ .caught type)
    (hnew : ∀ type params args, e ≠ .new type params args) :
  PickUp caught e.operands
  := by
  cases caught with
  | true =>
      cases h with
      | caught type => exact absurd rfl (hcaught type)
      | operand _ hoperands hfirst hrest =>
          rw [hoperands]
          use hfirst, pickUp_false_iff.mpr hrest
  | false =>
      apply pickUp_false_iff.mpr
      intro operand hoperand
      apply CaughtFree.operand h hoperand

/-- The arguments of a constructor come after the new object, so they pick up nothing. -/
theorem PicksUp.args {type : Ty} {params : List Ty} {args : List Expr}
    (h : (Expr.new type params args).PicksUp caught) :
  caught = false ∧ PickUp false args
  := by
  cases caught with
  | true =>
      cases h with
      | operand hnew => exact absurd rfl (hnew type params args)
  | false =>
      use rfl
      apply pickUp_false_iff.mpr
      intro operand hoperand
      apply CaughtFree.operand h hoperand

end Expr

end ClassForge
