import ClassForge.Lowering.Expr
import ClassForge.Proofs.Machine.Step

/-!
# What statements mean

Expressions and statements are interpreted as they stand, without reference to instructions,
slots or a stack. Operands are evaluated from left to right, the right operand of a logical
operation only if the left one does not decide, and whatever is thrown ends the evaluation.
A body is run from its first statement on; a body without a result returns when it comes to
its end.
-/

namespace ClassForge

open Machine

/-! ### Types -/

/-- What a body refers to: the type of the receiver, the type of the result, and the
parameters and locals with their types. -/
structure Context where
  self : Ty
  result : Ty
  locals : List Local

namespace Context

/-- What the body of a method of the class `self` refers to. -/
def ofMethod (self : Ty) (m : Method) (body : Body) : Context :=
  ⟨self, m.result, m.params ++ body.locals⟩

/-- The type of a parameter or local. -/
def typeOf? (ctx : Context) (name : String) : Option Ty :=
  (ctx.locals.find? (·.name = name)).map Local.type

end Context

/-- The type of an expression. A local that is not declared has no type and counts as
`void`. -/
def Expr.type (ctx : Context) : Expr → Ty
  | .literal l => l.type
  | .var name => (ctx.typeOf? name).getD .void
  | .self => ctx.self
  | .length _ => .int
  | .invoke _ _ _ type _ _ => type.result
  | .not _ | .logic .. | .compare .. | .instanceOf .. => .boolean
  | .field _ _ type _ | .element _ _ type | .new type _ _ | .newArray type _ | .neg _ type
  | .arith _ _ _ type | .cast _ type | .convert _ _ type | .caught type => type

/-! ### Values -/

/-- The receiver and the values of parameters and locals; a local has no value before it is
assigned one. -/
structure Env (A : Type) where
  self : Option A
  vars : String → Option (Value A)

namespace Env

variable {A : Type}

/-- The values after an assignment to a local. -/
def set (env : Env A) (name : String) (v : Value A) : Env A :=
  { env with vars := fun other => if other = name then some v else env.vars other }

/-- The values with parameters bound to arguments in order. -/
def bind (env : Env A) : List Local → List (Value A) → Env A
  | l :: params, v :: args => (env.set l.name v).bind params args
  | _, _ => env

end Env

namespace Machine

variable {H A α : Type}

/-- Whether a value stands for the truth value true. -/
def Value.truth? : Value A → Option Bool
  | .int n => some (n ≠ 0)
  | _ => none

@[simp]
theorem Value.truth?_ofBool (b : Bool) :
  (Value.ofBool b : Value A).truth? = some b
  := by
  cases b <;> rfl

/-- The result of a computation that must have one. -/
def Comp.value (x : Comp H A (Option α)) : Comp H A α := do
  Comp.require (← x)

/-- The result of a computation as a truth value. -/
def Comp.truth (x : Comp H A (Option (Value A))) : Comp H A Bool := do
  Comp.require (← x.value).truth?

/-- A truth value as the result of a computation. -/
def Comp.ofTruth (x : Comp H A Bool) : Comp H A (Option (Value A)) := do
  return some (.ofBool (← x))

namespace World

/-- The value converted from one primitive type to another. -/
def convert (w : World H A) (source target : Ty) (v : Value A) : Comp H A (Value A) :=
  match source.primitive?, target.primitive? with
  | some p, some q => Comp.require (v.convert? w.floating p q)
  | _, _ => Comp.stuck

/-- The value cast from one type to another. -/
def cast (w : World H A) (source target : Ty) (v : Value A) : Comp H A (Option (Value A)) :=
  if source.primitive?.isSome && target.primitive?.isSome then
    if source = target then return some v else return some (← w.convert source target v)
  else
    w.call (.checkCast target.erasure) [v]

theorem cast_same (w : World H A) (p : Primitive) (v : Value A) :
  w.cast (.primitive p) (.primitive p) v = pure (some v)
  := by
  rw [cast, if_pos (by rfl), if_pos rfl]

theorem cast_primitive (w : World H A) {p q : Primitive} (h : p ≠ q) (v : Value A) :
  w.cast (.primitive p) (.primitive q) v
    = do return some (← w.convert (.primitive p) (.primitive q) v)
  := by
  rw [cast, if_pos (by rfl), if_neg (h ∘ Ty.primitive.inj)]

theorem cast_reference (w : World H A) {source target : Ty}
    (h : (source.primitive?.isSome && target.primitive?.isSome) = false) (v : Value A) :
  w.cast source target v = w.call (.checkCast target.erasure) [v]
  := by
  rw [cast, h, if_neg Bool.false_ne_true]

/-- Throws an object, and another one in place of null. -/
def raise (w : World H A) : Value A → Comp H A α
  | .ref (some a) => fun heap => .throws a heap
  | .ref none => Comp.throw w.nullThrown
  | _ => Comp.stuck

end World

end Machine

/-! ### Expressions -/

section

variable {H A : Type}

/-- The value of a literal. The class object of a primitive type is kept in a static field. -/
def Literal.eval (w : World H A) : Literal → Comp H A (Option (Value A))
  | .boolean b => return some (.ofBool b)
  | .char value => return some (.int (Int32.ofNat value.toNat))
  | .byte value => return some (.int value.toInt32)
  | .short value => return some (.int value.toInt32)
  | .int value => return some (.int value)
  | .long value => return some (.long value)
  | .float bits => return some (.float bits)
  | .double bits => return some (.double bits)
  | .string text => return some (.ref (some (w.text text)))
  | .classOf (.primitive p) =>
    w.call (.getField ⟨.object p.wrapper [], "TYPE", .object .classObject []⟩ true) []
  | .classOf type => return some (.ref (some (w.classObject type.erasure)))
  | .null => return some (.ref none)

/-- The operation that creates an array of the type with `count` lengths given. -/
def newArrayOp (type : Ty) (count : Nat) : HeapOp :=
  match type, count with
  | .array elem, 1 => .newArray elem.erasure
  | type, count => .newArrays type.erasure (UInt8.ofNat count)

/-- The operation that calls a method. -/
def callOp (owner : Ty) (name : String) (type : MethodType) (mode : InvokeMode) : HeapOp :=
  .invoke ⟨owner.erasure, name, type.erasure⟩ mode

/-- A field as the world knows it. -/
def fieldRef (owner : Ty) (name : String) (type : Ty) : FieldRef :=
  ⟨owner.erasure, name, type.erasure⟩

/-- The truth value of a logical operation. The right operand is left out when the left one
decides. -/
def LogicOp.eval (left right : Comp H A Bool) : LogicOp → Comp H A Bool
  | .and => do if ← left then right else return false
  | .or => do if ← left then return true else right

variable [DecidableEq A]

mutual

/-- The value of an expression; a call without a result has none. -/
def Expr.eval (w : World H A) (ctx : Context) (env : Env A) : Expr → Comp H A (Option (Value A))
  | .literal l => l.eval w
  | .var name => return some (← Comp.require (env.vars name))
  | .self => return some (.ref env.self)
  | .field owner name type object => do
    let receiver ← Expr.evalIfAny w ctx env object
    w.call (.getField (fieldRef owner name type) object.isNone) receiver
  | .element array index elem => do
    let a ← (Expr.eval w ctx env array).value
    let i ← (Expr.eval w ctx env index).value
    w.call (.arrayLoad elem.erasure) [a, i]
  | .length array => do
    let a ← (Expr.eval w ctx env array).value
    w.call .arrayLength [a]
  | .invoke mode owner name type receiver args => do
    let receiver ← Expr.evalIfAny w ctx env receiver
    let args ← Expr.evalAll w ctx env args
    w.call (callOp owner name type mode) (receiver ++ args)
  | .new type params args => do
    let object ← (w.call (.new type.erasure) []).value
    let args ← Expr.evalAll w ctx env args
    let _ ← w.call (callOp type "<init>" ⟨params, .void⟩ .special) (object :: args)
    return some object
  | .newArray type lengths => do
    let sizes ← Expr.evalAll w ctx env lengths
    w.call (newArrayOp type lengths.length) sizes
  | .neg operand type => do
    let v ← (Expr.eval w ctx env operand).value
    let kind ← Comp.require type.kind?
    return some (← Comp.require (v.negate? kind))
  | .not operand => Comp.ofTruth do
    return !(← (Expr.eval w ctx env operand).truth)
  | .arith op left right type => do
    let x ← (Expr.eval w ctx env left).value
    let y ← (Expr.eval w ctx env right).value
    let kind ← Comp.require type.kind?
    return some (← w.arith op kind x y)
  | .logic op left right =>
    Comp.ofTruth (op.eval (Expr.eval w ctx env left).truth (Expr.eval w ctx env right).truth)
  | .compare condition left right type => Comp.ofTruth do
    let x ← (Expr.eval w ctx env left).value
    let y ← (Expr.eval w ctx env right).value
    let kind ← Comp.require type.kind?
    Comp.require (Value.test? w.floating condition kind x y)
  | .instanceOf value type => do
    let v ← (Expr.eval w ctx env value).value
    w.call (.instanceOf type.erasure) [v]
  | .cast value type => do
    let v ← (Expr.eval w ctx env value).value
    w.cast (value.type ctx) type v
  | .convert value source target => do
    let v ← (Expr.eval w ctx env value).value
    if source = target then return some v else return some (← w.convert source target v)
  | .caught _ => Comp.stuck

/-- The value of an expression that may be absent, as a list. -/
def Expr.evalIfAny (w : World H A) (ctx : Context) (env : Env A) :
    Option Expr → Comp H A (List (Value A))
  | none => return []
  | some e => do
    let v ← (Expr.eval w ctx env e).value
    return [v]

/-- The values of expressions, in order. -/
def Expr.evalAll (w : World H A) (ctx : Context) (env : Env A) :
    List Expr → Comp H A (List (Value A))
  | [] => return []
  | e :: es => do
    let v ← (Expr.eval w ctx env e).value
    let vs ← Expr.evalAll w ctx env es
    return v :: vs

end

/-! ### Statements -/

/-- Where to go on after a statement. -/
inductive Flow (A : Type) where
  | next (env : Env A)
  | jump (target : Label)
  | ret (value : Option (Value A))

/-- Assigns the value of an expression to a place. -/
def Place.exec (w : World H A) (ctx : Context) (env : Env A) (value : Expr) :
    Place → Comp H A (Flow A)
  | .var name => do
    let v ← (value.eval w ctx env).value
    return .next (env.set name v)
  | .field owner name type object => do
    let receiver ← Expr.evalIfAny w ctx env object
    let v ← (value.eval w ctx env).value
    let _ ← w.call (.putField (fieldRef owner name type) object.isNone) (receiver ++ [v])
    return .next env
  | .element array index elem => do
    let a ← (array.eval w ctx env).value
    let i ← (index.eval w ctx env).value
    let v ← (value.eval w ctx env).value
    let _ ← w.call (.arrayStore elem.erasure) [a, i, v]
    return .next env

/-- The label that a key selects. -/
def selectCase (cases : List (Int32 × Label)) (fallback : Label) (key : Int32) : Label :=
  (cases.lookup key).getD fallback

/-- What a statement does. -/
def Stmt.exec (w : World H A) (ctx : Context) (env : Env A) : Stmt → Comp H A (Flow A)
  | .assign place value => place.exec w ctx env value
  | .eval e => do
    let _ ← e.eval w ctx env
    return .next env
  | .ret none => return .ret none
  | .ret (some value) => do
    let v ← (value.eval w ctx env).value
    return .ret (some v)
  | .throw value => do
    let v ← (value.eval w ctx env).value
    w.raise v
  | .goto target => return .jump target
  | .branch condition target => do
    let b ← (condition.eval w ctx env).truth
    return if b then .jump target else .next env
  | .label _ => return .next env
  | .lock value => do
    let v ← (value.eval w ctx env).value
    let _ ← w.call .monitorEnter [v]
    return .next env
  | .unlock value => do
    let v ← (value.eval w ctx env).value
    let _ ← w.call .monitorExit [v]
    return .next env
  | .switch key cases fallback => do
    match ← (key.eval w ctx env).value with
    | .int n => return .jump (selectCase cases fallback n)
    | _ => Comp.stuck

/-- Whether the statement is the given label. -/
def Stmt.isLabel (l : Label) : Stmt → Bool
  | .label l' => l' = l
  | _ => false

/-! ### Bodies -/

/-- The state of a body that is being run. -/
structure Config (H A : Type) where
  /-- The index of the next statement. -/
  index : Nat
  env : Env A
  heap : H

namespace Context

/-- The run after a statement. -/
def follow (stmts : List Stmt) (c : Config H A) : Ends H A (Flow A) → Config H A ⊕ Outcome H A
  | .done (.next env) heap => .inl ⟨c.index + 1, env, heap⟩
  | .done (.jump target) heap =>
    match stmts.findIdx? (Stmt.isLabel target) with
    | some index => .inl ⟨index, c.env, heap⟩
    | none => .inr (.escaped heap)
  | .done (.ret value) heap => .inr (.returned value heap)
  | .throws thrown heap => .inr (.thrown thrown heap)
  | .stuck => .inr .stuck

/-- One statement of a run. Past the last one a body without a result returns. -/
def step (w : World H A) (ctx : Context) (stmts : List Stmt) (c : Config H A) :
    Config H A ⊕ Outcome H A :=
  match stmts[c.index]? with
  | some s => follow stmts c (s.exec w ctx c.env c.heap)
  | none => .inr (if ctx.result.isVoid then .returned none c.heap else .escaped c.heap)

end Context

/-- The body of a method of the class `self` ends with the outcome when it is run on the given
receiver, arguments and heap. -/
def Method.EndsWith (w : World H A) (self : Ty) (m : Method) (body : Body) (receiver : Option A)
    (args : List (Value A)) (heap : H) (o : Outcome H A) : Prop :=
  Execution.Halts (Context.step w (.ofMethod self m body) body.stmts)
    ⟨0, (Env.mk receiver fun _ => none).bind m.params args, heap⟩ o

end

end ClassForge
