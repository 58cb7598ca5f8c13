import ClassForge.Lowering.Gen
import ClassForge.Lowering.Locals

/-!
# Lowering of expressions

An expression has code for its value, which leaves the value on the stack, and code for a
jump, which branches to a label when the expression is true, or when it is false, and falls
through otherwise. For most expressions the jump tests the value. For comparisons and logical
operations it is the other way round: the value is made by a jump, and the right operand of a
logical operation is left out when the left one decides.
-/

namespace ClassForge

/-- The surroundings of an expression: the type of the receiver, the method and its locals. -/
structure Scope where
  self : Ty
  method : Method
  locals : Locals

/-- The code of an expression. -/
structure ExprCode where
  /-- Leaves the value on the stack and gives its type. -/
  value : Gen Ty
  /-- Branches to the label when the expression has the given truth value. -/
  jump : Label → Bool → Gen Unit

namespace ExprCode

open Gen

/-- The code of an expression whose jump tests its value. -/
def ofValue (value : Gen Ty) : ExprCode where
  value := value
  jump target onTrue := do
    let type ← value
    if type.isIntLike then
      emit (.ifZero (if onTrue then .ne else .eq) target)
    else
      fail (.conditionOf type)

/-- The code of an expression whose value is made by its jump. -/
def ofJump (jump : Label → Bool → Gen Unit) : ExprCode where
  value := do
    let onFalse ← fresh
    let done ← fresh
    jump onFalse false
    emit (.int 1)
    emit (.goto done)
    emit (.label onFalse)
    emit (.int 0)
    emit (.label done)
    return .boolean
  jump := jump

/-- The jump for a conjunction. -/
def jumpAnd (left right : ExprCode) (target : Label) (onTrue : Bool) : Gen Unit := do
  if onTrue then
    let skip ← fresh
    left.jump skip false
    right.jump target true
    emit (.label skip)
  else
    left.jump target false
    right.jump target false

/-- The jump for a disjunction. -/
def jumpOr (left right : ExprCode) (target : Label) (onTrue : Bool) : Gen Unit := do
  if onTrue then
    left.jump target true
    right.jump target true
  else
    let skip ← fresh
    left.jump skip true
    right.jump target false
    emit (.label skip)

/-- The jump for a comparison. Floating point numbers are compared for the condition as it
stands, also where the branch is on its negation, so that an unordered pair makes the
condition false. -/
def jumpCompare (condition : Condition) (left right : ExprCode) (type : Ty) (target : Label)
    (onTrue : Bool) : Gen Unit := do
  let tested := if onTrue then condition else condition.negate
  let _ ← left.value
  let _ ← right.value
  match ← check (Kind.of type) with
  | .int | .reference => emitChecked (Checked.branchIf type tested target)
  | .long | .float | .double =>
    emitChecked (Checked.compare type condition)
    emit (.ifZero tested target)

end ExprCode

/-- The class that holds the class object of a primitive type in its field `TYPE`. -/
def Primitive.wrapper : Primitive → ClassName
  | boolean => ⟨["java", "lang"], ["Boolean"]⟩
  | byte => ⟨["java", "lang"], ["Byte"]⟩
  | char => ⟨["java", "lang"], ["Character"]⟩
  | short => ⟨["java", "lang"], ["Short"]⟩
  | int => ⟨["java", "lang"], ["Integer"]⟩
  | long => ⟨["java", "lang"], ["Long"]⟩
  | float => ⟨["java", "lang"], ["Float"]⟩
  | double => ⟨["java", "lang"], ["Double"]⟩
  | void => ⟨["java", "lang"], ["Void"]⟩

/-- The instruction that pushes a literal. -/
def Literal.instruction : Literal → Except InstructionError Instruction
  | .boolean value => .ok (.int (if value then 1 else 0))
  | .char value => .ok (.int (Int32.ofNat value.toNat))
  | .byte value => .ok (.int value.toInt32)
  | .short value => .ok (.int value.toInt32)
  | .int value => .ok (.int value)
  | .long value => .ok (.constant (.long value))
  | .float bits => .ok (.constant (.float bits))
  | .double bits => .ok (.constant (.double bits))
  | .string text => .ok (.constant (.string text))
  | .classOf (.primitive p) =>
    Checked.getField (.object p.wrapper []) "TYPE" (.object .classObject []) true
  | .classOf type => .ok (.constant (.classOf type.erasure))
  | .null => .ok (.constant .null)

/-- The code of a literal. A truth value needs no test in a jump. -/
def Literal.code (l : Literal) : ExprCode :=
  let value : Gen Ty := do
    Gen.emitChecked l.instruction
    return l.type
  match l with
  | .boolean b => {
    value
    jump target onTrue := if b = onTrue then Gen.emit (.goto target) else Gen.pure () }
  | _ => .ofValue value

/-- What a call has to satisfy: a receiver unless it is static, and an argument for each
parameter. -/
def checkCall (mode : InvokeMode) (name : String) (type : MethodType) (hasReceiver : Bool)
    (args : Nat) : Except Unsupported Unit :=
  if hasReceiver && mode = .static then .error (.staticWithReceiver name)
  else if !hasReceiver && mode ≠ .static then .error (.withoutReceiver mode name)
  else if args ≠ type.params.length then .error (.arity name type.params.length args)
  else .ok ()

/-- The instruction that creates an array with `count` lengths on the stack. -/
def newArrayCode (type elem : Ty) (count : Nat) : Gen Unit :=
  match count with
  | 0 => Gen.fail .arrayWithoutLength
  | 1 => Gen.emitChecked (Checked.newArray elem)
  | n => Gen.emitChecked (Checked.newArrays type n)

/-- The instruction that casts a value from one type to another, if one is needed. -/
def castCode (source target : Ty) : Gen Unit :=
  if source.primitive?.isSome && target.primitive?.isSome then
    if source = target then Gen.pure () else Gen.emitChecked (Checked.conversion source target)
  else
    Gen.emitChecked (Checked.checkCast target)

mutual

/-- The code of an expression. -/
def Expr.code (scope : Scope) : Expr → ExprCode
  | .literal l => l.code
  | .var name => .ofValue do
    let l ← Gen.require (scope.locals.find name)
    Gen.emitChecked (Checked.load l.slot l.type)
    return l.type
  | .self => .ofValue do
    if scope.method.isStatic then
      Gen.fail .thisInStatic
    else
      Gen.emit (.load 0 .reference)
      return scope.self
  | .field owner name type object => .ofValue do
    Expr.valueIfAny scope object
    Gen.emitChecked (Checked.getField owner name type object.isNone)
    return type
  | .element array index elem => .ofValue do
    let _ ← (Expr.code scope array).value
    let _ ← (Expr.code scope index).value
    Gen.emitChecked (Checked.arrayLoad elem)
    return elem
  | .length array => .ofValue do
    let _ ← (Expr.code scope array).value
    Gen.emit .arrayLength
    return .int
  | .invoke mode owner name type receiver args => .ofValue do
    Gen.require (checkCall mode name type receiver.isSome args.length)
    Expr.valueIfAny scope receiver
    Expr.valuesInOrder scope args
    Gen.emit (Checked.invoke owner name type mode)
    return type.result
  | .new type params args => .ofValue do
    Gen.emitChecked (Checked.new type)
    Gen.emit (.dup 1)
    Expr.valuesInOrder scope args
    Gen.emit (Checked.invoke type "<init>" ⟨params, .void⟩ .special)
    return type
  | .newArray type lengths => .ofValue do
    match type with
    | .array elem =>
      Expr.valuesInOrder scope lengths
      newArrayCode type elem lengths.length
      return type
    | other => Gen.fail (.arrayOf other)
  | .neg operand type => .ofValue do
    let _ ← (Expr.code scope operand).value
    Gen.emitChecked (Checked.neg type)
    return type
  | .not operand =>
    let code := Expr.code scope operand
    .ofJump fun target onTrue => code.jump target !onTrue
  | .arith op left right type => .ofValue do
    let _ ← (Expr.code scope left).value
    let _ ← (Expr.code scope right).value
    Gen.emitChecked (Checked.arith op type)
    return type
  | .logic op left right =>
    let left := Expr.code scope left
    let right := Expr.code scope right
    match op with
    | .and => .ofJump (left.jumpAnd right)
    | .or => .ofJump (left.jumpOr right)
  | .compare condition left right type =>
    .ofJump (ExprCode.jumpCompare condition (Expr.code scope left) (Expr.code scope right) type)
  | .instanceOf value type => .ofValue do
    let _ ← (Expr.code scope value).value
    Gen.emitChecked (Checked.instanceOf type)
    return .boolean
  | .cast value type => .ofValue do
    let source ← (Expr.code scope value).value
    castCode source type
    return type
  | .convert value source target => .ofValue do
    let _ ← (Expr.code scope value).value
    if source = target then Gen.pure () else Gen.emitChecked (Checked.conversion source target)
    return target
  | .caught type => .ofValue (Gen.pure type)

/-- The value of an expression that may be absent. -/
def Expr.valueIfAny (scope : Scope) : Option Expr → Gen Unit
  | none => Gen.pure ()
  | some e => do
    let _ ← (Expr.code scope e).value
    return ()

/-- The values of expressions, in order. -/
def Expr.valuesInOrder (scope : Scope) : List Expr → Gen Unit
  | [] => Gen.pure ()
  | e :: es => do
    let _ ← (Expr.code scope e).value
    Expr.valuesInOrder scope es

end

/-- Leaves the value of an expression on the stack and gives its type. -/
def Expr.value (scope : Scope) (e : Expr) : Gen Ty :=
  (e.code scope).value

/-- Branches to `target` when the expression has the truth value `onTrue`. -/
def Expr.jump (scope : Scope) (e : Expr) (target : Label) (onTrue : Bool) : Gen Unit :=
  (e.code scope).jump target onTrue

end ClassForge
