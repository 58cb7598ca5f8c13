import ClassForge.Event
import ClassForge.Lowering.Expr
import ClassForge.Method.Code
import Std.Data.HashMap

/-!
# Lowering of methods

A method body becomes the code of its statements in order. A body that returns nothing and has
code ends with a return. Every label stands once, every jump and trap refers to a label that
stands somewhere, and traps become ranges of instructions.
-/

namespace ClassForge

open Gen

/-- Assigns a value to a place. -/
def Place.assign (scope : Scope) (value : Expr) : Place → Gen Unit
  | .var name => do
    let l ← require (scope.locals.find name)
    let _ ← value.value scope
    emitChecked (Checked.store l.slot l.type)
  | .field owner name type object => do
    Expr.valueIfAny scope object
    let _ ← value.value scope
    emitChecked (Checked.putField owner name type object.isNone)
  | .element array index elem => do
    let _ ← array.value scope
    let _ ← index.value scope
    let _ ← value.value scope
    emitChecked (Checked.arrayStore elem)

/-- Whether the name of a label is kept for made-up ones. -/
def Label.isReserved (l : Label) : Bool :=
  l.name.toList.head? = some reservedMark

/-- The code of a statement. -/
def Stmt.code (scope : Scope) : Stmt → Gen Unit
  | .assign place value => place.assign scope value
  | .eval e => do
    let type ← e.value scope
    if type.isVoid then Gen.pure () else emitChecked (Checked.pop type)
  | .ret none =>
    if scope.method.result.isVoid then emit (.ret none) else fail .returnWithoutValue
  | .ret (some value) => do
    if scope.method.result.isVoid then
      fail .returnWithValue
    else
      let _ ← value.value scope
      emitChecked (Checked.ret scope.method.result)
  | .throw value => do
    let _ ← value.value scope
    emit .throw
  | .goto target => emit (.goto target)
  | .branch condition target => condition.jump scope target true
  | .label l => if l.isReserved then fail (.reservedLabel l) else emit (.label l)
  | .lock value => do
    let _ ← value.value scope
    emit .monitorEnter
  | .unlock value => do
    let _ ← value.value scope
    emit .monitorExit
  | .switch key cases fallback => do
    let type ← key.value scope
    if type.isIntLike then emitChecked (Checked.switch fallback cases) else fail (.switchOn type)

/-- The code with the return that ends a body without a result. -/
def withReturn (result : Ty) (code : List Instruction) : List Instruction :=
  match code.getLast? with
  | none | some (.ret _) => code
  | some _ => if result.isVoid then code ++ [.ret none] else code

/-- The places of labels. -/
abbrev Positions := Std.HashMap Label Nat

/-- The places of the labels in some code that starts at `index`, after those in
`positions`. Each label stands once. -/
def positionsFrom (positions : Positions) (index : Nat) :
    List Instruction → Except Unsupported Positions
  | [] => .ok positions
  | .label l :: rest =>
    if positions.contains l then .error (.labelTwice l)
    else positionsFrom (positions.insert l index) (index + 1) rest
  | _ :: rest => positionsFrom positions (index + 1) rest

/-- Every jump goes to a label that has a place. -/
def checkTargets (positions : Positions) (code : List Instruction) : Except Unsupported Unit :=
  match (code.flatMap Instruction.targets).find? fun l => !positions.contains l with
  | some missing => .error (.undefinedTarget missing)
  | none => .ok ()

/-- The place of a label that a trap refers to. -/
def trapPosition (positions : Positions) (l : Label) : Except Unsupported Nat :=
  match positions[l]? with
  | some place => .ok place
  | none => .error (.undefinedTrapLabel l)

/-- The handler of a trap. -/
def Trap.handlerAt (positions : Positions) (t : Trap) : Except Unsupported Handler := do
  let start ← trapPosition positions t.start
  let stop ← trapPosition positions t.stop
  let _ ← trapPosition positions t.handler
  if stop < start then .error (.trapReversed t.stop t.start)
  else return ⟨start, stop, t.handler, t.catchType⟩

/-- The handlers of the traps of some code, whose labels are in order. -/
def resolveTraps (code : List Instruction) (traps : List Trap) :
    Except Unsupported (List Handler) := do
  let positions ← positionsFrom ∅ 0 code
  checkTargets positions code
  traps.mapM (Trap.handlerAt positions)

/-- The code of a method of the class `self`. -/
def Method.lowerBody (self : Ty) (m : Method) : Except CompileError MethodCode := do
  match m.body with
  | none => throw (.unsupported .noBody)
  | some body =>
    let locals ← (Locals.ofMethod m body).mapError .unsupported
    let emitted ← forEach (Stmt.code ⟨self, m, locals⟩) body.stmts 0 0
    let code := withReturn m.result emitted.code
    let handlers ← (resolveTraps code body.traps).mapError .unsupported
    return .ofParams code handlers m.isStatic m.paramTypes

/-- The code of a method of the class `self`, noted when it is done. -/
def Method.lower (self : Ty) (m : Method) : Traced CompileError MethodCode := do
  let code ← m.lowerBody self
  Traced.note (.lowered m.name code.instructions.length)
  return code

end ClassForge
