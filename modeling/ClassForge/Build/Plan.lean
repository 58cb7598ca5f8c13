import ClassForge.Descriptor.Render
import ClassForge.Lowering.Method
import ClassForge.Peephole.Pass

/-!
# Plans of members

Before the constant pool can be frozen, every field and method is worked out as far as it can
be without indices: its texts are rendered, its constant is found, its body is lowered and
optimized. The plan tells which entries the member needs.
-/

namespace ClassForge

/-- What improves code between lowering and assembly, with the events it notes. -/
structure Optimizer where
  run : MethodCode → MethodCode
  events : MethodCode → List Event

namespace Optimizer

/-- Leaves code as it is. -/
def none : Optimizer where
  run code := code
  events _ := []

/-- Applies the peephole rules until none applies. -/
def peephole : Optimizer where
  run := Peephole.optimize
  events code :=
    (Peephole.passes code.instructions code.handlers).flatMap fun pass =>
      pass.applied.map fun (rule, index) => .ruleUsed rule index

/-- The improved code with the events. -/
def optimize {ε : Type} (o : Optimizer) (code : MethodCode) : Traced ε MethodCode :=
  ⟨o.events code, .ok (o.run code)⟩

end Optimizer

/-! ### Fields -/

/-- A field with its texts and the entry of its constant. -/
structure FieldPlan where
  field : Field
  descriptor : String
  signature : Option String
  constant : Option PoolEntry

/-- The entry that holds the constant of a field. -/
def constantEntry (field : String) : Literal → Except Unsupported PoolEntry
  | .boolean value => .ok (.integer (if value then 1 else 0))
  | .char value => .ok (.integer (Int32.ofNat value.toNat))
  | .byte value => .ok (.integer value.toInt32)
  | .short value => .ok (.integer value.toInt32)
  | .int value => .ok (.integer value)
  | .long value => .ok (.long value)
  | .float bits => .ok (.float bits)
  | .double bits => .ok (.double bits)
  | .string text => .ok (.string text)
  | .classOf type => .error (.classConstant field type)
  | .null => .error (.nullConstant field)

/-- The entry that holds the constant of a field, if it has one. Only static fields may. -/
def Field.constantEntry? (f : Field) : Except Unsupported (Option PoolEntry) :=
  match f.constant with
  | none => .ok none
  | some literal =>
    if f.isStatic then some <$> constantEntry f.name literal
    else .error (.constantOnInstance f.name)

/-- The plan of a field. -/
def Field.plan (f : Field) : Except CompileError FieldPlan := do
  let constant ← f.constantEntry?.mapError .unsupported
  return {
    field := f
    descriptor := f.type.descriptor
    signature := if f.type.isGeneric then some f.type.signature else none
    constant }

/-- The entries of a signature. -/
def signatureNeeds : Option String → List PoolEntry
  | none => []
  | some signature => [.utf8 "Signature", .utf8 signature]

/-- The entries that a field needs. -/
def FieldPlan.needs (p : FieldPlan) : List PoolEntry :=
  [.utf8 p.field.name, .utf8 p.descriptor] ++ signatureNeeds p.signature
    ++ match p.constant with
      | none => []
      | some constant => [.utf8 "ConstantValue", constant]

/-! ### Methods -/

/-- A method with its texts and its code. -/
structure MethodPlan where
  method : Method
  descriptor : String
  signature : Option String
  code : Option MethodCode

/-- An error in a method. -/
def Method.blame (m : Method) (e : CompileError) : CompileError :=
  .inMethod m.name m.type.descriptor e

/-- The optimized code of a method that has a body. Abstract and native methods must not have
one, all others must. -/
def Method.planCode (self : Ty) (optimizer : Optimizer) (m : Method) :
    Traced CompileError (Option MethodCode) :=
  match m.body, m.isBodiless with
  | some _, true => Traced.ofExcept (.error (.unsupported .bodyNotAllowed))
  | none, false => Traced.ofExcept (.error (.unsupported .noBody))
  | none, true => return none
  | some _, false => do
    let code ← m.lower self
    return some (← optimizer.optimize code)

/-- The plan of a method. -/
def Method.plan (self : Ty) (optimizer : Optimizer) (m : Method) :
    Traced CompileError MethodPlan := do
  let code ← (m.planCode self optimizer).mapError m.blame
  return {
    method := m
    descriptor := m.type.descriptor
    signature := if m.isGeneric then some (methodSignature m.typeParams m.type m.exceptions) else none
    code }

/-- The entries that code needs. -/
def MethodCode.needs (code : MethodCode) : List PoolEntry :=
  code.instructions.flatMap Instruction.poolNeeds
    ++ code.handlers.filterMap fun h => h.catchType.map .ofClass

/-- The entries that a method needs. -/
def MethodPlan.needs (p : MethodPlan) : List PoolEntry :=
  [.utf8 p.method.name, .utf8 p.descriptor] ++ signatureNeeds p.signature
    ++ (match p.code with
      | none => []
      | some code => .utf8 "Code" :: code.needs)
    ++ if p.method.exceptions.isEmpty then []
      else .utf8 "Exceptions" :: p.method.exceptions.map fun thrown => .ofClass thrown.erasure

end ClassForge
