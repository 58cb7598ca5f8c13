import ClassForge.Instruction.ConstantForm

/-!
# Effects of instructions

What an instruction does to the depth of the stack, and the entries of the constant pool that
its encoded form refers to.
-/

namespace ClassForge

/-- The pool entry of a field. -/
def FieldRef.entry (f : FieldRef) : PoolEntry :=
  .fieldRef ⟨f.owner.entryName, f.name, f.type.descriptor⟩

/-- The pool entry of a method called in the given way. -/
def MethodRef.entry (m : MethodRef) (mode : InvokeMode) : PoolEntry :=
  let member : MemberRef := ⟨m.owner.entryName, m.name, m.type.descriptor⟩
  match mode with
  | .interface => .interfaceMethodRef member
  | _ => .methodRef member

namespace Instruction

/-- The change in the depth of the stack, in slots. -/
def stackDiff : Instruction → Int
  | .label _ | .nop | .increment .. | .neg _ | .newArray _ | .arrayLength | .checkCast _
  | .instanceOf _ => 0
  | .load _ kind => kind.slots
  | .store _ kind => -kind.slots
  | .constant c => c.kind.slots
  | .arith op kind => if op.isShift then -1 else -kind.slots
  | .convert source target => (target.kind.slots : Int) - source.kind.slots
  | .compare kind _ => 1 - 2 * (kind.slots : Int)
  | .branch test _ =>
    match test with
    | .always => 0
    | .compare .. => -2
    | .zero _ | .null | .nonNull => -1
  | .switch _ => -1
  | .dup slots => slots
  | .pop slots => -slots
  | .new _ => 1
  | .newArrays _ dims => 1 - (dims.toNat : Int)
  | .arrayLoad elem => (elem.slots : Int) - 2
  | .arrayStore elem => -2 - (elem.slots : Int)
  | .getField field isStatic => (field.type.slots : Int) - if isStatic then 0 else 1
  | .putField field isStatic => -(field.type.slots : Int) - if isStatic then 0 else 1
  | .invoke method mode =>
    (method.type.result.slots : Int) - method.type.argSlots.toNat
      - if mode = .static then 0 else 1
  | .ret none => 0
  | .ret (some kind) => -kind.slots
  | .throw | .monitorEnter | .monitorExit => -1

/-- The pool entries that the encoded instruction refers to. -/
def poolNeeds : Instruction → List PoolEntry
  | .constant c =>
    match c.form with
    | .pooled entry _ => [entry]
    | _ => []
  | .new type | .checkCast type | .instanceOf type | .newArrays type _ => [.ofClass type]
  | .newArray elem => if elem.isReference then [.ofClass elem] else []
  | .getField field _ | .putField field _ => [field.entry]
  | .invoke method mode => [method.entry mode]
  | _ => []

end Instruction

end ClassForge
