import ClassForge.Instruction.Basic
import ClassForge.Ty.Erasure

/-!
# Instructions for types

The instruction that does something to values of a given type. Not every operation exists for
every type: where no opcode covers the operands, the reason is given instead.
-/

namespace ClassForge

/-- Why there is no instruction for the given operands. -/
inductive InstructionError where
  | noKind (type : Ty)
  | compareKind (kind : Kind)
  | arithKind (op : ArithOp) (kind : Kind)
  | branchKind (kind : Kind) (condition : Condition)
  | conversion (source target : Ty)
  | incrementRange (delta : Int32)
  | notAClass (type : Ty)
  | dimensions (type : Ty) (dims : Nat)
  | duplicateCase (key : Int32)
  deriving DecidableEq

/-- The message of an instruction error. -/
def InstructionError.message : InstructionError → String
  | .noKind type => "no value kind for " ++ type.display
  | .compareKind kind => kind.display ++ " compare needs a long, float or double operand"
  | .arithKind op kind => op.display ++ " is not defined on " ++ kind.display
  | .branchKind kind condition =>
    "two-operand branch on " ++ kind.display ++ " cannot test " ++ condition.display
  | .conversion source target =>
    "no conversion from " ++ source.display ++ " to " ++ target.display
  | .incrementRange delta => "iinc delta " ++ toString delta.toInt ++ " does not fit in 16 bits"
  | .notAClass type => type.display ++ " is not a class type"
  | .dimensions type dims => "cannot create " ++ toString dims ++ "-dimensional " ++ type.display
  | .duplicateCase key => "duplicate switch key " ++ toString key.toInt

/-- The kind of the values of a type. -/
def Kind.of : Ty → Except InstructionError Kind
  | .primitive .void => .error (.noKind .void)
  | .primitive .long => .ok .long
  | .primitive .float => .ok .float
  | .primitive .double => .ok .double
  | .primitive _ => .ok .int
  | .function params result => .error (.noKind (.function params result))
  | .object .. | .array _ | .typeVar .. | .null => .ok .reference

namespace Switch

/-- The first key that stands twice in a row. -/
def repeatedKey? : List (Int32 × Label) → Option Int32
  | (k, _) :: (k', l') :: rest => if k = k' then some k else repeatedKey? ((k', l') :: rest)
  | _ => none

/-- The number of keys from `low` to `high`. -/
def span (low high : Int32) : Int :=
  high.toInt - low.toInt + 1

/-- The form in which sorted cases take fewer bytes, a table if they take the same. -/
def formFor (cases : List (Int32 × Label)) : SwitchForm :=
  match cases.head?, cases.getLast? with
  | some (low, _), some (high, _) =>
    if 4 + 4 * span low high ≤ 8 * (cases.length : Int) then .table low high else .lookup
  | _, _ => .lookup

/-- The switch with the given cases, in any order. -/
def ofCases (fallback : Label) (cases : List (Int32 × Label)) : Except InstructionError Switch :=
  let sorted := cases.mergeSort fun a b => a.1 ≤ b.1
  match repeatedKey? sorted with
  | some key => .error (.duplicateCase key)
  | none => .ok ⟨fallback, sorted, formFor sorted⟩

end Switch

namespace Checked

/-- Loads a value of the type from a slot. -/
def load (slot : UInt16) (type : Ty) : Except InstructionError Instruction :=
  return .load slot (← Kind.of type)

/-- Stores a value of the type into a slot. -/
def store (slot : UInt16) (type : Ty) : Except InstructionError Instruction :=
  return .store slot (← Kind.of type)

/-- Adds `delta` to the `int` in a slot. -/
def increment (slot : UInt16) (delta : Int32) : Except InstructionError Instruction :=
  if -32768 ≤ delta.toInt ∧ delta.toInt ≤ 32767 then .ok (.increment slot (Int16.ofInt delta.toInt))
  else .error (.incrementRange delta)

/-- Does arithmetic on values of the type. -/
def arith (op : ArithOp) (type : Ty) : Except InstructionError Instruction := do
  let kind ← Kind.of type
  if kind = .reference || (kind.isFloating && op.isBitwise) then
    .error (.arithKind op kind)
  else
    .ok (.arith op kind)

/-- Negates a value of the type. -/
def neg (type : Ty) : Except InstructionError Instruction := do
  let kind ← Kind.of type
  if kind = .reference then .error (.noKind type) else .ok (.neg kind)

/-- Whether a primitive type takes part in conversions. -/
def convertible (p : Primitive) : Bool :=
  p ≠ .boolean && p ≠ .void

/-- Converts between primitive types. -/
def conversion (source target : Ty) : Except InstructionError Instruction :=
  match source.primitive?, target.primitive? with
  | some p, some q =>
    if convertible p && convertible q then .ok (.convert p q)
    else .error (.conversion source target)
  | _, _ => .error (.conversion source target)

/-- Compares two values of the type, with three outcomes, for a branch on `condition`. An
unordered pair counts as greater when less is asked for, so that the branch is not taken. -/
def compare (type : Ty) (condition : Condition) : Except InstructionError Instruction := do
  match ← Kind.of type with
  | .long => return .compare .long false
  | .float => return .compare .float (condition = .lt || condition = .le)
  | .double => return .compare .double (condition = .lt || condition = .le)
  | kind => .error (.compareKind kind)

/-- Branches when two values of the type compare as told. -/
def branchIf (type : Ty) (condition : Condition) (target : Label) :
    Except InstructionError Instruction := do
  let kind ← Kind.of type
  if kind = .int || (kind = .reference && (condition = .eq || condition = .ne)) then
    return .branch (.compare kind condition) target
  else
    .error (.branchKind kind condition)

/-- Jumps by a key. -/
def switch (fallback : Label) (cases : List (Int32 × Label)) : Except InstructionError Instruction :=
  return .switch (← Switch.ofCases fallback cases)

/-- Duplicates a value of the type. -/
def dup (type : Ty) : Except InstructionError Instruction :=
  return .dup (← Kind.of type).slots

/-- Drops a value of the type. -/
def pop (type : Ty) : Except InstructionError Instruction :=
  return .pop (← Kind.of type).slots

/-- Creates an object of a class. -/
def new (type : Ty) : Except InstructionError Instruction :=
  match type with
  | .object .. => .ok (.new type.erasure)
  | _ => .error (.notAClass type)

/-- Creates an array with elements of the type. -/
def newArray (elem : Ty) : Except InstructionError Instruction := do
  let _ ← Kind.of elem
  return .newArray elem.erasure

/-- Creates an array of the type with its first `dims` dimensions allocated. -/
def newArrays (type : Ty) (dims : Nat) : Except InstructionError Instruction :=
  if dims = 0 ∨ type.dimensions < dims ∨ 255 < dims then .error (.dimensions type dims)
  else .ok (.newArrays type.erasure (UInt8.ofNat dims))

/-- Loads an array element of the type. -/
def arrayLoad (elem : Ty) : Except InstructionError Instruction := do
  let _ ← Kind.of elem
  return .arrayLoad elem.erasure

/-- Stores an array element of the type. -/
def arrayStore (elem : Ty) : Except InstructionError Instruction := do
  let _ ← Kind.of elem
  return .arrayStore elem.erasure

/-- Casts a reference to the type. -/
def checkCast (type : Ty) : Except InstructionError Instruction := do
  if (← Kind.of type) = .reference then return .checkCast type.erasure
  else .error (.notAClass type)

/-- Tests whether a reference has the type. -/
def instanceOf (type : Ty) : Except InstructionError Instruction := do
  if (← Kind.of type) = .reference then return .instanceOf type.erasure
  else .error (.notAClass type)

/-- Reads a field of the type. -/
def getField (owner : Ty) (name : String) (type : Ty) (isStatic : Bool) :
    Except InstructionError Instruction := do
  let _ ← Kind.of type
  return .getField ⟨owner.erasure, name, type.erasure⟩ isStatic

/-- Writes a field of the type. -/
def putField (owner : Ty) (name : String) (type : Ty) (isStatic : Bool) :
    Except InstructionError Instruction := do
  let _ ← Kind.of type
  return .putField ⟨owner.erasure, name, type.erasure⟩ isStatic

/-- Calls a method; there is one for any type. -/
def invoke (owner : Ty) (name : String) (type : MethodType) (mode : InvokeMode) : Instruction :=
  .invoke ⟨owner.erasure, name, type.erasure⟩ mode

/-- Returns a value of the type, or nothing if it is `void`. -/
def ret (type : Ty) : Except InstructionError Instruction := do
  if type.isVoid then return .ret none
  return .ret (some (← Kind.of type))

end Checked

end ClassForge
