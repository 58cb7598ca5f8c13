import ClassForge.Ty.Display
import ClassForge.Ty.Equality

/-!
# Instructions

An instruction says what is done to the stack and the locals; which opcode does it is decided
when the instruction is encoded, by its operands. A label is an instruction of its own, which
takes no bytes and names the place of the instruction after it.
-/

namespace ClassForge

/-- A name for a place in the code of a method. -/
structure Label where
  name : String
  deriving DecidableEq, Hashable, Repr

/-- The kinds of values that families of opcodes are made for. -/
inductive Kind where
  | int
  | long
  | float
  | double
  | reference
  deriving DecidableEq, Repr

namespace Kind

/-- The number of slots a value takes. -/
def slots : Kind → Nat
  | long | double => 2
  | int | float | reference => 1

/-- Whether values are floating point numbers. -/
def isFloating : Kind → Bool
  | float | double => true
  | int | long | reference => false

/-- The place of the kind within a family of opcodes. -/
def familyIndex : Kind → UInt8
  | int => 0
  | long => 1
  | float => 2
  | double => 3
  | reference => 4

/-- The name of the kind in messages. -/
def display : Kind → String
  | int => "Int"
  | long => "Long"
  | float => "Float"
  | double => "Double"
  | reference => "Reference"

end Kind

/-- A literal that an instruction pushes. Floating point numbers are given by their bits. -/
inductive Constant where
  | int (value : Int32)
  | long (value : Int64)
  | float (bits : UInt32)
  | double (bits : UInt64)
  | string (text : String)
  /-- A class literal, possibly of an array type. -/
  | classOf (type : Ty)
  | null
  deriving DecidableEq

namespace Constant

/-- The kind of the pushed value. -/
def kind : Constant → Kind
  | .int _ => .int
  | .long _ => .long
  | .float _ => .float
  | .double _ => .double
  | .string _ | .classOf _ | .null => .reference

/-- The literal with the opposite sign. The least integers have none, nor have literals that
are no numbers. -/
def negated? : Constant → Option Constant
  | .int value => if value = Int32.minValue then none else some (.int (-value))
  | .long value => if value = Int64.minValue then none else some (.long (-value))
  | .float bits => some (.float (bits ^^^ 0x80000000))
  | .double bits => some (.double (bits ^^^ 0x8000000000000000))
  | .string _ | .classOf _ | .null => none

end Constant

/-- The arithmetic operations. -/
inductive ArithOp where
  | add
  | sub
  | mul
  | div
  | rem
  | shl
  | shr
  | ushr
  | and
  | or
  | xor
  deriving DecidableEq, Repr

namespace ArithOp

/-- Whether the operation shifts its first operand by its second. -/
def isShift : ArithOp → Bool
  | shl | shr | ushr => true
  | _ => false

/-- Whether the operation works on bits. -/
def isBitwise : ArithOp → Bool
  | and | or | xor | shl | shr | ushr => true
  | _ => false

/-- The name of the operation in messages. -/
def display : ArithOp → String
  | add => "Add"
  | sub => "Sub"
  | mul => "Mul"
  | div => "Div"
  | rem => "Rem"
  | shl => "Shl"
  | shr => "Shr"
  | ushr => "Ushr"
  | and => "And"
  | or => "Or"
  | xor => "Xor"

end ArithOp

/-- The conditions that branches test, in the order of their opcodes. -/
inductive Condition where
  | eq
  | ne
  | lt
  | ge
  | gt
  | le
  deriving DecidableEq, Repr

namespace Condition

/-- The condition that holds when this one does not. -/
def negate : Condition → Condition
  | eq => ne
  | ne => eq
  | lt => ge
  | ge => lt
  | gt => le
  | le => gt

/-- The place of the condition within a family of opcodes. -/
def opcodeOffset : Condition → UInt8
  | eq => 0
  | ne => 1
  | lt => 2
  | ge => 3
  | gt => 4
  | le => 5

/-- The name of the condition in messages. -/
def display : Condition → String
  | eq => "Eq"
  | ne => "Ne"
  | lt => "Lt"
  | ge => "Ge"
  | gt => "Gt"
  | le => "Le"

end Condition

/-- The ways to call a method. -/
inductive InvokeMode where
  | static
  | virtual
  | special
  | interface
  deriving DecidableEq, Repr

/-- The name of a way to call in messages. -/
def InvokeMode.display : InvokeMode → String
  | static => "Static"
  | virtual => "Virtual"
  | special => "Special"
  | interface => "Interface"

/-- What decides whether a branch is taken. -/
inductive BranchTest where
  | always
  /-- The top `int` compared with zero. -/
  | zero (condition : Condition)
  /-- The top two values compared with each other. -/
  | compare (kind : Kind) (condition : Condition)
  | null
  | nonNull
  deriving DecidableEq, Repr

/-- How a switch finds its target. -/
inductive SwitchForm where
  /-- A table over all keys from `low` to `high`. -/
  | table (low high : Int32)
  /-- A sorted list of the keys that have a case. -/
  | lookup
  deriving DecidableEq, Repr

/-- A jump decided by an `int` key. The cases stand in the order of their keys, each key
once. -/
structure Switch where
  fallback : Label
  cases : List (Int32 × Label)
  form : SwitchForm
  deriving DecidableEq

/-- The label for `key`. -/
def Switch.target (s : Switch) (key : Int32) : Label :=
  (s.cases.lookup key).getD s.fallback

/-- A field as instructions refer to it. -/
structure FieldRef where
  owner : Ty
  name : String
  type : Ty
  deriving DecidableEq

/-- A method as instructions refer to it. -/
structure MethodRef where
  owner : Ty
  name : String
  type : MethodType
  deriving DecidableEq

/-- An instruction. -/
inductive Instruction where
  | label (label : Label)
  | load (slot : UInt16) (kind : Kind)
  | store (slot : UInt16) (kind : Kind)
  | increment (slot : UInt16) (delta : Int16)
  | constant (c : Constant)
  | arith (op : ArithOp) (kind : Kind)
  | neg (kind : Kind)
  | convert (source target : Primitive)
  /-- A comparison with three outcomes; `nanGreater` tells which of them an unordered pair
  of floating point numbers has. -/
  | compare (kind : Kind) (nanGreater : Bool)
  | branch (test : BranchTest) (target : Label)
  | switch (s : Switch)
  | dup (slots : Nat)
  | pop (slots : Nat)
  | new (type : Ty)
  /-- An array with one dimension, of the given element type. -/
  | newArray (elem : Ty)
  /-- An array of the given type, `dims` of its dimensions allocated. -/
  | newArrays (type : Ty) (dims : UInt8)
  | arrayLength
  | arrayLoad (elem : Ty)
  | arrayStore (elem : Ty)
  | checkCast (type : Ty)
  | instanceOf (type : Ty)
  | getField (field : FieldRef) (isStatic : Bool)
  | putField (field : FieldRef) (isStatic : Bool)
  | invoke (method : MethodRef) (mode : InvokeMode)
  | ret (kind : Option Kind)
  | throw
  | monitorEnter
  | monitorExit
  | nop
  deriving DecidableEq

namespace Instruction

/-- The instruction that pushes an `int`. -/
def int (value : Int32) : Instruction :=
  .constant (.int value)

/-- The jump to `target`. -/
def goto (target : Label) : Instruction :=
  .branch .always target

/-- The branch to `target` when the top `int` compares with zero as told. -/
def ifZero (condition : Condition) (target : Label) : Instruction :=
  .branch (.zero condition) target

/-- Whether the instruction is a label. -/
def isLabel : Instruction → Bool
  | .label _ => true
  | _ => false

/-- The slot that the instruction reads or writes, with the number of slots of the value. -/
def localAccess? : Instruction → Option (UInt16 × Nat)
  | .load slot kind | .store slot kind => some (slot, kind.slots)
  | .increment slot _ => some (slot, 1)
  | _ => none

/-- The labels that the instruction may jump to. -/
def targets : Instruction → List Label
  | .branch _ target => [target]
  | .switch s => s.fallback :: s.cases.map (·.2)
  | _ => []

end Instruction

end ClassForge
