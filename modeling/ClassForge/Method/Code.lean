import ClassForge.Instruction.Effect

/-!
# The code of a method

A method's code is a list of instructions with the ranges of it that handlers protect, and
the slots that the receiver and the parameters take. From it the numbers of locals and of
stack slots are found that the method declares.
-/

namespace ClassForge

/-- A range of instructions, `stop` excluded, whose exceptions are caught at `target`. -/
structure Handler where
  start : Nat
  stop : Nat
  target : Label
  /-- The caught type; `none` catches everything. -/
  catchType : Option Ty
  deriving DecidableEq

/-- The code of a method. -/
structure MethodCode where
  instructions : List Instruction
  handlers : List Handler
  /-- The slots of the receiver and the parameters, as 16 bits count them. -/
  minLocals : Nat
  deriving DecidableEq

namespace MethodCode

/-- Code for a method with the given parameters. -/
def ofParams (instructions : List Instruction) (handlers : List Handler) (isStatic : Bool)
    (params : List Ty) : MethodCode :=
  ⟨instructions, handlers, ((if isStatic then 0 else 1) + slotsOf params) % 65536⟩

/-- The number of locals: what the parameters take, or one more than the highest slot in
use, at most 65535. -/
def maxLocals (code : MethodCode) : Nat :=
  (code.instructions.filterMap Instruction.localAccess?).foldl
    (fun most (slot, slots) => max most (min 65535 (slot.toNat + slots))) code.minLocals

/-- Whether a handler starts at the instruction. -/
def entersHandler (code : MethodCode) : Instruction → Bool
  | .label l => code.handlers.any (·.target = l)
  | _ => false

/-- A depth of the stack with the greatest one so far. -/
structure Depth where
  current : Int
  greatest : Int

/-- The depth after one more instruction. A handler starts with the thrown value on the
stack, and the depth never falls below zero. -/
def Depth.step (code : MethodCode) (depth : Depth) (i : Instruction) : Depth :=
  let current := depth.current + (if code.entersHandler i then 1 else 0) + i.stackDiff
  ⟨max 0 current, max depth.greatest current⟩

/-- The number of stack slots: the greatest depth in reading the instructions from first to
last, at most 65535. -/
def maxStack (code : MethodCode) : Nat :=
  min 65535 (code.instructions.foldl (Depth.step code) ⟨0, 0⟩).greatest.toNat

end MethodCode

end ClassForge
