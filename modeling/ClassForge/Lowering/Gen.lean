import ClassForge.Error

/-!
# Generators

A generator emits instructions and gives a value. It is told at which place its first
instruction will stand and how many labels have been made up before, and it gives the code
that it emits and the number of labels afterwards. One generator after another emits the code
of the first, then the code of the second.
-/

namespace ClassForge

/-- What a generator gives. -/
structure Emitted (α : Type) where
  value : α
  code : List Instruction
  /-- The number of labels made up so far. -/
  labels : Nat

/-- A generator of values of type `α`. -/
def Gen (α : Type) : Type :=
  (index labels : Nat) → Except CompileError (Emitted α)

namespace Gen

variable {α β : Type}

/-- The generator that emits nothing. -/
def pure (a : α) : Gen α := fun _ labels =>
  .ok ⟨a, [], labels⟩

/-- One generator after another. -/
def bind (x : Gen α) (f : α → Gen β) : Gen β := fun index labels =>
  match x index labels with
  | .error e => .error e
  | .ok a =>
    match f a.value (index + a.code.length) a.labels with
    | .error e => .error e
    | .ok b => .ok ⟨b.value, a.code ++ b.code, b.labels⟩

instance : Monad Gen where
  pure := pure
  bind := bind

/-- Emits an instruction. -/
def emit (i : Instruction) : Gen Unit := fun _ labels =>
  .ok ⟨(), [i], labels⟩

/-- A value that may not exist for the operands at this place. -/
def check (x : Except InstructionError α) : Gen α := fun index labels =>
  match x with
  | .error e => .error (.instruction index e)
  | .ok a => .ok ⟨a, [], labels⟩

/-- Emits an instruction that may not exist for its operands. -/
def emitChecked (x : Except InstructionError Instruction) : Gen Unit := do
  emit (← check x)

/-- Gives up on something that is not supported. -/
def fail (reason : Unsupported) : Gen α := fun _ _ =>
  .error (.unsupported reason)

/-- Goes on with the value if there is one. -/
def require (x : Except Unsupported α) : Gen α :=
  match x with
  | .error reason => fail reason
  | .ok a => pure a

/-- The character that starts the names of made-up labels, which no statement may use. -/
def reservedMark : Char := '#'

/-- Makes up a label. -/
def fresh : Gen Label := fun _ labels =>
  .ok ⟨⟨reservedMark.toString ++ toString labels⟩, [], labels + 1⟩

/-- One generator for each element of a list, after the code of `done` in reverse. -/
def forEachOnto (f : α → Gen Unit) (done : List (List Instruction)) : List α → Gen Unit
  | [], _, labels => .ok ⟨(), done.reverse.flatten, labels⟩
  | a :: as, index, labels =>
    match f a index labels with
    | .error e => .error e
    | .ok out => forEachOnto f (out.code :: done) as (index + out.code.length) out.labels

/-- One generator for each element of a list, in order. -/
def forEach (f : α → Gen Unit) (as : List α) : Gen Unit :=
  forEachOnto f [] as

end Gen

end ClassForge
