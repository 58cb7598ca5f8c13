import ClassForge.Method.Code
import ClassForge.Proofs.Execution
import ClassForge.Proofs.Machine.World

/-!
# The stack machine

The machine runs the code of a method on a stack of operands, on slots for locals, and on a
heap. What an instruction does depends on these alone and not on where the instruction
stands: it goes on, jumps to a label, returns, throws, or is stuck because something is not
of the kind that it should be. Only then is the place of the instruction taken into account,
for the next instruction and for the handlers that protect it.
-/

namespace ClassForge

namespace Machine

variable {H A : Type}

/-! ### Locals -/

/-- The contents of the slots for locals. A slot holds nothing when nothing was stored there
or when it is the second slot of a wide value. -/
def Frame (A : Type) : Type :=
  Nat → Option (Value A)

namespace Frame

/-- The value of the given kind in a slot. The second slot of a wide value must not have been
stored to since. -/
def load? (frame : Frame A) (slot : Nat) (kind : Kind) : Option (Value A) :=
  match frame slot with
  | some v => if v.kind = kind ∧ (kind.slots = 2 → frame (slot + 1) = none) then some v else none
  | none => none

/-- The slots with a value stored in one of them, and in the one after it if the value is
wide. -/
def store (frame : Frame A) (slot : Nat) (v : Value A) : Frame A := fun n =>
  if n = slot then some v
  else if n = slot + 1 ∧ v.slots = 2 then none
  else frame n

end Frame

/-- What is loaded from a slot has the kind that is asked for. -/
theorem kind_of_load? {frame : Frame A} {slot : Nat} {kind : Kind} {v : Value A}
    (h : frame.load? slot kind = some v) :
  v.kind = kind
  := by
  unfold Frame.load? at h
  split at h
  · split at h
    · next hkind =>
      obtain rfl := Option.some.inj h
      apply hkind.1
    · contradiction
  · contradiction

/-- What was stored in a slot last is loaded from it. -/
theorem load?_store (frame : Frame A) (slot : Nat) (v : Value A) :
  (frame.store slot v).load? slot v.kind = some v
  := by
  have hsecond : v.kind.slots = 2 → frame.store slot v (slot + 1) = none := by
    intro hwide
    rw [Frame.store, if_neg (by omega), if_pos ⟨rfl, hwide⟩]
  have hfirst : frame.store slot v slot = some v := if_pos rfl
  rw [Frame.load?, hfirst]
  apply if_pos ⟨rfl, hsecond⟩

/-- A value stored in a slot is overwritten by the next one of its size. -/
theorem store_store (frame : Frame A) (slot : Nat) {v v' : Value A} (h : v.slots = v'.slots) :
  (frame.store slot v).store slot v' = frame.store slot v'
  := by
  funext n
  simp only [Frame.store, h]
  split
  · rfl
  · split
    · rfl
    · rfl

/-! ### Operands -/

/-- The stack with its top `count` slots doubled. -/
def dup? (count : Nat) : List (Value A) → Option (List (Value A))
  | x :: stack =>
    if count = 2 then
      if x.slots = 2 then some (x :: x :: stack)
      else
        match stack with
        | y :: stack => if y.slots = 2 then none else some (x :: y :: x :: y :: stack)
        | [] => none
    else if x.slots = 2 then none else some (x :: x :: stack)
  | [] => none

/-- The stack without its top `count` slots. -/
def pop? (count : Nat) : List (Value A) → Option (List (Value A))
  | x :: stack =>
    if count = 2 then
      if x.slots = 2 then some stack
      else
        match stack with
        | y :: stack => if y.slots = 2 then none else some stack
        | [] => none
    else if x.slots = 2 then none else some stack
  | [] => none

theorem pop?_slots (v : Value A) (stack : List (Value A)) :
  pop? v.slots (v :: stack) = some stack
  := by
  by_cases h : v.slots = 2
  · simp [pop?, h]
  · simp [pop?, h]

theorem dup?_slots (v : Value A) (stack : List (Value A)) :
  dup? v.slots (v :: stack) = some (v :: v :: stack)
  := by
  by_cases h : v.slots = 2
  · simp [dup?, h]
  · simp [dup?, h]

/-- Whether a branch is taken, with the stack below the operands of its test. -/
def branch? [DecidableEq A] (w : World H A) : BranchTest → List (Value A) →
    Option (Bool × List (Value A))
  | .always, stack => some (true, stack)
  | .zero c, .int n :: stack => some (c.holds (some (compare n.toInt 0)), stack)
  | .compare kind c, y :: x :: stack =>
    if kind = .int ∨ kind = .reference then
      (Value.test? w.floating c kind x y).map fun taken => (taken, stack)
    else none
  | .null, .ref r :: stack => some (r.isNone, stack)
  | .nonNull, .ref r :: stack => some (r.isSome, stack)
  | _, _ => none

/-! ### Instructions -/

/-- What an instruction does. -/
inductive Action (H A : Type) where
  | next (stack : List (Value A)) (frame : Frame A) (heap : H)
  | jump (target : Label) (stack : List (Value A)) (frame : Frame A) (heap : H)
  | ret (value : Option (Value A)) (heap : H)
  | throws (thrown : A) (frame : Frame A) (heap : H)
  | stuck

namespace Action

/-- Goes on with the stack that the end of a computation gives. -/
def ofEnds {α : Type} (frame : Frame A) (stack : α → List (Value A)) : Ends H A α → Action H A
  | .done a heap => .next (stack a) frame heap
  | .throws thrown heap => .throws thrown frame heap
  | .stuck => .stuck

/-- Goes on with a stack if there is one. -/
def ofStack? (frame : Frame A) (heap : H) : Option (List (Value A)) → Action H A
  | some stack => .next stack frame heap
  | none => .stuck

end Action

namespace World

/-- An operation on the heap with its operands taken from the stack, the last one from the
top. -/
def operate (w : World H A) (op : HeapOp) (stack : List (Value A)) (frame : Frame A) (heap : H) :
    Action H A :=
  match op.signature? with
  | none => .stuck
  | some sig =>
    let count := sig.operands.length
    Action.ofEnds frame (fun v => v.toList ++ stack.drop count)
      (w.call op (stack.take count).reverse heap)

/-- What an instruction does to the stack, the locals and the heap. -/
def act [DecidableEq A] (w : World H A) (i : Instruction) (stack : List (Value A))
    (frame : Frame A) (heap : H) : Action H A :=
  match i with
  | .label _ | .nop => .next stack frame heap
  | .load slot kind =>
    Action.ofStack? frame heap ((frame.load? slot.toNat kind).map (· :: stack))
  | .store slot kind =>
    match stack with
    | v :: stack => if v.kind = kind then .next stack (frame.store slot.toNat v) heap else .stuck
    | [] => .stuck
  | .increment slot delta =>
    match frame.load? slot.toNat .int with
    | some (.int n) => .next stack (frame.store slot.toNat (.int (n + delta.toInt32))) heap
    | _ => .stuck
  | .constant c => .next (w.constant c :: stack) frame heap
  | .arith op kind =>
    match stack with
    | y :: x :: stack => Action.ofEnds frame (· :: stack) (w.arith op kind x y heap)
    | _ => .stuck
  | .neg kind =>
    match stack with
    | x :: stack => Action.ofStack? frame heap ((x.negate? kind).map (· :: stack))
    | [] => .stuck
  | .convert source target =>
    match stack with
    | x :: stack =>
      Action.ofStack? frame heap ((x.convert? w.floating source target).map (· :: stack))
    | [] => .stuck
  | .compare kind nanGreater =>
    match stack with
    | y :: x :: stack =>
      Action.ofStack? frame heap
        ((x.compare? w.floating kind y).map fun o =>
          .int (Value.ofComparison nanGreater o) :: stack)
    | _ => .stuck
  | .branch test target =>
    match branch? w test stack with
    | some (true, stack) => .jump target stack frame heap
    | some (false, stack) => .next stack frame heap
    | none => .stuck
  | .switch s =>
    match stack with
    | .int key :: stack => .jump (s.target key) stack frame heap
    | _ => .stuck
  | .dup slots => Action.ofStack? frame heap (dup? slots stack)
  | .pop slots => Action.ofStack? frame heap (pop? slots stack)
  | .new type => w.operate (.new type) stack frame heap
  | .newArray elem => w.operate (.newArray elem) stack frame heap
  | .newArrays type dims => w.operate (.newArrays type dims) stack frame heap
  | .arrayLength => w.operate .arrayLength stack frame heap
  | .arrayLoad elem => w.operate (.arrayLoad elem) stack frame heap
  | .arrayStore elem => w.operate (.arrayStore elem) stack frame heap
  | .checkCast type => w.operate (.checkCast type) stack frame heap
  | .instanceOf type => w.operate (.instanceOf type) stack frame heap
  | .getField field isStatic => w.operate (.getField field isStatic) stack frame heap
  | .putField field isStatic => w.operate (.putField field isStatic) stack frame heap
  | .invoke method mode => w.operate (.invoke method mode) stack frame heap
  | .monitorEnter => w.operate .monitorEnter stack frame heap
  | .monitorExit => w.operate .monitorExit stack frame heap
  | .ret none => .ret none heap
  | .ret (some kind) =>
    match stack with
    | v :: _ => if v.kind = kind then .ret (some v) heap else .stuck
    | [] => .stuck
  | .throw =>
    match stack with
    | .ref (some a) :: _ => .throws a frame heap
    | .ref none :: _ => .throws (w.nullThrown heap).1 frame (w.nullThrown heap).2
    | _ => .stuck

section

variable [DecidableEq A] (w : World H A) (stack : List (Value A)) (frame : Frame A) (heap : H)

@[simp]
theorem act_load (slot : UInt16) (kind : Kind) :
  w.act (.load slot kind) stack frame heap
    = Action.ofStack? frame heap ((frame.load? slot.toNat kind).map (· :: stack))
  := rfl

@[simp]
theorem act_store (slot : UInt16) (kind : Kind) (v : Value A) :
  w.act (.store slot kind) (v :: stack) frame heap
    = if v.kind = kind then .next stack (frame.store slot.toNat v) heap else .stuck
  := rfl

@[simp]
theorem act_increment (slot : UInt16) (delta : Int16) :
  w.act (.increment slot delta) stack frame heap
    = match frame.load? slot.toNat .int with
      | some (.int n) => .next stack (frame.store slot.toNat (.int (n + delta.toInt32))) heap
      | _ => .stuck
  := rfl

@[simp]
theorem act_constant (c : Constant) :
  w.act (.constant c) stack frame heap = .next (w.constant c :: stack) frame heap
  := rfl

@[simp]
theorem act_arith (op : ArithOp) (kind : Kind) (x y : Value A) :
  w.act (.arith op kind) (y :: x :: stack) frame heap
    = Action.ofEnds frame (· :: stack) (w.arith op kind x y heap)
  := rfl

@[simp]
theorem act_arith_singleton (op : ArithOp) (kind : Kind) (x : Value A) :
  w.act (.arith op kind) [x] frame heap = .stuck
  := rfl

@[simp]
theorem act_neg (kind : Kind) (x : Value A) :
  w.act (.neg kind) (x :: stack) frame heap
    = Action.ofStack? frame heap ((x.negate? kind).map (· :: stack))
  := rfl

@[simp]
theorem act_convert (source target : Primitive) (x : Value A) :
  w.act (.convert source target) (x :: stack) frame heap
    = Action.ofStack? frame heap ((x.convert? w.floating source target).map (· :: stack))
  := rfl

@[simp]
theorem act_compare (kind : Kind) (nanGreater : Bool) (x y : Value A) :
  w.act (.compare kind nanGreater) (y :: x :: stack) frame heap
    = Action.ofStack? frame heap
      ((x.compare? w.floating kind y).map fun o =>
        .int (Value.ofComparison nanGreater o) :: stack)
  := rfl

@[simp]
theorem act_branch (test : BranchTest) (target : Label) :
  w.act (.branch test target) stack frame heap
    = match branch? w test stack with
      | some (true, stack) => .jump target stack frame heap
      | some (false, stack) => .next stack frame heap
      | none => .stuck
  := rfl

@[simp]
theorem act_switch (s : Switch) (key : Int32) :
  w.act (.switch s) (.int key :: stack) frame heap = .jump (s.target key) stack frame heap
  := rfl

@[simp]
theorem act_dup (slots : Nat) :
  w.act (.dup slots) stack frame heap = Action.ofStack? frame heap (dup? slots stack)
  := rfl

@[simp]
theorem act_pop (slots : Nat) :
  w.act (.pop slots) stack frame heap = Action.ofStack? frame heap (pop? slots stack)
  := rfl

@[simp]
theorem act_getField (field : FieldRef) (isStatic : Bool) :
  w.act (.getField field isStatic) stack frame heap
    = w.operate (.getField field isStatic) stack frame heap
  := rfl

@[simp]
theorem act_ret_none :
  w.act (.ret none) stack frame heap = .ret none heap
  := rfl

@[simp]
theorem act_ret (kind : Kind) (v : Value A) :
  w.act (.ret (some kind)) (v :: stack) frame heap
    = if v.kind = kind then .ret (some v) heap else .stuck
  := rfl

@[simp]
theorem act_ret_nil (kind : Kind) :
  w.act (.ret (some kind)) [] frame heap = .stuck
  := rfl

end

end World

/-! ### Code -/

/-- The state of a run. -/
structure State (H A : Type) where
  /-- The place of the next instruction. -/
  place : Nat
  stack : List (Value A)
  frame : Frame A
  heap : H

/-- How a run ends. -/
inductive Outcome (H A : Type) where
  | returned (value : Option (Value A)) (heap : H)
  /-- Something was thrown that no handler catches. -/
  | thrown (thrown : A) (heap : H)
  /-- The run went past the last instruction or to a label that stands nowhere. -/
  | escaped (heap : H)
  | stuck

/-- The first place of a label. -/
def placeOf? (instructions : List Instruction) (l : Label) : Option Nat :=
  instructions.findIdx? (· = .label l)

/-- Whether the handler protects a place. -/
def covers (place : Nat) (h : Handler) : Bool :=
  h.start ≤ place && place < h.stop

/-- Whether the handler catches an object. -/
def World.caughtBy (w : World H A) (heap : H) (thrown : A) (h : Handler) : Bool :=
  h.catchType.all (w.catches heap thrown)

/-- The run at a label. -/
def enter (instructions : List Instruction) (l : Label) (stack : List (Value A))
    (frame : Frame A) (heap : H) : State H A ⊕ Outcome H A :=
  match placeOf? instructions l with
  | some place => .inl ⟨place, stack, frame, heap⟩
  | none => .inr (.escaped heap)

/-- The first handler that protects a place and catches what was thrown there. -/
def World.catcher? (w : World H A) (handlers : List Handler) (place : Nat) (thrown : A)
    (heap : H) : Option Handler :=
  handlers.find? fun h => covers place h && w.caughtBy heap thrown h

/-- The run after something was thrown at a place. -/
def dispatch (w : World H A) (code : MethodCode) (place : Nat) (thrown : A) (frame : Frame A)
    (heap : H) : State H A ⊕ Outcome H A :=
  match w.catcher? code.handlers place thrown heap with
  | some h => enter code.instructions h.target [.ref (some thrown)] frame heap
  | none => .inr (.thrown thrown heap)

/-- The run after what was done at a place, with `next` as the place to go on. -/
def settle (w : World H A) (code : MethodCode) (place next : Nat) :
    Action H A → State H A ⊕ Outcome H A
  | .next stack frame heap => .inl ⟨next, stack, frame, heap⟩
  | .jump target stack frame heap => enter code.instructions target stack frame heap
  | .ret value heap => .inr (.returned value heap)
  | .throws thrown frame heap => dispatch w code place thrown frame heap
  | .stuck => .inr .stuck

/-- One step of a run. -/
def step [DecidableEq A] (w : World H A) (code : MethodCode) (s : State H A) :
    State H A ⊕ Outcome H A :=
  match code.instructions[s.place]? with
  | some i => settle w code s.place (s.place + 1) (w.act i s.stack s.frame s.heap)
  | none => .inr (.escaped s.heap)

/-- The state at the start of a method. -/
def State.entry (frame : Frame A) (heap : H) : State H A :=
  ⟨0, [], frame, heap⟩

/-- The run of some code from the given locals and heap ends with the outcome. -/
def RunsTo [DecidableEq A] (w : World H A) (code : MethodCode) (frame : Frame A) (heap : H)
    (o : Outcome H A) : Prop :=
  Execution.Halts (step w code) (.entry frame heap) o

end Machine

end ClassForge
