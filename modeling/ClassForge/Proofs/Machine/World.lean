import ClassForge.Proofs.Machine.Value

/-!
# The heap and what is done to it

What the machine does not compute by itself is done to a heap: access to fields and arrays,
calls, allocation, casts and monitors. A world tells what these operations give and how they
change the heap; nothing is assumed about it. An operation may throw. It is stuck when its
operands or its result are not of the kinds that the operation has.
-/

namespace ClassForge

namespace Machine

/-- An operation on the heap. -/
inductive HeapOp where
  | getField (field : FieldRef) (isStatic : Bool)
  | putField (field : FieldRef) (isStatic : Bool)
  | arrayLength
  | arrayLoad (elem : Ty)
  | arrayStore (elem : Ty)
  | new (type : Ty)
  | newArray (elem : Ty)
  | newArrays (type : Ty) (dims : UInt8)
  | checkCast (type : Ty)
  | instanceOf (type : Ty)
  | invoke (method : MethodRef) (mode : InvokeMode)
  | monitorEnter
  | monitorExit

/-- The kinds of operands that operations take and of the result that they give, if any. -/
structure Signature where
  operands : List Kind
  result : Option Kind
  deriving DecidableEq

/-- The object that an operation on a member works on, unless the member is static. -/
def receiverKinds (isStatic : Bool) : List Kind :=
  if isStatic then [] else [.reference]

/-- The kind of the result of a method; `void` gives none. -/
def resultKind? (t : Ty) : Option (Option Kind) :=
  if t.isVoid then some none else t.kind?.map some

/-- The signature of an operation; operations on types without values have none. -/
def HeapOp.signature? : HeapOp → Option Signature
  | .getField field isStatic =>
    field.type.kind?.map fun kind => ⟨receiverKinds isStatic, some kind⟩
  | .putField field isStatic =>
    field.type.kind?.map fun kind => ⟨receiverKinds isStatic ++ [kind], none⟩
  | .arrayLength => some ⟨[.reference], some .int⟩
  | .arrayLoad elem => elem.kind?.map fun kind => ⟨[.reference, .int], some kind⟩
  | .arrayStore elem => elem.kind?.map fun kind => ⟨[.reference, .int, kind], none⟩
  | .new _ => some ⟨[], some .reference⟩
  | .newArray _ => some ⟨[.int], some .reference⟩
  | .newArrays _ dims => some ⟨List.replicate dims.toNat .int, some .reference⟩
  | .checkCast _ => some ⟨[.reference], some .reference⟩
  | .instanceOf _ => some ⟨[.reference], some .int⟩
  | .invoke method mode => do
    let params ← method.type.params.mapM Ty.kind?
    let result ← resultKind? method.type.result
    return ⟨receiverKinds (mode = .static) ++ params, result⟩
  | .monitorEnter | .monitorExit => some ⟨[.reference], none⟩

/-- What comes of an operation on the heap. -/
inductive Reply (H A : Type) where
  | done (result : Option (Value A)) (heap : H)
  | throws (thrown : A) (heap : H)

/-- What operations on heaps of type `H` with addresses of type `A` do. -/
structure World (H A : Type) where
  floating : Floating
  perform : HeapOp → List (Value A) → H → Reply H A
  /-- The object of a string literal. -/
  text : String → A
  /-- The object of a class literal. -/
  classObject : Ty → A
  /-- What is thrown in place of null. -/
  nullThrown : H → A × H
  /-- What is thrown by a division by zero. -/
  zeroDivisor : H → A × H
  /-- Whether an object is caught by a handler for the type. -/
  catches : H → A → Ty → Bool

/-! ### Computations -/

/-- How a computation on the heap ends. -/
inductive Ends (H A α : Type) where
  | done (value : α) (heap : H)
  | throws (thrown : A) (heap : H)
  /-- Something is not of the kind that it should be. -/
  | stuck

/-- A computation on the heap. -/
def Comp (H A α : Type) : Type :=
  H → Ends H A α

namespace Comp

variable {H A α β γ : Type}

/-- Gives a value and leaves the heap as it is. -/
def pure (a : α) : Comp H A α := fun heap =>
  .done a heap

/-- One computation after another. -/
def bind (x : Comp H A α) (f : α → Comp H A β) : Comp H A β := fun heap =>
  match x heap with
  | .done a heap' => f a heap'
  | .throws thrown heap' => .throws thrown heap'
  | .stuck => .stuck

instance : Monad (Comp H A) where
  pure := pure
  bind := bind

/-- The computation that is stuck. -/
def stuck : Comp H A α := fun _ =>
  .stuck

/-- Throws an object that is made on the heap. -/
def throw (make : H → A × H) : Comp H A α := fun heap =>
  .throws (make heap).1 (make heap).2

/-- The value if there is one; stuck otherwise. -/
def require (x : Option α) : Comp H A α :=
  match x with
  | some a => pure a
  | none => stuck

theorem bind_eq (x : Comp H A α) (f : α → Comp H A β) :
  (x >>= f) = bind x f
  := rfl

theorem pure_eq (a : α) :
  (Pure.pure a : Comp H A α) = pure a
  := rfl

@[simp]
theorem bind_pure (a : α) (f : α → Comp H A β) :
  bind (pure a) f = f a
  := rfl

/-- Three computations in a row may be put together either way. -/
theorem bind_assoc (x : Comp H A α) (f : α → Comp H A β) (g : β → Comp H A γ) :
  bind (bind x f) g = bind x fun a => bind (f a) g
  := by
  funext heap
  unfold bind
  cases x heap with
  | done a heap' => rfl
  | throws thrown heap' => rfl
  | stuck => rfl

/-- Whatever the computation gives satisfies `P`. -/
structure Gives (x : Comp H A α) (P : α → Prop) : Prop where
  of_done : ∀ {heap : H} {a : α} {heap' : H}, x heap = .done a heap' → P a

theorem Gives.pure {P : α → Prop} {a : α} (h : P a) :
  Gives (Pure.pure a : Comp H A α) P
  := by
  constructor
  intro heap a' heap' heq
  obtain ⟨rfl, -⟩ := Ends.done.inj heq
  apply h

theorem Gives.stuck {P : α → Prop} :
  Gives (stuck : Comp H A α) P
  := by
  constructor
  intro heap a heap' heq
  contradiction

/-- What is given in the end is given after what comes first. -/
theorem Gives.bind {P : α → Prop} {Q : β → Prop} {x : Comp H A α} {f : α → Comp H A β}
    (hx : Gives x P) (hf : ∀ a, P a → Gives (f a) Q) :
  Gives (x >>= f) Q
  := by
  constructor
  intro heap b heap' heq
  rw [bind_eq, Comp.bind] at heq
  cases hrun : x heap with
  | done a heap'' =>
      rw [hrun] at heq
      apply (hf a (hx.of_done hrun)).of_done heq
  | throws thrown heap'' =>
      rw [hrun] at heq
      contradiction
  | stuck =>
      rw [hrun] at heq
      contradiction

theorem Gives.require {P : α → Prop} {x : Option α} (h : ∀ a, x = some a → P a) :
  Gives (require x : Comp H A α) P
  := by
  cases x with
  | none => apply Gives.stuck
  | some a =>
      apply Gives.pure
      apply h a rfl

/-- What was done before does not matter if the rest satisfies `Q` in any case. -/
theorem Gives.after {Q : β → Prop} {x : Comp H A α} {f : α → Comp H A β}
    (hf : ∀ a, Gives (f a) Q) :
  Gives (x >>= f) Q
  := by
  have hx : Gives x fun _ => True := ⟨fun _ => True.intro⟩
  apply hx.bind
  intro a _
  apply hf

end Comp

namespace World

variable {H A : Type}

/-- An operation on operands of its kinds. -/
def call (w : World H A) (op : HeapOp) (args : List (Value A)) : Comp H A (Option (Value A)) :=
  fun heap =>
  match op.signature? with
  | none => .stuck
  | some sig =>
    if args.map Value.kind = sig.operands then
      match w.perform op args heap with
      | .done v heap' => if v.map Value.kind = sig.result then .done v heap' else .stuck
      | .throws thrown heap' => .throws thrown heap'
    else .stuck

/-- Arithmetic on values of a kind. A shift takes its second operand from the `int` values. -/
def arith (w : World H A) (op : ArithOp) (kind : Kind) (x y : Value A) : Comp H A (Value A) :=
  match kind, x, y with
  | .int, .int x, .int y =>
    if divides op && y = 0 then Comp.throw w.zeroDivisor else Comp.pure (.int (intArith op x y))
  | .long, .long x, .int y =>
    if op.isShift then Comp.pure (.long (longArith op x y.toInt64)) else Comp.stuck
  | .long, .long x, .long y =>
    if op.isShift then Comp.stuck
    else if divides op && y = 0 then Comp.throw w.zeroDivisor
    else Comp.pure (.long (longArith op x y))
  | .float, .float x, .float y =>
    if op.isBitwise then Comp.stuck else Comp.pure (.float (w.floating.arith32 op x y))
  | .double, .double x, .double y =>
    if op.isBitwise then Comp.stuck else Comp.pure (.double (w.floating.arith64 op x y))
  | _, _, _ => Comp.stuck

/-- The value of a literal. -/
def constant (w : World H A) : Constant → Value A
  | .int n => .int n
  | .long n => .long n
  | .float bits => .float bits
  | .double bits => .double bits
  | .string text => .ref (some (w.text text))
  | .classOf type => .ref (some (w.classObject type))
  | .null => .ref none

@[simp]
theorem kind_constant (w : World H A) (c : Constant) :
  (w.constant c).kind = c.kind
  := by
  cases c <;> rfl

/-- What an operation on the heap gives has the kind that its signature tells. -/
theorem gives_call (w : World H A) {op : HeapOp} {sig : Signature}
    (h : op.signature? = some sig) (args : List (Value A)) :
  Comp.Gives (w.call op args) fun v => v.map Value.kind = sig.result
  := by
  constructor
  intro heap v heap' heq
  simp only [call, h] at heq
  split at heq
  · split at heq
    · split at heq
      · next hkind =>
        obtain ⟨rfl, -⟩ := Ends.done.inj heq
        apply hkind
      · contradiction
    · contradiction
  · contradiction

/-- What an operation on numbers gives has their kind. -/
theorem gives_arith (w : World H A) (op : ArithOp) (kind : Kind) (x y : Value A) :
  Comp.Gives (w.arith op kind x y) fun v => v.kind = kind
  := by
  constructor
  intro heap v heap' heq
  unfold arith at heq
  repeat' split at heq
  all_goals first
    | obtain ⟨rfl, -⟩ := Ends.done.inj heq
      rfl
    | contradiction

end World

/-- A world in which every operation gives the same number and changes nothing. -/
def constantWorld : World Unit Nat where
  floating := ⟨fun _ x _ => x, fun _ x _ => x, fun _ _ => none, fun _ _ => none, fun _ => 0,
    fun _ => 0, fun _ => 0, fun _ => 0, fun _ => 0, fun _ => 0, fun _ => 0, fun _ => 0⟩
  perform := fun _ _ heap => .done (some (.int 20)) heap
  text := fun _ => 0
  classObject := fun _ => 1
  nullThrown := fun heap => (2, heap)
  zeroDivisor := fun heap => (3, heap)
  catches := fun _ _ _ => true

end Machine

end ClassForge
