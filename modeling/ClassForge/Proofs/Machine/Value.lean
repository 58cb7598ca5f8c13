import ClassForge.Instruction.Checked
import ClassForge.Instruction.ConstantForm
import Mathlib.Tactic.Common

/-!
# Values of the stack machine

The machine computes with 32-bit and 64-bit integers that wrap around, with floating point
numbers given by their bits, and with references to objects, of which one is null. What
floating point arithmetic gives is left open, except that negation turns the sign around.
-/

namespace ClassForge

/-- The kind of the values of a type that has values. -/
def Ty.kind? (t : Ty) : Option Kind :=
  match Kind.of t with
  | .ok kind => some kind
  | .error _ => none

/-- A value takes the slots of its kind. -/
theorem Ty.slots_of_kind? {t : Ty} {kind : Kind} (h : t.kind? = some kind) :
  t.slots = kind.slots
  := by
  cases t with
  | primitive p =>
      cases p with
      | void => contradiction
      | _ =>
          obtain rfl := Option.some.inj h
          rfl
  | function params result => contradiction
  | _ =>
      obtain rfl := Option.some.inj h
      rfl

theorem Ty.kind?_eq_some {t : Ty} {kind : Kind} :
  t.kind? = some kind ↔ Kind.of t = .ok kind
  := by
  unfold Ty.kind?
  cases Kind.of t <;> simp

theorem Kind.slots_of {type : Ty} {kind : Kind} (h : Kind.of type = .ok kind) :
  kind.slots = type.slots
  := (Ty.slots_of_kind? (Ty.kind?_eq_some.mpr h)).symm

/-- How two numbers compare: `none` where they are unordered. -/
abbrev Comparison := Option Ordering

namespace Condition

/-- Whether the condition holds of numbers that compare as given. Of unordered numbers only
the inequality holds. -/
def holds : Condition → Comparison → Bool
  | ne, none => true
  | _, none => false
  | eq, some o => o = .eq
  | ne, some o => o ≠ .eq
  | lt, some o => o = .lt
  | ge, some o => o ≠ .lt
  | gt, some o => o = .gt
  | le, some o => o ≠ .gt

theorem holds_negate (c : Condition) (o : Ordering) :
  c.negate.holds (some o) = !c.holds (some o)
  := by
  cases c <;> cases o <;> rfl

end Condition

namespace Machine

/-- A value, with addresses of type `A`. -/
inductive Value (A : Type) where
  | int (n : Int32)
  | long (n : Int64)
  | float (bits : UInt32)
  | double (bits : UInt64)
  /-- A reference; `none` is null. -/
  | ref (r : Option A)
  deriving DecidableEq

/-- What floating point arithmetic gives, on the bits of numbers. -/
structure Floating where
  arith32 : ArithOp → UInt32 → UInt32 → UInt32
  arith64 : ArithOp → UInt64 → UInt64 → UInt64
  compare32 : UInt32 → UInt32 → Comparison
  compare64 : UInt64 → UInt64 → Comparison
  /-- The numbers nearest to an integer. -/
  round32 : Int → UInt32
  round64 : Int → UInt64
  /-- The integers that a number is cut off to. -/
  toInt32 : UInt32 → Int32
  toInt64 : UInt32 → Int64
  wideToInt32 : UInt64 → Int32
  wideToInt64 : UInt64 → Int64
  widen : UInt32 → UInt64
  narrow : UInt64 → UInt32

/-- Whether the operation has no result for zero as its second operand. -/
def divides : ArithOp → Bool
  | .div | .rem => true
  | _ => false

/-- Arithmetic on `int`. -/
def intArith : ArithOp → Int32 → Int32 → Int32
  | .add, x, y => x + y
  | .sub, x, y => x - y
  | .mul, x, y => x * y
  | .div, x, y => x / y
  | .rem, x, y => x % y
  | .shl, x, y => x <<< (y &&& 31)
  | .shr, x, y => x >>> (y &&& 31)
  | .ushr, x, y => (x.toUInt32 >>> (y &&& 31).toUInt32).toInt32
  | .and, x, y => x &&& y
  | .or, x, y => x ||| y
  | .xor, x, y => x ^^^ y

/-- Arithmetic on `long`. -/
def longArith : ArithOp → Int64 → Int64 → Int64
  | .add, x, y => x + y
  | .sub, x, y => x - y
  | .mul, x, y => x * y
  | .div, x, y => x / y
  | .rem, x, y => x % y
  | .shl, x, y => x <<< (y &&& 63)
  | .shr, x, y => x >>> (y &&& 63)
  | .ushr, x, y => (x.toUInt64 >>> (y &&& 63).toUInt64).toInt64
  | .and, x, y => x &&& y
  | .or, x, y => x ||| y
  | .xor, x, y => x ^^^ y

namespace Value

variable {A : Type}

/-- The kind of a value. -/
def kind : Value A → Kind
  | .int _ => .int
  | .long _ => .long
  | .float _ => .float
  | .double _ => .double
  | .ref _ => .reference

/-- The number of slots a value takes. -/
def slots (v : Value A) : Nat :=
  v.kind.slots

/-- The truth value as the machine holds it. -/
def ofBool (b : Bool) : Value A :=
  .int (if b then 1 else 0)

/-- The value with the opposite sign, if it is a number of the given kind. -/
def negate? : Kind → Value A → Option (Value A)
  | .int, .int n => some (.int (-n))
  | .long, .long n => some (.long (-n))
  | .float, .float bits => some (.float (bits ^^^ 0x80000000))
  | .double, .double bits => some (.double (bits ^^^ 0x8000000000000000))
  | _, _ => none

/-- How two values of a kind of numbers compare. -/
def compare? (floating : Floating) : Kind → Value A → Value A → Option Comparison
  | .int, .int x, .int y => some (some (compare x.toInt y.toInt))
  | .long, .long x, .long y => some (some (compare x.toInt y.toInt))
  | .float, .float x, .float y => some (floating.compare32 x y)
  | .double, .double x, .double y => some (floating.compare64 x y)
  | _, _, _ => none

/-- The outcome of a comparison as a number; `nanGreater` tells which one an unordered pair
has. -/
def ofComparison (nanGreater : Bool) : Comparison → Int32
  | some .lt => -1
  | some .eq => 0
  | some .gt => 1
  | none => if nanGreater then 1 else -1

/-- Whether two values compare as the condition says. References are the same or not and have
no order. -/
def test? [DecidableEq A] (floating : Floating) (c : Condition) (kind : Kind) (x y : Value A) :
    Option Bool :=
  match kind, x, y with
  | .reference, .ref r, .ref r' =>
    match c with
    | .eq => some (r = r')
    | .ne => some (r ≠ r')
    | _ => none
  | kind, x, y => (compare? floating kind x y).map c.holds

/-! ### Conversions -/

/-- The integer brought to the size of a type smaller than `int`. -/
def shrink : Primitive → Int32 → Int32
  | .byte, n => n.toInt8.toInt32
  | .short, n => n.toInt16.toInt32
  | .char, n => n.toUInt32.toUInt16.toUInt32.toInt32
  | _, n => n

/-- The number as a number of another kind. -/
def toKind? (floating : Floating) : Kind → Kind → Value A → Option (Value A)
  | .int, .int, .int n => some (.int n)
  | .int, .long, .int n => some (.long n.toInt64)
  | .int, .float, .int n => some (.float (floating.round32 n.toInt))
  | .int, .double, .int n => some (.double (floating.round64 n.toInt))
  | .long, .int, .long n => some (.int n.toInt32)
  | .long, .long, .long n => some (.long n)
  | .long, .float, .long n => some (.float (floating.round32 n.toInt))
  | .long, .double, .long n => some (.double (floating.round64 n.toInt))
  | .float, .int, .float bits => some (.int (floating.toInt32 bits))
  | .float, .long, .float bits => some (.long (floating.toInt64 bits))
  | .float, .float, .float bits => some (.float bits)
  | .float, .double, .float bits => some (.double (floating.widen bits))
  | .double, .int, .double bits => some (.int (floating.wideToInt32 bits))
  | .double, .long, .double bits => some (.long (floating.wideToInt64 bits))
  | .double, .float, .double bits => some (.float (floating.narrow bits))
  | .double, .double, .double bits => some (.double bits)
  | _, _, _ => none

/-- Whether every value of the first type is one of the second. -/
def includes (source target : Primitive) : Bool :=
  source = target || (source = .byte && target = .short)

/-- The value converted between primitive types. -/
def convert? (floating : Floating) (source target : Primitive) (v : Value A) :
    Option (Value A) :=
  match toKind? floating source.kind target.kind v with
  | some (.int n) => some (.int (if includes source target then n else shrink target n))
  | converted => converted

/-! ### Kinds of results -/

/-- A value of the kind is an integer. -/
theorem eq_int_of_kind {v : Value A} (h : v.kind = .int) :
  ∃ n, v = .int n
  := by
  cases v with
  | int n => use n
  | long n => contradiction
  | float bits => contradiction
  | double bits => contradiction
  | ref r => contradiction

theorem kind_of_negate? {kind : Kind} {v v' : Value A} (h : negate? kind v = some v') :
  v'.kind = kind
  := by
  cases kind <;> cases v <;> simp only [negate?, Option.some.injEq, reduceCtorEq] at h
  all_goals
    subst h
    rfl

theorem kind_of_toKind? {floating : Floating} {source target : Kind} {v v' : Value A}
    (h : toKind? floating source target v = some v') :
  v'.kind = target
  := by
  cases source <;> cases target <;> cases v <;>
    simp only [toKind?, Option.some.injEq, reduceCtorEq] at h
  all_goals
    subst h
    rfl

/-- What is converted has the kind of the type that it is converted to. -/
theorem kind_of_convert? {floating : Floating} {source target : Primitive} {v v' : Value A}
    (h : convert? floating source target v = some v') :
  v'.kind = target.kind
  := by
  unfold convert? at h
  split at h
  · next n hn =>
    obtain rfl := Option.some.inj h
    apply kind_of_toKind? hn
  · apply kind_of_toKind? h

end Value

end Machine

end ClassForge
