import ClassForge.Bytes

/-!
# Reading bytes

A reader takes a value off the front of a byte string and leaves the rest. What goes wrong is
told by a fault; the place of a fault is known by the number of bytes that were left there,
so that `ReadFault.position?` finds it from the length of the whole input.
-/

namespace ClassForge

/-- Why bytes could not be read. -/
inductive ReadFault where
  /-- The input ends too early. -/
  | endOfInput
  /-- The first four bytes are not those of a class file. -/
  | badMagic
  /-- A constant record is broken off or has an unknown tag; `left` counts the bytes from its
  tag on. -/
  | badRecord (left : Nat)
  /-- `left` bytes follow a body that should have ended the input. -/
  | trailing (left : Nat)
  deriving DecidableEq, Repr

/-- The offset of a fault in an input of `length` bytes, where one is known. -/
def ReadFault.position? (length : Nat) : ReadFault → Option Nat
  | .endOfInput => none
  | .badMagic => some 0
  | .badRecord left => some (length - left)
  | .trailing left => some (length - left)

/-- The message of a fault, where it has one. -/
def ReadFault.message? : ReadFault → Option String
  | .trailing left => some (toString left ++ " trailing bytes")
  | .endOfInput | .badMagic | .badRecord _ => none

/-- A reader of values of type `α`. -/
abbrev Reader (α : Type) := StateT (List UInt8) (Except ReadFault) α

namespace Reader

variable {α : Type}

/-- Reads one byte. -/
def u8 : Reader UInt8
  | [] => .error .endOfInput
  | a :: rest => .ok (a, rest)

/-- Reads a 16-bit number. -/
def u16 : Reader UInt16
  | a :: b :: rest => .ok (Bytes.toUInt16 a b, rest)
  | _ => .error .endOfInput

/-- Reads a 32-bit number. -/
def u32 : Reader UInt32
  | a :: b :: c :: d :: rest => .ok (Bytes.toUInt32 a b c d, rest)
  | _ => .error .endOfInput

/-- Reads a 64-bit number. -/
def u64 : Reader UInt64 := do
  let high ← u32
  let low ← u32
  return Bytes.toUInt64 high low

/-- Reads `n` bytes. -/
def bytes (n : Nat) : Reader (List UInt8) := fun input =>
  let (front, rest) := input.splitAt n
  if front.length = n then .ok (front, rest) else .error .endOfInput

/-- Reads `n` values after those of `done` in reverse. -/
def timesOnto (reader : Reader α) (done : List α) : (n : Nat) → Reader (List α)
  | 0 => return done.reverse
  | n + 1 => do
    let value ← reader
    timesOnto reader (value :: done) n

/-- Reads `n` values, one after the other. -/
def times (n : Nat) (reader : Reader α) : Reader (List α) :=
  timesOnto reader [] n

/-- Reads a value that has to be the whole input. -/
def whole (reader : Reader α) (input : List UInt8) : Except ReadFault α :=
  match reader input with
  | .error fault => .error fault
  | .ok (value, []) => .ok value
  | .ok (_, rest) => .error (.trailing rest.length)

end Reader

end ClassForge
