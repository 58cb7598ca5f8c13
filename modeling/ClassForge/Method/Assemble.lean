import ClassForge.Error
import ClassForge.Event
import ClassForge.Instruction.Encode
import ClassForge.Method.Code
import ClassForge.Record.Attribute

/-!
# Assembly

Code is laid out first: every instruction gets an offset, where branches count with their near
size. Then every instruction is encoded at its offset. An instruction that comes out with
another size than was laid out for it is an error, so that the offsets hold for the finished
bytes. Offsets and sizes are numbers of 32 bits, which wrap around. The ranges of handlers become
ranges of bytes; a range without bytes is left out.
-/

namespace ClassForge

/-- Offsets of instructions and of labels. -/
structure Layout where
  /-- The number of instructions that have an offset. -/
  count : Nat := 0
  /-- The offsets of these instructions, the last one first. -/
  offsets : List Nat := []
  /-- The offset after the last one. -/
  size : Nat := 0
  labels : LabelTable := .empty

namespace Layout

/-- An error at the instruction `index`, which lies at `offset`. -/
def atInstruction {α : Type} (index offset : Nat) (x : Except EncodeError α) :
    Except CompileError α :=
  x.mapError (.encode index offset)

/-- The labels after an instruction at `offset`. -/
def bindLabel (labels : LabelTable) (offset : Nat) : Instruction → Except EncodeError LabelTable
  | .label l =>
    match LabelTable.bind l offset labels with
    | .ok _ bound => .ok bound
    | .error e _ => .error e
  | _ => .ok labels

/-- The layout with one more instruction. -/
def add (pool : FrozenPool) : Layout → Instruction → Except CompileError Layout
  | ⟨count, offsets, offset, labels⟩, i => atInstruction count offset do
    let labels ← bindLabel labels offset i
    let size ← i.size pool offset
    let stop := wrap32 (offset + size)
    if 65535 < stop then .error (.codeTooLong stop)
    else return ⟨count + 1, offset :: offsets, stop, labels⟩

/-- The layout of some code. -/
def of (pool : FrozenPool) (code : List Instruction) : Except CompileError Layout :=
  code.foldlM (add pool) {}

/-- The offsets of the instructions in order, then the offset after the last one. -/
def boundaries (layout : Layout) : List Nat :=
  (layout.size :: layout.offsets).reverse

end Layout

/-- The error of an instruction that has another size than was laid out for it. -/
def sizeError (estimate actual : Nat) : Instruction → EncodeError
  | .branch _ target => .branchGrew target estimate actual
  | _ => .sizeMismatch estimate actual

/-- The bytes of an instruction from `start` up to `stop`. -/
def encodeBetween (labels : LabelTable) (pool : FrozenPool) (start stop : Nat) (i : Instruction) :
    Except EncodeError (List UInt8) := do
  let bytes ← i.encode labels pool start
  let actual := wrap32 bytes.length
  let estimate := wrap32 (4294967296 + stop - start)
  if actual = estimate then return bytes
  else .error (sizeError estimate actual i)

/-- The bytes of instructions in order, the first of them being number `index`; `boundaries`
holds their offsets and the offset after the last. -/
def encodeFrom (labels : LabelTable) (pool : FrozenPool) (index : Nat) (done : List (List UInt8)) :
    List Instruction → List Nat → Except CompileError (List UInt8)
  | i :: rest, start :: stop :: boundaries =>
    match encodeBetween labels pool start stop i with
    | .error e => .error (.encode index start e)
    | .ok bytes => encodeFrom labels pool (index + 1) (bytes :: done) rest (stop :: boundaries)
  | _, _ => .ok done.reverse.flatten

/-- A method body laid out and encoded. -/
structure AssembledCode where
  code : List UInt8
  maxStack : Nat
  maxLocals : Nat
  table : List ExceptionEntry
  /-- The offset of each instruction, then the length of the code. -/
  offsets : List Nat
  deriving DecidableEq

/-- The offset of an instruction that a handler refers to. -/
def handlerOffset (boundaries : List Nat) (index : Nat) : Except CompileError Nat :=
  match boundaries[index]? with
  | some offset => .ok offset
  | none => .error (.unsupported (.handlerIndex index))

/-- The class index of the type that a handler catches. -/
def Handler.catchIndex (pool : FrozenPool) (h : Handler) : Except CompileError UInt16 :=
  match h.catchType with
  | some type => (pool.classIndex type).mapError .pool
  | none => .ok 0

/-- The exception entry of a handler, unless its range is empty. -/
def Handler.entry? (boundaries : List Nat) (labels : LabelTable) (pool : FrozenPool) (h : Handler) :
    Traced CompileError (Option ExceptionEntry) := do
  let start ← handlerOffset boundaries h.start
  let stop ← handlerOffset boundaries h.stop
  if start = stop then
    Traced.note (.emptyRange start h.target)
    return none
  else
    let target ← Layout.atInstruction h.start start (labels.resolve h.target)
    let catchType ← h.catchIndex pool
    return some ⟨UInt16.ofNat start, UInt16.ofNat stop, UInt16.ofNat target, catchType⟩

/-- The exception entries of handlers, in their order. -/
def exceptionTable (boundaries : List Nat) (labels : LabelTable) (pool : FrozenPool) :
    List Handler → Traced CompileError (List ExceptionEntry)
  | [] => return []
  | h :: rest => do
    let entry? ← h.entry? boundaries labels pool
    let entries ← exceptionTable boundaries labels pool rest
    return entry?.toList ++ entries

/-- The code laid out and encoded with the indices of the pool. -/
def MethodCode.assemble (code : MethodCode) (pool : FrozenPool) :
    Traced CompileError AssembledCode := do
  let layout ← Layout.of pool code.instructions
  let bytes ← encodeFrom layout.labels pool 0 [] code.instructions layout.boundaries
  let table ← exceptionTable layout.boundaries layout.labels pool code.handlers
  let maxStack := code.maxStack
  let maxLocals := code.maxLocals
  Traced.note (.assembled bytes.length maxStack maxLocals table.length)
  return ⟨bytes, maxStack, maxLocals, table, layout.boundaries⟩

end ClassForge
