import ClassForge.Pool.Builder
import ClassForge.Pool.Record

/-!
# The finished constant pool

Once every entry is known the pool is frozen. Code and declarations look up the indices of
their entries in it, and it gives the records of the class file.
-/

namespace ClassForge

/-- A constant pool that no longer changes. -/
structure FrozenPool where
  entries : Array (UInt16 × PoolEntry)
  indices : Std.HashMap PoolEntry UInt16
  /-- One more than the number of indices taken. -/
  count : Nat

/-- The pool as it stands, for looking up. -/
def ConstantPool.freeze (pool : ConstantPool) : FrozenPool :=
  ⟨pool.entries, pool.indices, pool.next⟩

/-- The record of a text. -/
def Record.ofText (text : String) : Except PoolError Record :=
  let bytes := Text.ModifiedUtf8.encode text
  let length := bytes.length
  if length ≤ 65535 then .ok (.utf8 (UInt16.ofNat length) bytes)
  else .error (.utf8TooLong length)

namespace FrozenPool

/-- The index of an entry. -/
def indexOf (pool : FrozenPool) (e : PoolEntry) : Except PoolError UInt16 :=
  match pool.indices[e]? with
  | some index => .ok index
  | none => .error (.missing e)

/-- The index of a text. -/
def textIndex (pool : FrozenPool) (text : String) : Except PoolError UInt16 :=
  pool.indexOf (.utf8 text)

/-- The index of the class entry of a type. -/
def classIndex (pool : FrozenPool) (t : Ty) : Except PoolError UInt16 :=
  pool.indexOf (.ofClass t)

/-- The entry with an index among those from place `low` up to place `high`, in the order of their
indices: the one in the middle tells which half to go on with. -/
def search (entries : Array (UInt16 × PoolEntry)) (index : UInt16) (low high : Nat) :
    Option PoolEntry :=
  if low < high then
    let middle := (low + high) / 2
    match entries[middle]? with
    | none => none
    | some (i, e) =>
      if i = index then some e
      else if i < index then search entries index (middle + 1) high
      else search entries index low middle
  else none
termination_by high - low

/-- The entry at an index. -/
def get? (pool : FrozenPool) (index : UInt16) : Option PoolEntry :=
  search pool.entries index 0 pool.entries.size

/-- The indices of the class and of the name and type of a member. -/
def memberIndices (pool : FrozenPool) (m : MemberRef) : Except PoolError (UInt16 × UInt16) := do
  let owner ← pool.indexOf (.classRef m.owner)
  let member ← pool.indexOf (.nameAndType m.name m.descriptor)
  return (owner, member)

/-- The record of an entry. -/
def record (pool : FrozenPool) : PoolEntry → Except PoolError Record
  | .utf8 text => Record.ofText text
  | .integer value => return .integer value
  | .float bits => return .float bits
  | .long value => return .long value
  | .double bits => return .double bits
  | .string text => return .string (← pool.textIndex text)
  | .classRef name => return .classRef (← pool.textIndex name)
  | .nameAndType name descriptor =>
    return .nameAndType (← pool.textIndex name) (← pool.textIndex descriptor)
  | .fieldRef m => do
    let (owner, member) ← pool.memberIndices m
    return .fieldRef owner member
  | .methodRef m => do
    let (owner, member) ← pool.memberIndices m
    return .methodRef owner member
  | .interfaceMethodRef m => do
    let (owner, member) ← pool.memberIndices m
    return .interfaceMethodRef owner member

/-- The records of the pool, in the order of their indices. -/
def records (pool : FrozenPool) : Except PoolError (List Record) := do
  let records ← pool.entries.toList.mapM fun (_, e) => pool.record e
  return records.flatMap Record.withFiller

end FrozenPool

end ClassForge
