import ClassForge.Pool.Entry
import Std.Data.HashMap

/-!
# The constant pool under construction

Interning an entry gives its index. A new entry is stored after everything below it, each
entry once, at the first index that is free; a wide entry takes two. The indices end at
65534. When an entry does not fit, what was stored before it stays.
-/

namespace ClassForge

/-- A constant pool under construction. -/
structure ConstantPool where
  /-- The entries with their indices, in the order in which they were stored. -/
  entries : Array (UInt16 × PoolEntry) := #[]
  /-- The index of each stored entry. -/
  indices : Std.HashMap PoolEntry UInt16 := ∅
  /-- The first free index. -/
  next : Nat := 1

namespace ConstantPool

/-- The pool without entries. -/
def empty : ConstantPool := {}

/-- The index of a stored entry. -/
def index? (pool : ConstantPool) (e : PoolEntry) : Option UInt16 :=
  pool.indices[e]?

/-- Whether an entry is stored. -/
def contains (pool : ConstantPool) (e : PoolEntry) : Bool :=
  pool.indices.contains e

/-- The pool with `e` stored at the first free index. -/
def push : ConstantPool → PoolEntry → ConstantPool
  | ⟨entries, indices, next⟩, e =>
    ⟨entries.push (UInt16.ofNat next, e), indices.insert e (UInt16.ofNat next), next + e.width⟩

/-- The index of `e`, which is stored if it was not, without regard to its children. -/
def store (e : PoolEntry) : EStateM PoolError ConstantPool UInt16 := fun pool =>
  match pool.index? e with
  | some index => .ok index pool
  | none =>
    if 65535 < pool.next + e.width then
      .error (.overflow (pool.next + e.width - 1)) pool
    else
      .ok (UInt16.ofNat pool.next) (pool.push e)

/-- The index of `e`, which is stored after everything below it if it was not. -/
def intern (e : PoolEntry) : EStateM PoolError ConstantPool UInt16 := do
  match (← get).index? e with
  | some index => return index
  | none =>
    e.parts.forM fun part => discard (store part)
    store e

/-- Interns entries in order, up to the first that does not fit. -/
def internAll (entries : List PoolEntry) : EStateM PoolError ConstantPool Unit :=
  entries.forM fun e => discard (intern e)

end ConstantPool

end ClassForge
