import ClassForge.Error
import ClassForge.Model.Class

/-!
# Slots of locals

Parameters and locals take slots in the order of their declaration, after the receiver if
there is one. Each takes as many as its type needs.
-/

namespace ClassForge

/-- A local with its first slot. -/
structure LocalSlot where
  name : String
  type : Ty
  slot : UInt16
  deriving DecidableEq

/-- Locals with their slots. -/
structure Locals where
  slots : List LocalSlot
  /-- The first free slot. -/
  next : Nat

namespace Locals

/-- No locals yet. -/
def start (isStatic : Bool) : Locals :=
  ⟨[], if isStatic then 0 else 1⟩

/-- The locals with one more. -/
def add (locals : Locals) (l : Local) : Except Unsupported Locals :=
  if locals.slots.any (·.name = l.name) then .error (.localTwice l.name)
  else if l.type.isVoid then .error (.localVoid l.name)
  else if 65535 < locals.next + l.type.slots then .error .tooManyLocals
  else
    .ok ⟨locals.slots ++ [⟨l.name, l.type, UInt16.ofNat locals.next⟩], locals.next + l.type.slots⟩

/-- The locals with all of the given ones. -/
def addAll (locals : Locals) (ls : List Local) : Except Unsupported Locals :=
  ls.foldlM add locals

/-- The parameters and locals of a method. -/
def ofMethod (m : Method) (body : Body) : Except Unsupported Locals := do
  let params ← (start m.isStatic).addAll m.params
  params.addAll body.locals

/-- The local with the given name. -/
def find (locals : Locals) (name : String) : Except Unsupported LocalSlot :=
  match locals.slots.find? (·.name = name) with
  | some l => .ok l
  | none => .error (.unknownLocal name)

end Locals

end ClassForge
