import ClassForge.Peephole.Rule
import ClassForge.Pool.Builder

/-!
# Events

What is worth noting while a class is compiled or read. An event has a level and a line of
text.
-/

namespace ClassForge

/-- How much an event matters. -/
inductive Level where
  | trace
  | debug
  | warn
  deriving DecidableEq, Repr

/-- The name of a level in logs. -/
def Level.name : Level → String
  | trace => "TRACE"
  | debug => "DEBUG"
  | warn => "WARN"

/-- Something worth noting. -/
inductive Event where
  /-- An entry was stored in the constant pool. -/
  | stored (index : UInt16) (entry : PoolEntry)
  /-- A rule was used at a place in the code. -/
  | ruleUsed (rule : Rule) (index : Nat)
  /-- A method was lowered. -/
  | lowered (method : String) (instructions : Nat)
  /-- A handler protects no bytes and is left out. -/
  | emptyRange (offset : Nat) (target : Label)
  /-- A method was assembled. -/
  | assembled (bytes maxStack maxLocals handlers : Nat)
  /-- A class was built. -/
  | built (name : String) (slots fields methods : Nat)
  /-- Bytes follow the class file. -/
  | trailing (bytes : Nat)
  deriving DecidableEq

namespace Event

/-- The level of an event. -/
def level : Event → Level
  | .stored .. | .ruleUsed .. | .lowered .. => .trace
  | .emptyRange .. | .assembled .. | .built .. => .debug
  | .trailing _ => .warn

/-- The text of an event. -/
def text : Event → String
  | .stored index entry => "pool #" ++ toString index.toNat ++ " = " ++ entry.display
  | .ruleUsed rule index => "peephole " ++ rule.name ++ " at " ++ toString index
  | .lowered method count => "lowered " ++ method ++ " to " ++ toString count ++ " instructions"
  | .emptyRange offset target =>
    "dropping empty handler range at " ++ toString offset ++ " for " ++ target.name
  | .assembled bytes maxStack maxLocals handlers =>
    "assembled " ++ toString bytes ++ " bytes, max_stack=" ++ toString maxStack
      ++ ", max_locals=" ++ toString maxLocals ++ ", " ++ toString handlers ++ " handlers"
  | .built name slots fields methods =>
    "class " ++ name ++ ": " ++ toString slots ++ " pool slots, " ++ toString fields
      ++ " fields, " ++ toString methods ++ " methods"
  | .trailing bytes => toString bytes ++ " trailing bytes after classfile"

/-- The line of an event in a log. -/
def line (e : Event) : String :=
  e.level.name ++ " " ++ e.text

end Event

/-- The events of storing the entries of a pool, in order. -/
def ConstantPool.events (pool : ConstantPool) : List Event :=
  pool.entries.toList.map fun (index, entry) => .stored index entry

/-- An outcome together with the events on the way to it. -/
structure Traced (ε α : Type) where
  events : List Event
  outcome : Except ε α

namespace Traced

variable {ε α β : Type}

/-- An outcome without events. -/
def ofExcept (outcome : Except ε α) : Traced ε α :=
  ⟨[], outcome⟩

/-- An event. -/
def note (e : Event) : Traced ε Unit :=
  ⟨[e], .ok ()⟩

/-- The outcome after earlier events. -/
def after (events : List Event) (x : Traced ε α) : Traced ε α :=
  ⟨events ++ x.events, x.outcome⟩

/-- What is done next comes after the events so far, and only if nothing went wrong. -/
def bind (x : Traced ε α) (f : α → Traced ε β) : Traced ε β :=
  match x.outcome with
  | .error e => ⟨x.events, .error e⟩
  | .ok a => (f a).after x.events

instance : Monad (Traced ε) where
  pure a := ⟨[], .ok a⟩
  bind := bind

/-- The outcome with another error in place of its own. -/
def mapError {ε' : Type} (f : ε → ε') (x : Traced ε α) : Traced ε' α :=
  ⟨x.events, x.outcome.mapError f⟩

instance : MonadLift (Except ε) (Traced ε) where
  monadLift := ofExcept

end Traced

end ClassForge
