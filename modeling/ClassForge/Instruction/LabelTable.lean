import ClassForge.Instruction.Basic
import ClassForge.Pool.Entry
import Std.Data.HashMap

/-!
# Places of labels

Layout binds each label to the offset of the instruction after it, and branches resolve their
targets against the finished table.
-/

namespace ClassForge

/-- Why an instruction could not be encoded. -/
inductive EncodeError where
  /-- A conditional branch is `offset` bytes away from its target. -/
  | branchOutOfRange (target : Label) (offset : Int)
  /-- A branch needs more bytes than were laid out for it. -/
  | branchGrew (target : Label) (estimate actual : Nat)
  | unresolvedLabel (label : Label)
  | duplicateLabel (label : Label)
  | tooManyArguments (slots : Nat)
  | codeTooLong (length : Nat)
  | sizeMismatch (estimate actual : Nat)
  | pool (error : PoolError)
  deriving DecidableEq

/-- The message of an encoding error. -/
def EncodeError.message : EncodeError → String
  | .branchOutOfRange target offset =>
    "branch to `" ++ target.name ++ "` needs offset " ++ toString offset
      ++ ", beyond the 16-bit form"
  | .branchGrew target estimate actual =>
    "branch to `" ++ target.name ++ "` grew from " ++ toString estimate ++ " to "
      ++ toString actual ++ " bytes"
  | .unresolvedLabel label => "unresolved label `" ++ label.name ++ "`"
  | .duplicateLabel label => "label `" ++ label.name ++ "` defined more than once"
  | .tooManyArguments slots => toString slots ++ " argument slots do not fit invokeinterface"
  | .codeTooLong length => "code is " ++ toString length ++ " bytes, the limit is 65535"
  | .sizeMismatch estimate actual =>
    "encoded " ++ toString actual ++ " bytes where layout reserved " ++ toString estimate
  | .pool error => error.message

/-- The offsets of labels. -/
structure LabelTable where
  offsets : Std.HashMap Label Nat := ∅

namespace LabelTable

/-- The table without labels. -/
def empty : LabelTable := {}

/-- Binds a label to an offset. A label that was bound already gets the new offset, and the
attempt is an error all the same. -/
def bind (label : Label) (offset : Nat) : EStateM EncodeError LabelTable Unit
  | ⟨offsets⟩ =>
    let (isBound, offsets) := offsets.containsThenInsert label offset
    if isBound then .error (.duplicateLabel label) ⟨offsets⟩ else .ok () ⟨offsets⟩

/-- The offset of a label. -/
def resolve (table : LabelTable) (label : Label) : Except EncodeError Nat :=
  match table.offsets[label]? with
  | some offset => .ok offset
  | none => .error (.unresolvedLabel label)

end LabelTable

end ClassForge
