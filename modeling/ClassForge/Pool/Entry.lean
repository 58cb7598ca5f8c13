import ClassForge.Descriptor.Render
import ClassForge.Text.Decimal
import ClassForge.Text.Quoted

/-!
# Entries of the constant pool

An entry is what code and declarations refer to: a text, a number, a string, a class or a
member. Entries are compared by structure, floating point numbers by their bits. An entry
refers to its children; these have no children but texts, so that an entry has at most two
generations below it.
-/

namespace ClassForge

/-- A member of a class, by the names under which it is linked. -/
structure MemberRef where
  owner : String
  name : String
  descriptor : String
  deriving DecidableEq, Hashable, Repr

/-- An entry of the constant pool. -/
inductive PoolEntry where
  | utf8 (text : String)
  | integer (value : Int32)
  | float (bits : UInt32)
  | long (value : Int64)
  | double (bits : UInt64)
  | string (text : String)
  | classRef (name : String)
  | fieldRef (member : MemberRef)
  | methodRef (member : MemberRef)
  | interfaceMethodRef (member : MemberRef)
  | nameAndType (name descriptor : String)
  deriving DecidableEq, Hashable

namespace PoolEntry

/-- The class entry of a type. -/
def ofClass (t : Ty) : PoolEntry :=
  .classRef t.entryName

/-- The number of indices an entry takes. -/
def width : PoolEntry → Nat
  | .long _ | .double _ => 2
  | _ => 1

/-- The entries that an entry refers to. -/
def children : PoolEntry → List PoolEntry
  | .string text => [.utf8 text]
  | .classRef name => [.utf8 name]
  | .nameAndType name descriptor => [.utf8 name, .utf8 descriptor]
  | .fieldRef m | .methodRef m | .interfaceMethodRef m =>
    [.classRef m.owner, .nameAndType m.name m.descriptor]
  | .utf8 _ | .integer _ | .float _ | .long _ | .double _ => []

/-- The entries below an entry, each after its own children. -/
def parts (e : PoolEntry) : List PoolEntry :=
  e.children.flatMap fun child => child.children ++ [child]

/-- The text of a member. -/
def memberText (m : MemberRef) : String :=
  m.owner ++ "." ++ m.name ++ ":" ++ m.descriptor

/-- The text of an entry in messages and logs. -/
def display : PoolEntry → String
  | .utf8 text => "Utf8 " ++ text
  | .integer value => "Integer " ++ toString value.toInt
  | .float bits => "Float " ++ Text.Decimal.ofBits32 bits ++ "f"
  | .long value => "Long " ++ toString value.toInt ++ "l"
  | .double bits => "Double " ++ Text.Decimal.ofBits64 bits ++ "d"
  | .string text => "String " ++ Text.quote text
  | .classRef name => "Class " ++ name
  | .fieldRef m => "Fieldref " ++ memberText m
  | .methodRef m => "Methodref " ++ memberText m
  | .interfaceMethodRef m => "InterfaceMethodref " ++ memberText m
  | .nameAndType name descriptor => "NameAndType " ++ name ++ ":" ++ descriptor

end PoolEntry

/-- What can go wrong with the constant pool. -/
inductive PoolError where
  /-- The entry would take the given index, which is too large. -/
  | overflow (index : Nat)
  | missing (entry : PoolEntry)
  /-- A text takes more bytes than a record can hold. -/
  | utf8TooLong (bytes : Nat)
  deriving DecidableEq

/-- The message of a pool error. -/
def PoolError.message : PoolError → String
  | .overflow index => "constant pool overflow: index " ++ toString index ++ " exceeds 65534"
  | .missing entry => "constant pool has no entry for " ++ entry.display
  | .utf8TooLong bytes => "utf8 constant too long (" ++ toString bytes ++ " bytes)"

end ClassForge
