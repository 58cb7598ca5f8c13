import ClassForge.Build.ClassFile
import ClassForge.Listing.Text

/-!
# Compiling and loading

A class is compiled to the bytes of a class file, or to a listing of it. Bytes are loaded
back as a class file.
-/

namespace ClassForge

/-- How a class is compiled. -/
structure CompileOptions where
  version : ClassVersion := {}
  optimizer : Optimizer := .peephole

/-- Why compiled bytes could not be written. -/
inductive WriteError where
  | compile (source : CompileError)
  /-- There are more bytes than room for them. -/
  | full
  deriving DecidableEq

namespace ClassModel

/-- The bytes of the class file of a class. -/
def compile (c : ClassModel) (options : CompileOptions) : Traced CompileError (List UInt8) := do
  let file ← c.build options.version options.optimizer
  return file.toBytes

/-- The listing of the class file of a class. -/
def listing? (c : ClassModel) (options : CompileOptions) : Traced CompileError (Option String) := do
  let file ← c.build options.version options.optimizer
  return file.listing?

/-- Compiles a class into a space of `capacity` bytes and tells how many of them are left. -/
def writeInto (c : ClassModel) (options : CompileOptions) (capacity : Nat) :
    Traced WriteError Nat := do
  let bytes ← (c.compile options).mapError .compile
  if bytes.length ≤ capacity then
    return capacity - bytes.length
  else
    Traced.ofExcept (.error .full)

end ClassModel

/-- The class file at the front of some bytes. Bytes after it are noted and otherwise
ignored. -/
def ClassFile.load (input : List UInt8) : Traced ReadFault ClassFile := do
  let (file, rest) ← ClassFile.parse input
  if !rest.isEmpty then
    Traced.note (.trailing rest.length)
  return file

end ClassForge
