import ClassForge.Model.Expr
import ClassForge.Ty.Erasure

/-!
# Classes

A class to be compiled, with its fields and methods.
-/

namespace ClassForge

/-- A local variable or a parameter. -/
structure Local where
  name : String
  type : Ty
  deriving DecidableEq

/-- A stretch of statements between two labels whose exceptions are caught at a third. -/
structure Trap where
  start : Label
  stop : Label
  handler : Label
  /-- The caught type; `none` catches everything. -/
  catchType : Option Ty
  deriving DecidableEq

/-- The body of a method. -/
structure Body where
  /-- The locals other than the parameters. -/
  locals : List Local
  stmts : List Stmt
  traps : List Trap

/-- A method. -/
structure Method where
  name : String
  flags : UInt16
  typeParams : List TypeVar
  params : List Local
  result : Ty
  /-- The types that the method declares to throw. -/
  exceptions : List Ty
  body : Option Body

/-- The flag of static members. -/
def staticFlag : UInt16 := 0x0008

/-- The flag of native methods. -/
def nativeFlag : UInt16 := 0x0100

/-- The flag of abstract methods. -/
def abstractFlag : UInt16 := 0x0400

/-- Whether `flags` has a bit of `mask`. -/
def hasFlag (flags mask : UInt16) : Bool :=
  flags &&& mask ≠ 0

namespace Method

/-- Whether the method has no receiver. -/
def isStatic (m : Method) : Bool :=
  hasFlag m.flags staticFlag

/-- Whether the method must not have a body. -/
def isBodiless (m : Method) : Bool :=
  hasFlag m.flags (abstractFlag ||| nativeFlag)

/-- The types of the parameters. -/
def paramTypes (m : Method) : List Ty :=
  m.params.map Local.type

/-- The type of the method. -/
def type (m : Method) : MethodType :=
  ⟨m.paramTypes, m.result⟩

/-- Whether the erased descriptor does not tell all of the method's type. -/
def isGeneric (m : Method) : Bool :=
  !m.typeParams.isEmpty || m.result.isGeneric || m.params.any (·.type.isGeneric)
    || m.exceptions.any Ty.isGeneric

end Method

/-- A field. -/
structure Field where
  name : String
  type : Ty
  flags : UInt16
  /-- The value of a constant, for static fields only. -/
  constant : Option Literal
  deriving DecidableEq

/-- Whether the field belongs to the class and not to its objects. -/
def Field.isStatic (f : Field) : Bool :=
  hasFlag f.flags staticFlag

/-- A nested class that the class records. -/
structure InnerClass where
  inner : ClassType
  /-- Absent for local and anonymous classes. -/
  outer : Option ClassType
  /-- Absent for anonymous classes. -/
  simpleName : Option String
  flags : UInt16
  deriving DecidableEq

/-- A class. -/
structure ClassModel where
  type : ClassType
  /-- Absent for the root of the hierarchy. -/
  superclass : Option ClassType
  interfaces : List ClassType
  flags : UInt16
  typeParams : List TypeVar
  fields : List Field
  methods : List Method
  innerClasses : List InnerClass
  sourceFile : Option String

/-- Whether names alone do not tell all of the class's declaration. -/
def ClassModel.isGeneric (c : ClassModel) : Bool :=
  !c.typeParams.isEmpty || c.superclass.any ClassType.isGeneric
    || c.interfaces.any ClassType.isGeneric

end ClassForge
