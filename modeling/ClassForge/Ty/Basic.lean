/-!
# Types

The types that fields, locals and methods are declared with: primitive types, class types with
their type arguments, arrays, method types, type variables and the type of the null literal.
-/

namespace ClassForge

/-- The primitive types, with `void` among them. -/
inductive Primitive where
  | boolean
  | byte
  | char
  | short
  | int
  | long
  | float
  | double
  | void
  deriving DecidableEq, Repr

namespace Primitive

/-- The letter that stands for the type in a descriptor. -/
def letter : Primitive → Char
  | boolean => 'Z'
  | byte => 'B'
  | char => 'C'
  | short => 'S'
  | int => 'I'
  | long => 'J'
  | float => 'F'
  | double => 'D'
  | void => 'V'

/-- The keyword of the type. -/
def name : Primitive → String
  | boolean => "boolean"
  | byte => "byte"
  | char => "char"
  | short => "short"
  | int => "int"
  | long => "long"
  | float => "float"
  | double => "double"
  | void => "void"

/-- Whether a value takes two slots. -/
def isWide : Primitive → Bool
  | long | double => true
  | _ => false

/-- Whether the machine computes on values of the type as on `int`. -/
def isIntLike : Primitive → Bool
  | boolean | byte | char | short | int => true
  | _ => false

/-- The operand by which `newarray` names an element type. -/
def arrayCode? : Primitive → Option UInt8
  | boolean => some 4
  | char => some 5
  | float => some 6
  | double => some 7
  | byte => some 8
  | short => some 9
  | int => some 10
  | long => some 11
  | void => none

end Primitive

/-- The name of a class: its package, then the outermost class and each class nested in it. -/
structure ClassName where
  package : List String
  names : List String
  deriving DecidableEq, Repr

namespace ClassName

/-- The pieces of a text between occurrences of `separator`. -/
def pieces (separator : Char) : List Char → List (List Char)
  | [] => [[]]
  | c :: rest =>
    if c = separator then
      [] :: pieces separator rest
    else
      match pieces separator rest with
      | [] => [[c]]
      | piece :: others => (c :: piece) :: others

/-- The pieces of a text between occurrences of `separator`, as strings. -/
def split (separator : Char) (text : String) : List String :=
  (pieces separator text.toList).map String.ofList

/-- The name written as in class files, such as `java/util/Map$Entry`. A slash at the front
that is the only one opens no package. -/
def ofInternal (text : String) : ClassName :=
  let segments := split '/' text
  let package := segments.dropLast
  ⟨if package = [""] then [] else package, split '$' (segments.getLastD "")⟩

/-- The name of a top-level class in a package written with dots. -/
def ofDotted (package name : String) : ClassName :=
  ⟨(split '.' package).filter (· ≠ ""), [name]⟩

/-- The name as class files write it: each package segment closed by a slash, nested classes
joined by a dollar sign. -/
def internal (name : ClassName) : String :=
  String.join (name.package.map (· ++ "/")) ++ "$".intercalate name.names

/-- The name of the innermost class. -/
def simple (name : ClassName) : String :=
  name.names.getLastD ""

/-- The class `inner` nested in this one. -/
def nested (name : ClassName) (inner : String) : ClassName :=
  ⟨name.package, name.names ++ [inner]⟩

/-- The root of the class hierarchy. -/
def object : ClassName :=
  ⟨["java", "lang"], ["Object"]⟩

/-- The class of string literals. -/
def string : ClassName :=
  ⟨["java", "lang"], ["String"]⟩

/-- The class of class literals. -/
def classObject : ClassName :=
  ⟨["java", "lang"], ["Class"]⟩

end ClassName

mutual

/-- A type. -/
inductive Ty where
  | primitive (p : Primitive)
  /-- A class or interface, with its type arguments. -/
  | object (name : ClassName) (args : List TypeArg)
  | array (elem : Ty)
  | function (params : List Ty) (result : Ty)
  /-- A type variable; `bound` is what it erases to. -/
  | typeVar (name : String) (bound : Option Ty)
  /-- The type of the null literal. -/
  | null

/-- An argument of a class type. -/
inductive TypeArg where
  | exactly (t : Ty)
  | extending (t : Ty)
  | superOf (t : Ty)
  | wildcard

end

/-- A class type. -/
structure ClassType where
  name : ClassName
  args : List TypeArg

/-- The declaration of a type variable. -/
structure TypeVar where
  name : String
  bound : Option Ty

/-- The type of a method. -/
structure MethodType where
  params : List Ty
  result : Ty

/-- A class type as a type. -/
def ClassType.toTy (c : ClassType) : Ty :=
  .object c.name c.args

/-- A method type as a type. -/
def MethodType.toTy (m : MethodType) : Ty :=
  .function m.params m.result

namespace ClassType

/-- The class type without arguments whose name is written as in class files. -/
def ofInternal (text : String) : ClassType :=
  ⟨.ofInternal text, []⟩

/-- The root of the class hierarchy. -/
def object : ClassType :=
  ⟨.object, []⟩

/-- The class `inner` nested in this one, without arguments. -/
def nested (c : ClassType) (inner : String) : ClassType :=
  ⟨c.name.nested inner, []⟩

/-- The class type without its arguments. -/
def erasure (c : ClassType) : ClassType :=
  ⟨c.name, []⟩

/-- Whether the class type has arguments. -/
def isGeneric (c : ClassType) : Bool :=
  !c.args.isEmpty

end ClassType

namespace Ty

/-- The type of `int` values. -/
abbrev int : Ty := .primitive .int

/-- The type of truth values. -/
abbrev boolean : Ty := .primitive .boolean

/-- The result type of methods without a result. -/
abbrev void : Ty := .primitive .void

/-- The class type without arguments whose name is written as in class files. -/
def ofInternal (text : String) : Ty :=
  .object (.ofInternal text) []

/-- The type as a primitive type. -/
def primitive? : Ty → Option Primitive
  | .primitive p => some p
  | _ => none

/-- The number of slots a value takes among the locals and on the stack. -/
def slots : Ty → Nat
  | .primitive .void => 0
  | .primitive p => if p.isWide then 2 else 1
  | _ => 1

/-- Whether a value takes two slots. -/
def isWide (t : Ty) : Bool :=
  t.slots = 2

/-- Whether the type is `void`. -/
def isVoid : Ty → Bool
  | .primitive .void => true
  | _ => false

/-- Whether values of the type are references. -/
def isReference : Ty → Bool
  | .object .. | .array _ | .typeVar .. | .null => true
  | .primitive _ | .function .. => false

/-- Whether the machine computes on values of the type as on `int`. -/
def isIntLike : Ty → Bool
  | .primitive p => p.isIntLike
  | _ => false

/-- The number of dimensions of an array type, zero for any other type. -/
def dimensions : Ty → Nat
  | .array elem => elem.dimensions + 1
  | _ => 0

end Ty

/-- The slots that values of the given types take together. -/
def slotsOf (types : List Ty) : Nat :=
  types.foldr (fun t slots => t.slots + slots) 0

/-- The slots that the arguments take, the receiver left out, as 16 bits count them. -/
def MethodType.argSlots (m : MethodType) : UInt16 :=
  UInt16.ofNat (slotsOf m.params)

end ClassForge
