import ClassForge.Instruction.Basic

/-!
# Expressions and statements

The body of a method before it is lowered: expressions, places that can be assigned to, and
statements. Names are resolved and every expression carries the types that select its
instructions.
-/

namespace ClassForge

/-- A literal. -/
inductive Literal where
  | boolean (value : Bool)
  | char (value : UInt16)
  | byte (value : Int8)
  | short (value : Int16)
  | int (value : Int32)
  | long (value : Int64)
  | float (bits : UInt32)
  | double (bits : UInt64)
  | string (text : String)
  | classOf (type : Ty)
  | null
  deriving DecidableEq

/-- The type of a literal. -/
def Literal.type : Literal → Ty
  | .boolean _ => .boolean
  | .char _ => .primitive .char
  | .byte _ => .primitive .byte
  | .short _ => .primitive .short
  | .int _ => .int
  | .long _ => .primitive .long
  | .float _ => .primitive .float
  | .double _ => .primitive .double
  | .string _ => .object .string []
  | .classOf _ => .object .classObject []
  | .null => .null

/-- The operations that may leave out their second operand. -/
inductive LogicOp where
  | and
  | or
  deriving DecidableEq, Repr

/-- An expression. -/
inductive Expr where
  | literal (l : Literal)
  /-- A local variable or a parameter. -/
  | var (name : String)
  /-- The receiver of the method. -/
  | self
  /-- A field; a static one has no object. -/
  | field (owner : Ty) (name : String) (type : Ty) (object : Option Expr)
  | element (array index : Expr) (elem : Ty)
  | length (array : Expr)
  /-- A call; every mode but the static one has a receiver. -/
  | invoke (mode : InvokeMode) (owner : Ty) (name : String) (type : MethodType)
      (receiver : Option Expr) (args : List Expr)
  /-- A new object, with the parameter types of its constructor. -/
  | new (type : Ty) (params : List Ty) (args : List Expr)
  /-- A new array of the given type, with a length for each allocated dimension. -/
  | newArray (type : Ty) (lengths : List Expr)
  | neg (operand : Expr) (type : Ty)
  | not (operand : Expr)
  | arith (op : ArithOp) (left right : Expr) (type : Ty)
  | logic (op : LogicOp) (left right : Expr)
  /-- A comparison of operands of the given type. -/
  | compare (condition : Condition) (left right : Expr) (type : Ty)
  | instanceOf (value : Expr) (type : Ty)
  /-- A cast of a reference, or a conversion where both types are primitive. -/
  | cast (value : Expr) (type : Ty)
  | convert (value : Expr) (source target : Ty)
  /-- The thrown value at the start of a handler. -/
  | caught (type : Ty)

/-- Something that can be assigned to. -/
inductive Place where
  | var (name : String)
  | field (owner : Ty) (name : String) (type : Ty) (object : Option Expr)
  | element (array index : Expr) (elem : Ty)

/-- A statement. -/
inductive Stmt where
  | assign (place : Place) (value : Expr)
  /-- The value of the expression is dropped. -/
  | eval (e : Expr)
  | ret (value : Option Expr)
  | throw (value : Expr)
  | goto (target : Label)
  /-- A jump that is taken when the condition holds. -/
  | branch (condition : Expr) (target : Label)
  | label (l : Label)
  | lock (value : Expr)
  | unlock (value : Expr)
  | switch (key : Expr) (cases : List (Int32 × Label)) (fallback : Label)

end ClassForge
