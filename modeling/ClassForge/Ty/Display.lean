import ClassForge.Text.Quoted
import ClassForge.Ty.Basic

/-!
# Types in messages

Messages show a type by its structure, each part under its name.
-/

namespace ClassForge

/-- The name of a primitive type in messages. -/
def Primitive.display : Primitive → String
  | boolean => "Boolean"
  | byte => "Byte"
  | char => "Char"
  | short => "Short"
  | int => "Int"
  | long => "Long"
  | float => "Float"
  | double => "Double"
  | void => "Void"

/-- Texts between quotes, in brackets. -/
def displayTexts (texts : List String) : String :=
  Text.bracketed (texts.map Text.quote)

mutual

/-- The structure of a type. -/
def Ty.display : Ty → String
  | .primitive p => "Primitive(" ++ p.display ++ ")"
  | .object name args =>
    "Class(ClassType \x7b package: " ++ displayTexts name.package
      ++ ", names: " ++ displayTexts name.names
      ++ ", args: " ++ Text.bracketed (TypeArg.displays args) ++ " \x7d)"
  | .array elem => "Array(" ++ elem.display ++ ")"
  | .function params result =>
    "Function(FunctionType \x7b params: " ++ Text.bracketed (Ty.displays params)
      ++ ", ret: " ++ result.display ++ " \x7d)"
  | .typeVar name bound =>
    "TypeVar(TypeVar \x7b name: " ++ Text.quote name ++ ", bound: " ++ Ty.displayBound bound
      ++ " \x7d)"
  | .null => "Null"

/-- The structure of a type argument. -/
def TypeArg.display : TypeArg → String
  | .exactly t => "Exact(" ++ t.display ++ ")"
  | .extending t => "Extends(" ++ t.display ++ ")"
  | .superOf t => "Super(" ++ t.display ++ ")"
  | .wildcard => "Wildcard"

/-- The structures of a list of types. -/
def Ty.displays : List Ty → List String
  | [] => []
  | t :: ts => t.display :: Ty.displays ts

/-- The structures of a list of type arguments. -/
def TypeArg.displays : List TypeArg → List String
  | [] => []
  | a :: as => a.display :: TypeArg.displays as

/-- The structure of a bound. -/
def Ty.displayBound : Option Ty → String
  | none => "None"
  | some t => "Some(" ++ t.display ++ ")"

end

end ClassForge
