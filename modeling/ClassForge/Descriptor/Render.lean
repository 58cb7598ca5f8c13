import ClassForge.Ty.Basic
import ClassForge.Ty.Erasure

/-!
# Descriptors and signatures

A descriptor writes a type in the compact syntax of class files. The erased descriptor, which
links fields and methods, has no generics in it; a signature keeps type arguments and type
variables.
-/

namespace ClassForge

/-- Whether type arguments and type variables are written. -/
inductive Style where
  | erased
  | generic
  deriving DecidableEq, Repr

mutual

/-- A type in the given style. -/
def Ty.render (style : Style) : Ty → String
  | .primitive p => p.letter.toString
  | .array elem => "[" ++ elem.render style
  | .object name args =>
    "L" ++ name.internal
      ++ (match style with
        | .erased => ""
        | .generic => if args.isEmpty then "" else "<" ++ TypeArg.renderAll args ++ ">")
      ++ ";"
  | .function params result => "(" ++ Ty.renderAll style params ++ ")" ++ result.render style
  | .typeVar name bound =>
    match style with
    | .erased => Ty.renderBound .erased bound
    | .generic => "T" ++ name ++ ";"
  | .null => "L" ++ ClassName.object.internal ++ ";"

/-- A list of types in the given style, one after the other. -/
def Ty.renderAll (style : Style) : List Ty → String
  | [] => ""
  | t :: ts => t.render style ++ Ty.renderAll style ts

/-- A bound in the given style; the root class where there is none. -/
def Ty.renderBound (style : Style) : Option Ty → String
  | none => "L" ++ ClassName.object.internal ++ ";"
  | some bound => bound.render style

/-- A type argument. -/
def TypeArg.render : TypeArg → String
  | .exactly t => t.render .generic
  | .extending t => "+" ++ t.render .generic
  | .superOf t => "-" ++ t.render .generic
  | .wildcard => "*"

/-- Type arguments, one after the other. -/
def TypeArg.renderAll : List TypeArg → String
  | [] => ""
  | a :: as => a.render ++ TypeArg.renderAll as

end

/-- The erased descriptor of a type. -/
def Ty.descriptor (t : Ty) : String :=
  t.render .erased

/-- The generic signature of a type. -/
def Ty.signature (t : Ty) : String :=
  t.render .generic

/-- The erased descriptor of a method type. -/
def MethodType.descriptor (m : MethodType) : String :=
  "(" ++ Ty.renderAll .erased m.params ++ ")" ++ m.result.descriptor

/-- The generic signature of a class type. -/
def ClassType.signature (c : ClassType) : String :=
  c.toTy.signature

/-- The declarations of type variables, nothing where there are none. -/
def TypeVar.declarations (vars : List TypeVar) : String :=
  if vars.isEmpty then ""
  else
    "<" ++ String.join (vars.map fun v => v.name ++ ":" ++ Ty.renderBound .generic v.bound) ++ ">"

/-- The signature of a class: its type variables, its superclass and its interfaces. -/
def classSignature (vars : List TypeVar) (superclass : ClassType) (interfaces : List ClassType) :
    String :=
  TypeVar.declarations vars ++ superclass.signature
    ++ String.join (interfaces.map ClassType.signature)

/-- The signature of a method. The thrown types are written only if one of them is generic. -/
def methodSignature (vars : List TypeVar) (type : MethodType) (throws : List Ty) : String :=
  TypeVar.declarations vars ++ "(" ++ Ty.renderAll .generic type.params ++ ")"
    ++ type.result.signature
    ++ if throws.any Ty.isGeneric then String.join (throws.map ("^" ++ ·.signature)) else ""

/-- The text between a leading `L` and a closing semicolon, if there is such a pair. -/
def unwrapObject? (descriptor : String) : Option String :=
  match descriptor.toList with
  | 'L' :: rest => if rest.getLast? = some ';' then some (String.ofList rest.dropLast) else none
  | _ => none

/-- The name under which a type stands in a class entry of the constant pool: arrays keep
their descriptor, every other type has its bare name where it has one. -/
def Ty.entryName (t : Ty) : String :=
  match t with
  | .array _ => t.descriptor
  | .object name _ => name.internal
  | _ => (unwrapObject? t.descriptor).getD t.descriptor

end ClassForge
