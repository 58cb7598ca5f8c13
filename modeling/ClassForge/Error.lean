import ClassForge.Instruction.Checked
import ClassForge.Instruction.LabelTable

/-!
# Errors of compilation

A class that cannot be compiled has something in it that is not supported, or asks for an
instruction that does not exist, or does not fit the format. The error tells in which class
and method.
-/

namespace ClassForge

/-- What is not supported. -/
inductive Unsupported where
  | localTwice (name : String)
  | localVoid (name : String)
  | tooManyLocals
  | unknownLocal (name : String)
  | noBody
  | bodyNotAllowed
  | labelTwice (label : Label)
  | reservedLabel (label : Label)
  | undefinedTarget (label : Label)
  | undefinedTrapLabel (label : Label)
  | trapReversed (stop start : Label)
  | returnWithoutValue
  | returnWithValue
  | switchOn (type : Ty)
  | conditionOf (type : Ty)
  | thisInStatic
  | arrayOf (type : Ty)
  | arrayWithoutLength
  | staticWithReceiver (method : String)
  | withoutReceiver (mode : InvokeMode) (method : String)
  | arity (method : String) (expected given : Nat)
  | handlerIndex (index : Nat)
  | constantOnInstance (field : String)
  | classConstant (field : String) (type : Ty)
  | nullConstant (field : String)
  deriving DecidableEq

/-- The message for something that is not supported. -/
def Unsupported.message : Unsupported → String
  | .localTwice name => "local `" ++ name ++ "` declared twice"
  | .localVoid name => "local `" ++ name ++ "` has type void"
  | .tooManyLocals => "more than 65535 local slots"
  | .unknownLocal name => "unknown local `" ++ name ++ "`"
  | .noBody => "method has no body"
  | .bodyNotAllowed => "abstract or native method has a body"
  | .labelTwice label => "label `" ++ label.name ++ "` defined twice"
  | .reservedLabel label => "label `" ++ label.name ++ "` uses a reserved prefix"
  | .undefinedTarget label => "jump to undefined label `" ++ label.name ++ "`"
  | .undefinedTrapLabel label => "trap refers to undefined label `" ++ label.name ++ "`"
  | .trapReversed stop start =>
    "trap ends at `" ++ stop.name ++ "` before it starts at `" ++ start.name ++ "`"
  | .returnWithoutValue => "value-less return in a non-void method"
  | .returnWithValue => "return with a value in a void method"
  | .switchOn type => "switch on " ++ type.display
  | .conditionOf type => "condition of type " ++ type.display
  | .thisInStatic => "`this` in a static method"
  | .arrayOf type => "new array of non-array " ++ type.display
  | .arrayWithoutLength => "array creation without a length"
  | .staticWithReceiver method => "static call to " ++ method ++ " with a receiver"
  | .withoutReceiver mode method =>
    mode.display ++ " call to " ++ method ++ " without a receiver"
  | .arity method expected given =>
    method ++ " takes " ++ toString expected ++ " arguments, " ++ toString given ++ " given"
  | .handlerIndex index => "handler index " ++ toString index ++ " out of range"
  | .constantOnInstance field => "constant value on non-static field `" ++ field ++ "`"
  | .classConstant field type =>
    "field `" ++ field ++ "` cannot hold a Class(" ++ type.display ++ ") constant"
  | .nullConstant field => "field `" ++ field ++ "` cannot hold a Null constant"

/-- Why a class cannot be compiled. -/
inductive CompileError where
  | unsupported (reason : Unsupported)
  /-- There is no instruction for the operands at the place `index`. -/
  | instruction (index : Nat) (source : InstructionError)
  /-- The instruction at the place `index` cannot be encoded at `offset`. -/
  | encode (index offset : Nat) (source : EncodeError)
  | pool (source : PoolError)
  | inMethod (name descriptor : String) (source : CompileError)
  | inClass (name : String) (source : CompileError)
  deriving DecidableEq

namespace CompileError

/-- The message of a compilation error. -/
def message : CompileError → String
  | .unsupported reason => "unsupported IR: " ++ reason.message
  | .instruction index source => "instruction " ++ toString index ++ ": " ++ source.message
  | .encode index offset source =>
    "instruction " ++ toString index ++ " at offset " ++ toString offset ++ ": " ++ source.message
  | .pool source => source.message
  | .inMethod name descriptor source => "method " ++ name ++ descriptor ++ ": " ++ source.message
  | .inClass name source => "class " ++ name ++ ": " ++ source.message

/-- The error itself, without the class and method around it. -/
def root : CompileError → CompileError
  | .inMethod _ _ source => source.root
  | .inClass _ source => source.root
  | e => e

end CompileError

end ClassForge
