import ClassForge.Ty.Basic

/-!
# Erasure

The erased shape of a type has no type arguments and no type variables: a variable becomes
its bound, or the root class if it has none, and so does the type of the null literal.
-/

namespace ClassForge

mutual

/-- The erased shape of a type. -/
def Ty.erasure : Ty → Ty
  | .primitive p => .primitive p
  | .object name _ => .object name []
  | .array elem => .array elem.erasure
  | .function params result => .function (Ty.erasureAll params) result.erasure
  | .typeVar _ bound => Ty.erasureBound bound
  | .null => .object .object []

/-- The erased shapes of a list of types. -/
def Ty.erasureAll : List Ty → List Ty
  | [] => []
  | t :: ts => t.erasure :: Ty.erasureAll ts

/-- What a variable with the given bound erases to. -/
def Ty.erasureBound : Option Ty → Ty
  | none => .object .object []
  | some bound => bound.erasure

end

/-- The erased shape of a method type. -/
def MethodType.erasure (m : MethodType) : MethodType :=
  ⟨m.params.map Ty.erasure, m.result.erasure⟩

mutual

/-- Whether a type mentions type arguments or variables that its erased shape lacks. -/
def Ty.isGeneric : Ty → Bool
  | .primitive _ => false
  | .object _ args => !args.isEmpty
  | .array elem => elem.isGeneric
  | .function params result => Ty.anyGeneric params || result.isGeneric
  | .typeVar .. => true
  | .null => false

/-- Whether one of the types is generic. -/
def Ty.anyGeneric : List Ty → Bool
  | [] => false
  | t :: ts => t.isGeneric || Ty.anyGeneric ts

end

@[simp]
theorem Ty.erasureAll_eq_map (ts : List Ty) :
  Ty.erasureAll ts = ts.map Ty.erasure
  := by
  induction ts with
  | nil => rfl
  | cons t ts ih => rw [Ty.erasureAll, ih, List.map_cons]

@[simp]
theorem Ty.anyGeneric_eq_any (ts : List Ty) :
  Ty.anyGeneric ts = ts.any Ty.isGeneric
  := by
  induction ts with
  | nil => rfl
  | cons t ts ih => rw [Ty.anyGeneric, ih, List.any_cons]

end ClassForge
