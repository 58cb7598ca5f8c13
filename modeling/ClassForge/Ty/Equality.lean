import ClassForge.Ty.Basic

/-!
# Equality of types

Types are equal when they have the same shape. The comparison `Ty.same` follows the shape of
both types, and makes equality of types decidable.
-/

namespace ClassForge

mutual

/-- Whether two types have the same shape. -/
def Ty.same : Ty → Ty → Bool
  | .primitive p, .primitive q => p == q
  | .object n as, .object m bs => n == m && TypeArg.sameAll as bs
  | .array t, .array u => t.same u
  | .function ps r, .function qs s => Ty.sameAll ps qs && r.same s
  | .typeVar n b, .typeVar m c => n == m && Ty.sameBound b c
  | .null, .null => true
  | _, _ => false

/-- Whether two type arguments have the same shape. -/
def TypeArg.same : TypeArg → TypeArg → Bool
  | .exactly t, .exactly u => t.same u
  | .extending t, .extending u => t.same u
  | .superOf t, .superOf u => t.same u
  | .wildcard, .wildcard => true
  | _, _ => false

/-- Whether two lists hold types of the same shapes. -/
def Ty.sameAll : List Ty → List Ty → Bool
  | [], [] => true
  | t :: ts, u :: us => t.same u && Ty.sameAll ts us
  | _, _ => false

/-- Whether two lists hold type arguments of the same shapes. -/
def TypeArg.sameAll : List TypeArg → List TypeArg → Bool
  | [], [] => true
  | a :: as, b :: bs => a.same b && TypeArg.sameAll as bs
  | _, _ => false

/-- Whether two bounds have the same shape. -/
def Ty.sameBound : Option Ty → Option Ty → Bool
  | none, none => true
  | some t, some u => t.same u
  | _, _ => false

end

mutual

/-- Types that compare as the same are equal. -/
theorem Ty.eq_of_same : (t u : Ty) → t.same u = true → t = u
  | .primitive p, u, h => by
    cases u <;> simp [Ty.same] at h
    rw [h]
  | .object n as, u, h => by
    cases u <;> simp [Ty.same] at h
    rw [h.1, TypeArg.eq_of_sameAll _ _ h.2]
  | .array t, u, h => by
    cases u <;> simp [Ty.same] at h
    rw [Ty.eq_of_same _ _ h]
  | .function ps r, u, h => by
    cases u <;> simp [Ty.same] at h
    rw [Ty.eq_of_sameAll _ _ h.1, Ty.eq_of_same _ _ h.2]
  | .typeVar n b, u, h => by
    cases u <;> simp [Ty.same] at h
    rw [h.1, Ty.eq_of_sameBound _ _ h.2]
  | .null, u, h => by
    cases u <;> simp [Ty.same] at h
    rfl

/-- Type arguments that compare as the same are equal. -/
theorem TypeArg.eq_of_same : (a b : TypeArg) → a.same b = true → a = b
  | .exactly t, b, h => by
    cases b <;> simp [TypeArg.same] at h
    rw [Ty.eq_of_same _ _ h]
  | .extending t, b, h => by
    cases b <;> simp [TypeArg.same] at h
    rw [Ty.eq_of_same _ _ h]
  | .superOf t, b, h => by
    cases b <;> simp [TypeArg.same] at h
    rw [Ty.eq_of_same _ _ h]
  | .wildcard, b, h => by
    cases b <;> simp [TypeArg.same] at h
    rfl

theorem Ty.eq_of_sameAll : (ts us : List Ty) → Ty.sameAll ts us = true → ts = us
  | [], us, h => by
    cases us <;> simp [Ty.sameAll] at h
    rfl
  | t :: ts, us, h => by
    cases us <;> simp [Ty.sameAll] at h
    rw [Ty.eq_of_same _ _ h.1, Ty.eq_of_sameAll _ _ h.2]

theorem TypeArg.eq_of_sameAll : (as bs : List TypeArg) → TypeArg.sameAll as bs = true → as = bs
  | [], bs, h => by
    cases bs <;> simp [TypeArg.sameAll] at h
    rfl
  | a :: as, bs, h => by
    cases bs <;> simp [TypeArg.sameAll] at h
    rw [TypeArg.eq_of_same _ _ h.1, TypeArg.eq_of_sameAll _ _ h.2]

theorem Ty.eq_of_sameBound : (b c : Option Ty) → Ty.sameBound b c = true → b = c
  | none, c, h => by
    cases c <;> simp [Ty.sameBound] at h
    rfl
  | some t, c, h => by
    cases c <;> simp [Ty.sameBound] at h
    rw [Ty.eq_of_same _ _ h]

end

mutual

theorem Ty.same_self : (t : Ty) → t.same t = true
  | .primitive p => by simp [Ty.same]
  | .object n as => by simp [Ty.same, TypeArg.sameAll_self as]
  | .array t => by simp [Ty.same, Ty.same_self t]
  | .function ps r => by simp [Ty.same, Ty.sameAll_self ps, Ty.same_self r]
  | .typeVar n b => by simp [Ty.same, Ty.sameBound_self b]
  | .null => by simp [Ty.same]

theorem TypeArg.same_self : (a : TypeArg) → a.same a = true
  | .exactly t => by simp [TypeArg.same, Ty.same_self t]
  | .extending t => by simp [TypeArg.same, Ty.same_self t]
  | .superOf t => by simp [TypeArg.same, Ty.same_self t]
  | .wildcard => by simp [TypeArg.same]

theorem Ty.sameAll_self : (ts : List Ty) → Ty.sameAll ts ts = true
  | [] => by simp [Ty.sameAll]
  | t :: ts => by simp [Ty.sameAll, Ty.same_self t, Ty.sameAll_self ts]

theorem TypeArg.sameAll_self : (as : List TypeArg) → TypeArg.sameAll as as = true
  | [] => by simp [TypeArg.sameAll]
  | a :: as => by simp [TypeArg.sameAll, TypeArg.same_self a, TypeArg.sameAll_self as]

theorem Ty.sameBound_self : (b : Option Ty) → Ty.sameBound b b = true
  | none => by simp [Ty.sameBound]
  | some t => by simp [Ty.sameBound, Ty.same_self t]

end

/-- Equality of types is decided by their shapes. -/
instance : DecidableEq Ty := fun t u =>
  if h : t.same u = true then
    .isTrue (t.eq_of_same u h)
  else
    .isFalse fun e => h (e ▸ t.same_self)

/-- Equality of type arguments is decided by their shapes. -/
instance : DecidableEq TypeArg := fun a b =>
  if h : a.same b = true then
    .isTrue (a.eq_of_same b h)
  else
    .isFalse fun e => h (e ▸ a.same_self)

deriving instance DecidableEq for ClassType
deriving instance DecidableEq for TypeVar
deriving instance DecidableEq for MethodType

end ClassForge
