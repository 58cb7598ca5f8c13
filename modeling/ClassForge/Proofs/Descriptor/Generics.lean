import ClassForge.Proofs.Descriptor.RoundTrip
import ClassForge.Proofs.Pool.Capacity

/-!
# Generic types

A type needs a signature beside its descriptor exactly if it is generic. Two texts are comparable
if one of them begins with the other. The signature and the descriptor of a generic type are not
even that: they differ at a place that both of them have, so no text that follows makes up for the
difference. The erased shape of a type is not generic, has the descriptor of the type, and stands
under the same name in the constant pool.
-/

namespace ClassForge

open ConstantPool

/-! ### Comparable texts -/

/-- One of the texts begins with the other. -/
def Comparable (a b : List Char) : Prop :=
  a <+: b ∨ b <+: a

namespace Comparable

variable {a b c d : List Char}

theorem refl (a : List Char) :
  Comparable a a
  := .inl (List.prefix_refl a)

/-- What comparable texts begin with is comparable. -/
theorem of_append (h : Comparable (a ++ c) (b ++ d)) :
  Comparable a b
  := by
  rcases h with h | h
  · apply List.prefix_or_prefix_of_prefix ((List.prefix_append a c).trans h)
    apply List.prefix_append
  · apply List.prefix_or_prefix_of_prefix (List.prefix_append a c)
    apply (List.prefix_append b d).trans h

theorem append_left_iff :
  Comparable (a ++ c) (a ++ d) ↔ Comparable c d
  := by
  rw [Comparable, Comparable, List.prefix_append_right_inj, List.prefix_append_right_inj]

theorem cons_iff {x y : Char} :
  Comparable (x :: c) (y :: d) ↔ x = y ∧ Comparable c d
  := by
  rw [Comparable, Comparable, List.cons_prefix_cons, List.cons_prefix_cons]
  tauto

end Comparable

/-! ### Signatures and descriptors -/

mutual

/-- A type that is not generic has its descriptor for a signature. -/
theorem Ty.render_of_not_isGeneric : (t : Ty) → t.isGeneric = false →
    t.render .generic = t.render .erased
  | .primitive _, _ => rfl
  | .object _ args, h => by
      rw [Ty.isGeneric, Bool.not_eq_false'] at h
      simp only [Ty.render, h, if_pos]
  | .array elem, h => by
      rw [Ty.isGeneric] at h
      rw [Ty.render, Ty.render, Ty.render_of_not_isGeneric elem h]
  | .function params result, h => by
      rw [Ty.isGeneric, Bool.or_eq_false_iff] at h
      rw [Ty.render, Ty.render, Ty.renderAll_of_not_anyGeneric params h.1,
        Ty.render_of_not_isGeneric result h.2]
  | .typeVar _ _, h => by
      rw [Ty.isGeneric] at h
      contradiction
  | .null, _ => rfl

theorem Ty.renderAll_of_not_anyGeneric : (ts : List Ty) → Ty.anyGeneric ts = false →
    Ty.renderAll .generic ts = Ty.renderAll .erased ts
  | [], _ => rfl
  | t :: ts, h => by
      rw [Ty.anyGeneric, Bool.or_eq_false_iff] at h
      rw [Ty.renderAll, Ty.renderAll, Ty.render_of_not_isGeneric t h.1,
        Ty.renderAll_of_not_anyGeneric ts h.2]

end

mutual

/-- No descriptor begins with the letter of type variables. -/
theorem Ty.exists_render_erased_eq_cons : (t : Ty) →
    ∃ c rest, (t.render .erased).toList = c :: rest ∧ c ≠ 'T'
  | .primitive p => by
      use p.letter, [], by simp [Ty.render]
      cases p <;> decide
  | .object name args => by
      use 'L', name.internal.toList ++ [';']
      simp [Ty.render]
  | .array elem => by
      use '[', (elem.render .erased).toList
      simp [Ty.render]
  | .function params result => by
      use '(', (Ty.renderAll .erased params).toList ++ ')' :: (result.render .erased).toList
      simp [Ty.render]
  | .typeVar _ bound => by
      rw [Ty.render]
      apply Ty.exists_renderBound_erased_eq_cons bound
  | .null => by
      use 'L', ClassName.object.internal.toList ++ [';']
      simp [Ty.render]

theorem Ty.exists_renderBound_erased_eq_cons : (bound : Option Ty) →
    ∃ c rest, (Ty.renderBound .erased bound).toList = c :: rest ∧ c ≠ 'T'
  | none => by
      use 'L', ClassName.object.internal.toList ++ [';']
      simp [Ty.renderBound]
  | some bound => by
      rw [Ty.renderBound]
      apply Ty.exists_render_erased_eq_cons bound

end

mutual

/-- The signature and the descriptor of a generic type are not comparable. For a method type the
first component in which they differ decides, whatever comes after it. -/
theorem Ty.not_isGeneric_of_comparable : (t : Ty) →
    Comparable (t.render .generic).toList (t.render .erased).toList → t.isGeneric = false
  | .primitive _, _ => rfl
  | .object name args, h => by
      rw [Ty.isGeneric, Bool.not_eq_false']
      by_contra hargs
      simp only [Ty.render, if_neg hargs, String.toList_append, List.append_assoc] at h
      simp [Comparable.append_left_iff, Comparable.cons_iff] at h
  | .array elem, h => by
      simp only [Ty.render, String.toList_append, Comparable.append_left_iff] at h
      rw [Ty.isGeneric]
      apply Ty.not_isGeneric_of_comparable elem h
  | .function params result, h => by
      simp only [Ty.render, String.toList_append, List.append_assoc,
        Comparable.append_left_iff] at h
      have hparams := Ty.not_anyGeneric_of_comparable params h.of_append
      rw [Ty.renderAll_of_not_anyGeneric params hparams, Comparable.append_left_iff,
        Comparable.append_left_iff] at h
      rw [Ty.isGeneric, hparams, Ty.not_isGeneric_of_comparable result h]
      rfl
  | .typeVar name bound, h => by
      obtain ⟨c, rest, hcons, hne⟩ := (Ty.typeVar name bound).exists_render_erased_eq_cons
      rw [hcons] at h
      simp only [Ty.render, String.toList_append] at h
      obtain ⟨rfl, -⟩ := Comparable.cons_iff.mp h
      contradiction
  | .null, _ => rfl

/-- The first type whose signature differs from its descriptor decides for a list. -/
theorem Ty.not_anyGeneric_of_comparable : (ts : List Ty) →
    Comparable (Ty.renderAll .generic ts).toList (Ty.renderAll .erased ts).toList →
      Ty.anyGeneric ts = false
  | [], _ => rfl
  | t :: ts, h => by
      simp only [Ty.renderAll, String.toList_append] at h
      have ht := Ty.not_isGeneric_of_comparable t h.of_append
      rw [Ty.render_of_not_isGeneric t ht, Comparable.append_left_iff] at h
      rw [Ty.anyGeneric, ht, Ty.not_anyGeneric_of_comparable ts h]
      rfl

end

/-- A type is generic exactly if its signature is not its descriptor. -/
theorem Ty.isGeneric_iff_signature_ne_descriptor (t : Ty) :
  t.isGeneric = true ↔ t.signature ≠ t.descriptor
  := by
  rw [← not_iff_not, Bool.not_eq_true, not_not]
  constructor
  · apply t.render_of_not_isGeneric
  · intro heq
    apply t.not_isGeneric_of_comparable
    rw [Ty.signature, Ty.descriptor] at heq
    rw [heq]
    apply Comparable.refl

/-! ### Erased shapes -/

mutual

/-- An erased shape is erased already. -/
theorem Ty.erasure_erasure : (t : Ty) → t.erasure.erasure = t.erasure
  | .primitive _ => rfl
  | .object _ _ => rfl
  | .array elem => by rw [Ty.erasure, Ty.erasure, Ty.erasure_erasure elem]
  | .function params result => by
      rw [Ty.erasure, Ty.erasure, Ty.erasureAll_erasureAll params, Ty.erasure_erasure result]
  | .typeVar _ bound => by rw [Ty.erasure, Ty.erasure_erasureBound bound]
  | .null => rfl

theorem Ty.erasureAll_erasureAll :
  (ts : List Ty) → Ty.erasureAll (Ty.erasureAll ts) = Ty.erasureAll ts
  | [] => rfl
  | t :: ts => by
      rw [Ty.erasureAll, Ty.erasureAll, Ty.erasure_erasure t, Ty.erasureAll_erasureAll ts]

theorem Ty.erasure_erasureBound :
  (bound : Option Ty) → (Ty.erasureBound bound).erasure = Ty.erasureBound bound
  | none => rfl
  | some bound => by rw [Ty.erasureBound, Ty.erasure_erasure bound]

end

mutual

/-- An erased shape is not generic. -/
theorem Ty.isGeneric_erasure : (t : Ty) → t.erasure.isGeneric = false
  | .primitive _ => rfl
  | .object _ _ => rfl
  | .array elem => by rw [Ty.erasure, Ty.isGeneric, Ty.isGeneric_erasure elem]
  | .function params result => by
      rw [Ty.erasure, Ty.isGeneric, Ty.anyGeneric_erasureAll params, Ty.isGeneric_erasure result]
      rfl
  | .typeVar _ bound => by rw [Ty.erasure, Ty.isGeneric_erasureBound bound]
  | .null => rfl

theorem Ty.anyGeneric_erasureAll :
  (ts : List Ty) → Ty.anyGeneric (Ty.erasureAll ts) = false
  | [] => rfl
  | t :: ts => by
      rw [Ty.erasureAll, Ty.anyGeneric, Ty.isGeneric_erasure t, Ty.anyGeneric_erasureAll ts]
      rfl

theorem Ty.isGeneric_erasureBound :
  (bound : Option Ty) → (Ty.erasureBound bound).isGeneric = false
  | none => rfl
  | some bound => by rw [Ty.erasureBound, Ty.isGeneric_erasure bound]

end

/-- The text of an erased shape is the descriptor of the type, in either style. -/
theorem Ty.render_style_erasure (t : Ty) (style : Style) :
  t.erasure.render style = t.descriptor
  := by
  cases style with
  | erased => apply t.descriptor_erasure
  | generic =>
      rw [Ty.render_of_not_isGeneric _ t.isGeneric_erasure]
      apply t.descriptor_erasure

/-- The name of a class is unwrapped from its descriptor. -/
theorem unwrapObject?_render_object (name : ClassName) (args : List TypeArg) :
  unwrapObject? (Ty.object name args).descriptor = some name.internal
  := by
  have htext : (Ty.object name args).descriptor.toList
      = 'L' :: (name.internal.toList ++ [';']) := by
    simp [Ty.descriptor, Ty.render]
  simp only [unwrapObject?, htext, List.getLast?_append, List.getLast?_singleton,
    Option.some_or, if_pos, List.dropLast_concat, String.ofList_toList]

theorem unwrapObject?_render_array (elem : Ty) :
  unwrapObject? (Ty.array elem).descriptor = none
  := by
  have htext : (Ty.array elem).descriptor.toList = '[' :: elem.descriptor.toList := by
    simp [Ty.descriptor, Ty.render]
  rw [unwrapObject?, htext]
  rfl

/-- The name of a type in the pool is found in its descriptor alone. -/
theorem Ty.entryName_eq_getD (t : Ty) :
  t.entryName = (unwrapObject? t.descriptor).getD t.descriptor
  := by
  cases t with
  | object name args => rw [unwrapObject?_render_object, Ty.entryName, Option.getD_some]
  | array elem => rw [unwrapObject?_render_array, Ty.entryName, Option.getD_none]
  | _ => rfl

theorem Ty.entryName_erasure (t : Ty) :
  t.erasure.entryName = t.entryName
  := by
  rw [Ty.entryName_eq_getD, Ty.entryName_eq_getD, Ty.descriptor_erasure]

theorem unwrapObject?_render_function (params : List Ty) (result : Ty) :
  unwrapObject? (Ty.function params result).descriptor = none
  := by
  have htext : (Ty.function params result).descriptor.toList
      = '(' :: ((Ty.renderAll .erased params).toList ++ ')' :: result.descriptor.toList) := by
    simp [Ty.descriptor, Ty.render]
  rw [unwrapObject?, htext]
  rfl

mutual

/-- No descriptor but that of a class is taken for one. -/
theorem Ty.unwrapObject?_descriptor : (t : Ty) → (∀ name, t.erasure ≠ .object name []) →
    unwrapObject? t.descriptor = none
  | .primitive p, _ => by cases p <;> rfl
  | .object name _, h => absurd rfl (h name)
  | .array elem, _ => unwrapObject?_render_array elem
  | .function params result, _ => unwrapObject?_render_function params result
  | .typeVar _ bound, h => by
      rw [Ty.erasure] at h
      rw [Ty.descriptor, Ty.render]
      apply Ty.unwrapObject?_renderBound bound h
  | .null, h => absurd rfl (h .object)

theorem Ty.unwrapObject?_renderBound :
  (bound : Option Ty) → (∀ name, Ty.erasureBound bound ≠ .object name []) →
    unwrapObject? (Ty.renderBound .erased bound) = none
  | none, h => absurd rfl (h .object)
  | some bound, h => by
      rw [Ty.erasureBound] at h
      rw [Ty.renderBound]
      apply Ty.unwrapObject?_descriptor bound h

end

/-- A type that erases to a class is entered under the name of the class. -/
theorem Ty.entryName_of_erasure_eq {t : Ty} {name : ClassName} (h : t.erasure = .object name []) :
  t.entryName = name.internal
  := by
  rw [← Ty.entryName_erasure, h]
  rfl

/-- Any other type is entered under its descriptor. -/
theorem Ty.entryName_of_erasure_ne {t : Ty} (h : ∀ name, t.erasure ≠ .object name []) :
  t.entryName = t.descriptor
  := by
  rw [Ty.entryName_eq_getD, Ty.unwrapObject?_descriptor t h, Option.getD_none]

theorem PoolEntry.ofClass_erasure (t : Ty) :
  PoolEntry.ofClass t.erasure = PoolEntry.ofClass t
  := by
  rw [PoolEntry.ofClass, PoolEntry.ofClass, Ty.entryName_erasure]

/-- The erased shape of a type is erased already and stands for the type: it has the same
descriptor, is written alike in either style, and is found in the pool where the type was entered,
and the other way round. They are entered under the name of the class if this is what the type
erases to, and under the descriptor otherwise. The descriptor of a method is the text of the erased
shape of its type. -/
theorem Ty.erasure_standsFor (t : Ty) :
  t.erasure.erasure = t.erasure
    ∧ t.erasure.isGeneric = false
    ∧ t.descriptor = t.erasure.descriptor
    ∧ t.erasure.descriptor = t.erasure.signature
    ∧ t.entryName = t.erasure.entryName
    ∧ (∀ name, t.erasure = .object name [] → t.entryName = name.internal)
    ∧ ((∀ name, t.erasure ≠ .object name []) → t.entryName = t.descriptor)
    ∧ (∀ requests more i pool', intern (.ofClass t) (serveAll requests) = .ok i pool' →
      (serveAll (requests ++ .classOf t :: more)).freeze.classIndex t.erasure = .ok i)
    ∧ (∀ requests more i pool', intern (.ofClass t.erasure) (serveAll requests) = .ok i pool' →
      (serveAll (requests ++ .classOf t.erasure :: more)).freeze.classIndex t = .ok i)
    ∧ ∀ params result style, (MethodType.mk params result).descriptor
      = (Ty.function params result).erasure.render style
  := by
  refine ⟨t.erasure_erasure, t.isGeneric_erasure, t.descriptor_erasure.symm, ?_,
    t.entryName_erasure.symm, fun _ => Ty.entryName_of_erasure_eq, Ty.entryName_of_erasure_ne, ?_,
    ?_, ?_⟩
  · rw [Ty.signature, Ty.render_style_erasure, Ty.descriptor_erasure]
  · intro requests more i pool' hintern
    rw [FrozenPool.classIndex, PoolEntry.ofClass_erasure]
    apply indexOf_of_request (.classOf t) requests more hintern
  · intro requests more i pool' hintern
    rw [FrozenPool.classIndex, ← PoolEntry.ofClass_erasure]
    apply indexOf_of_request (.classOf t.erasure) requests more hintern
  · intro params result style
    rw [Ty.render_style_erasure, ← MethodType.descriptor_toTy]
    rfl

end ClassForge
