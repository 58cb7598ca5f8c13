import ClassForge.Descriptor.Render
import ClassForge.Proofs.Descriptor.Grammar

/-!
# Slots told by descriptors

The descriptor of a field tells how many slots its value takes, and the descriptor of a method
how many its arguments and its result take. For this the names of classes need not be such that
they are read back as they are: it is enough that they are not empty and have no semicolon in
them.
-/

namespace ClassForge

/-- The erased shapes of types whose values are described: neither `void` nor functions, nor
arrays of such, and only names of classes that are not empty and have no semicolon in them. -/
inductive Ty.IsDescribed : Ty → Prop
  | primitive {p : Primitive} (h : p ≠ .void) : IsDescribed (.primitive p)
  | object {name : ClassName} (hne : name.internal ≠ "") (h : ';' ∉ name.internal.toList) :
      IsDescribed (.object name [])
  | array {elem : Ty} (h : elem.IsDescribed) : IsDescribed (.array elem)

/-- The types of a method whose arguments and whose result are described. -/
structure MethodType.IsDescribed (m : MethodType) : Prop where
  params : ∀ t ∈ m.params, t.IsDescribed
  result : m.result = .void ∨ m.result.IsDescribed

/-- The descriptor of a described type is derived, with the slots of the type. -/
theorem Ty.IsDescribed.exists_tree {t : Ty} (h : t.IsDescribed) :
  ∃ f : FieldTree, f.text = t.descriptor.toList ∧ f.type.slots = t.slots
  := by
  induction h with
  | @primitive p hvoid =>
      have hp : Primitive.ofLetter? p.letter = some p :=
        Primitive.ofLetter?_eq_some_iff.mpr ⟨hvoid, rfl⟩
      use .base p.letter (Primitive.letter_mem_baseLetters hvoid)
      constructor
      · simp [FieldTree.text, Ty.descriptor, Ty.render]
      · simp only [FieldTree.type, hp, Option.get_some]
  | @object name hne hsemicolon =>
      have hne : name.internal.toList ≠ [] := by simpa using hne
      use .object name.internal.toList hne hsemicolon
      constructor
      · simp [FieldTree.text, Ty.descriptor, Ty.render]
      · simp [FieldTree.type, Ty.ofInternal, Ty.slots]
  | array _ ih =>
      obtain ⟨f, htext, -⟩ := ih
      use .array f
      constructor
      · rw [FieldTree.text, htext]
        simp [Ty.descriptor, Ty.render]
      · rfl

/-- The descriptors of described types are derived one after another, with the slots of the types.
-/
theorem Ty.exists_trees_of_isDescribed {ts : List Ty} (h : ∀ t ∈ ts, t.IsDescribed) :
  ∃ fs : List FieldTree, fs.flatMap FieldTree.text = (Ty.renderAll .erased ts).toList
    ∧ slotsOf (fs.map FieldTree.type) = slotsOf ts
  := by
  induction ts with
  | nil =>
      use []
      exact ⟨rfl, rfl⟩
  | cons t ts ih =>
      obtain ⟨ht, hts⟩ := List.forall_mem_cons.mp h
      obtain ⟨f, htext, hslots⟩ := ht.exists_tree
      obtain ⟨fs, htexts, hall⟩ := ih hts
      use f :: fs
      constructor
      · rw [List.flatMap_cons, htext, htexts, Ty.renderAll, String.toList_append, Ty.descriptor]
      · change f.type.slots + slotsOf (fs.map FieldTree.type) = t.slots + slotsOf ts
        rw [hslots, hall]

/-- The descriptor of a result is derived, with the slots of the result. -/
theorem Ty.exists_resultTree_of_isDescribed {t : Ty} (h : t = .void ∨ t.IsDescribed) :
  ∃ f, FieldTree.resultText f = t.descriptor.toList
    ∧ (FieldTree.resultType f).slots = t.slots
  := by
  rcases h with rfl | hdescribed
  · use none
    exact ⟨rfl, rfl⟩
  · obtain ⟨f, hf⟩ := hdescribed.exists_tree
    use some f
    exact hf

/-- The descriptor of a field tells the slots of its value. -/
theorem Ty.IsDescribed.slots_ofDescriptor {t : Ty} (h : t.IsDescribed) :
  ∃ t', Ty.ofDescriptor t.descriptor = .ok t' ∧ t'.slots = t.slots
  := by
  obtain ⟨f, htext, hslots⟩ := h.exists_tree
  use f.type, Ty.ofDescriptor_eq_ok_iff.mpr ⟨f, htext, rfl⟩

/-- The descriptor of a method tells the slots of its arguments and of its result. -/
theorem MethodType.IsDescribed.slots_ofDescriptor {m : MethodType} (h : m.IsDescribed) :
  ∃ m', MethodType.ofDescriptor m.descriptor = .ok m' ∧ slotsOf m'.params = slotsOf m.params
    ∧ m'.result.slots = m.result.slots
  := by
  obtain ⟨params, htexts, hparams⟩ := Ty.exists_trees_of_isDescribed h.params
  obtain ⟨result, htext, hresult⟩ := Ty.exists_resultTree_of_isDescribed h.result
  have hm : (MethodTree.mk params result).text = m.descriptor.toList := by
    rw [MethodTree.text, htexts, htext, MethodType.descriptor]
    simp
  use MethodTree.type ⟨params, result⟩, MethodType.ofDescriptor_eq_ok_iff.mpr ⟨_, hm, rfl⟩, hparams
  apply hresult

end ClassForge
