import ClassForge.Descriptor.Render
import ClassForge.Proofs.Descriptor.Grammar
import ClassForge.Proofs.Descriptor.Names

/-!
# Descriptors that are read back

The descriptor of a type is that of its erased shape. If the shape is one of fields, then its
descriptor is derived from the grammar, so it is read back as the shape, whatever follows it; and
so is the descriptor of a method whose parameters and result have such shapes. Conversely, what is
accepted as a descriptor is written again as it was read, as long as no name in it has its only
slash in front.
-/

namespace ClassForge

/-! ### Erased shapes -/

mutual

/-- A type and its erased shape have the same erased text. -/
theorem Ty.render_erasure : (t : Ty) → t.erasure.render .erased = t.render .erased
  | .primitive _ => rfl
  | .object _ _ => by rw [Ty.erasure, Ty.render, Ty.render]
  | .array elem => by rw [Ty.erasure, Ty.render, Ty.render, Ty.render_erasure elem]
  | .function params result => by
      rw [Ty.erasure, Ty.render, Ty.render, Ty.renderAll_erasureAll params,
        Ty.render_erasure result]
  | .typeVar _ bound => by rw [Ty.erasure, Ty.render, Ty.render_erasureBound bound]
  | .null => rfl

theorem Ty.renderAll_erasureAll :
  (ts : List Ty) → Ty.renderAll .erased (Ty.erasureAll ts) = Ty.renderAll .erased ts
  | [] => rfl
  | t :: ts => by
      rw [Ty.erasureAll, Ty.renderAll, Ty.renderAll, Ty.render_erasure t,
        Ty.renderAll_erasureAll ts]

theorem Ty.render_erasureBound :
  (bound : Option Ty) → (Ty.erasureBound bound).render .erased = Ty.renderBound .erased bound
  | none => rfl
  | some bound => by rw [Ty.erasureBound, Ty.renderBound, Ty.render_erasure bound]

end

/-- A type and its erased shape have the same descriptor. -/
theorem Ty.descriptor_erasure (t : Ty) :
  t.erasure.descriptor = t.descriptor
  := t.render_erasure

/-- The descriptor of a method is that of its type. -/
theorem MethodType.descriptor_toTy (m : MethodType) :
  m.toTy.descriptor = m.descriptor
  := by
  rw [Ty.descriptor, MethodType.toTy, Ty.render]
  rfl

/-- The erased shapes of the types that fields have: neither `void` nor functions, nor arrays of
such, and only proper names of classes. -/
inductive Ty.IsFieldShape : Ty → Prop
  | primitive {p : Primitive} (h : p ≠ .void) : IsFieldShape (.primitive p)
  | object {name : ClassName} (h : name.IsProper) : IsFieldShape (.object name [])
  | array {elem : Ty} (h : elem.IsFieldShape) : IsFieldShape (.array elem)

/-! ### Reading what was written -/

/-- The descriptor of a field shape is derived. -/
theorem Ty.IsFieldShape.exists_tree {t : Ty} (h : t.IsFieldShape) :
  ∃ f : FieldTree, f.text = t.descriptor.toList ∧ f.type = t
  := by
  induction h with
  | @primitive p hvoid =>
      have hp : Primitive.ofLetter? p.letter = some p :=
        Primitive.ofLetter?_eq_some_iff.mpr ⟨hvoid, rfl⟩
      use .base p.letter (Primitive.letter_mem_baseLetters hvoid)
      constructor
      · simp [FieldTree.text, Ty.descriptor, Ty.render]
      · simp only [FieldTree.type, hp, Option.get_some]
  | @object name hproper =>
      have hne : name.internal.toList ≠ [] := by
        simpa using ClassName.internal_ne_empty hproper
      use .object name.internal.toList hne (ClassName.not_mem_internal hproper)
      constructor
      · simp [FieldTree.text, Ty.descriptor, Ty.render]
      · rw [FieldTree.type, Ty.ofInternal, String.ofList_toList,
          ClassName.ofInternal_internal hproper]
  | array _ ih =>
      obtain ⟨f, htext, htype⟩ := ih
      use .array f
      constructor
      · rw [FieldTree.text, htext]
        simp [Ty.descriptor, Ty.render]
      · rw [FieldTree.type, htype]

/-- The descriptors of types with field shapes are derived one after another. -/
theorem Ty.exists_trees {ts : List Ty} (h : ∀ t ∈ ts, t.erasure.IsFieldShape) :
  ∃ fs : List FieldTree, fs.flatMap FieldTree.text = (Ty.renderAll .erased ts).toList
    ∧ fs.map FieldTree.type = ts.map Ty.erasure
  := by
  induction ts with
  | nil =>
      use []
      exact ⟨rfl, rfl⟩
  | cons t ts ih =>
      obtain ⟨ht, hts⟩ := List.forall_mem_cons.mp h
      obtain ⟨f, htext, htype⟩ := ht.exists_tree
      obtain ⟨fs, htexts, htypes⟩ := ih hts
      use f :: fs
      constructor
      · rw [List.flatMap_cons, htext, htexts, Ty.descriptor_erasure, Ty.renderAll,
          String.toList_append]
        rfl
      · rw [List.map_cons, List.map_cons, htype, htypes]

/-- The descriptor of a result is derived. -/
theorem Ty.exists_resultTree {t : Ty} (h : t.erasure = .void ∨ t.erasure.IsFieldShape) :
  ∃ f, FieldTree.resultText f = t.descriptor.toList ∧ FieldTree.resultType f = t.erasure
  := by
  rw [← Ty.descriptor_erasure]
  rcases h with hvoid | hshape
  · rw [hvoid]
    use none
    exact ⟨rfl, rfl⟩
  · obtain ⟨f, hf⟩ := hshape.exists_tree
    use some f
    exact hf

/-- The descriptor of a method is derived if its types have field shapes. -/
theorem MethodType.exists_tree {m : MethodType} (hparams : ∀ t ∈ m.params, t.erasure.IsFieldShape)
    (hresult : m.result.erasure = .void ∨ m.result.erasure.IsFieldShape) :
  ∃ f : MethodTree, f.text = m.descriptor.toList ∧ f.type = m.erasure
  := by
  obtain ⟨params, htexts, htypes⟩ := Ty.exists_trees hparams
  obtain ⟨result, htext, htype⟩ := Ty.exists_resultTree hresult
  use ⟨params, result⟩
  constructor
  · rw [MethodTree.text, htexts, htext, MethodType.descriptor]
    simp
  · rw [MethodTree.type, htypes, htype, MethodType.erasure]

/-- Descriptors are read back as the erased shapes of what they describe, whatever follows them:
those of types whose erased shape is one of fields, and those of methods whose parameters have
such types and whose result has such a type or is `void`. -/
theorem descriptor_readsBack :
  (∀ t : Ty, t.erasure.IsFieldShape →
    (∀ rest, Ty.read? (t.descriptor.toList ++ rest) = some (t.erasure, rest))
      ∧ Ty.ofDescriptor t.descriptor = .ok t.erasure)
  ∧ ∀ m : MethodType, (∀ t ∈ m.params, t.erasure.IsFieldShape) →
    m.result.erasure = .void ∨ m.result.erasure.IsFieldShape →
      (∀ rest, MethodType.read? (m.descriptor.toList ++ rest) = some (m.erasure, rest))
        ∧ MethodType.ofDescriptor m.descriptor = .ok m.erasure
        ∧ m.toTy.descriptor = m.descriptor
  := by
  constructor
  · intro t hshape
    obtain ⟨f, htext, htype⟩ := hshape.exists_tree
    rw [Ty.descriptor_erasure] at htext
    constructor
    · intro rest
      apply Ty.read?_eq_some_iff.mpr
      use f, by rw [htext], htype
    · apply Ty.ofDescriptor_eq_ok_iff.mpr
      use f, htext, htype
  · intro m hparams hresult
    obtain ⟨f, htext, htype⟩ := MethodType.exists_tree hparams hresult
    refine ⟨?_, ?_, m.descriptor_toTy⟩
    · intro rest
      apply MethodType.read?_eq_some_iff.mpr
      use f, by rw [htext], htype
    · apply MethodType.ofDescriptor_eq_ok_iff.mpr
      use f, htext, htype

/-- A list of map entries, `Map.Entry<K, ?>[]`. -/
def entryList : Ty :=
  .array (.object ⟨["java", "util"], ["Map", "Entry"]⟩ [.exactly (.typeVar "K" none), .wildcard])

/-- A method that takes map entries, a key and a number. -/
def entryLookup : MethodType :=
  ⟨[entryList, .typeVar "K" none, .primitive .long], .void⟩

/-- The entries of a map and a method that looks them up are read back, whatever follows. -/
theorem entryLookup_readsBack :
  (entryList.erasure.IsFieldShape
    ∧ ∀ rest, Ty.read? (entryList.descriptor.toList ++ rest)
      = some (.array (.object ⟨["java", "util"], ["Map", "Entry"]⟩ []), rest))
  ∧ (∀ t ∈ entryLookup.params, t.erasure.IsFieldShape)
  ∧ ∀ rest, MethodType.read? (entryLookup.descriptor.toList ++ rest)
    = some (⟨[entryList.erasure, .object .object [], .primitive .long], .void⟩, rest)
  := by
  have hentry : (ClassName.mk ["java", "util"] ["Map", "Entry"]).IsProper := by
    constructor <;> simp
  have hobject : ClassName.object.IsProper := by
    constructor <;> simp [ClassName.object]
  have hlist : entryList.erasure.IsFieldShape := .array (.object hentry)
  have hparams : ∀ t ∈ entryLookup.params, t.erasure.IsFieldShape := by
    intro t ht
    simp only [entryLookup, List.mem_cons, List.not_mem_nil, or_false] at ht
    rcases ht with rfl | rfl | rfl
    · apply hlist
    · apply Ty.IsFieldShape.object hobject
    · apply Ty.IsFieldShape.primitive
      decide
  use ⟨hlist, (descriptor_readsBack.1 entryList hlist).1⟩, hparams
  apply (descriptor_readsBack.2 entryLookup hparams (.inl rfl)).1

/-! ### Writing what was read -/

/-- A derived text without lost slashes is the descriptor of what it describes. -/
theorem FieldTree.descriptor_type {f : FieldTree}
    (h : ∀ name ∈ f.classNames, ¬ ClassName.SlashOnlyFirst name) :
  f.type.descriptor.toList = f.text
  := by
  induction f with
  | base letter hletter =>
      obtain ⟨p, hp⟩ := Option.isSome_iff_exists.mp (Primitive.isSome_ofLetter? hletter)
      obtain ⟨-, rfl⟩ := Primitive.ofLetter?_eq_some_iff.mp hp
      simp only [type, hp, Option.get_some]
      simp [text, Ty.descriptor, Ty.render]
  | object name hne hsemicolon =>
      have hslash : ¬ ClassName.SlashOnlyFirst (String.ofList name).toList := by
        rw [String.toList_ofList]
        apply h name List.mem_cons_self
      rw [type, Ty.ofInternal, Ty.descriptor, Ty.render, ClassName.internal_ofInternal hslash]
      simp [text]
  | array elem ih =>
      rw [type, text, ← ih h]
      simp [Ty.descriptor, Ty.render]

/-- The types of derivations are rendered as the derived texts, unless a name has its only slash in
front. -/
theorem FieldTree.renderAll_types {fs : List FieldTree}
    (h : ∀ f ∈ fs, ∀ name ∈ f.classNames, ¬ ClassName.SlashOnlyFirst name) :
  (Ty.renderAll .erased (fs.map FieldTree.type)).toList = fs.flatMap FieldTree.text
  := by
  induction fs with
  | nil => rfl
  | cons f fs ih =>
      obtain ⟨hf, hfs⟩ := List.forall_mem_cons.mp h
      rw [List.map_cons, Ty.renderAll, String.toList_append, ih hfs, List.flatMap_cons,
        ← FieldTree.descriptor_type hf]
      rfl

/-- The type of a derivation is rendered as the derived text, unless a name has its only slash in
front. -/
theorem MethodTree.descriptor_type {f : MethodTree}
    (h : ∀ name ∈ f.classNames, ¬ ClassName.SlashOnlyFirst name) :
  f.type.descriptor.toList = f.text
  := by
  have hfields : ∀ g ∈ f.params ++ f.result.toList, ∀ name ∈ g.classNames,
      ¬ ClassName.SlashOnlyFirst name := by
    intro g hg name hname
    apply h name (List.mem_flatMap.mpr ⟨g, hg, hname⟩)
  have hparams := FieldTree.renderAll_types fun g hg => hfields g (List.mem_append_left _ hg)
  have hresult : (FieldTree.resultType f.result).descriptor.toList
      = FieldTree.resultText f.result := by
    cases hf : f.result with
    | none => rfl
    | some g =>
        apply FieldTree.descriptor_type
        apply hfields g
        simp [hf]
  rw [MethodType.descriptor, MethodTree.type]
  simp [hparams, hresult, MethodTree.text]

/-- A text is accepted exactly if it is derived from the grammar, and what is accepted is written
again as it was read, unless the only slash of a name in it is its first character. -/
theorem descriptor_accepted_iff (text : String) :
  ((∃ t, Ty.ofDescriptor text = .ok t) ↔ ∃ f : FieldTree, f.text = text.toList)
  ∧ ((∃ m, MethodType.ofDescriptor text = .ok m) ↔ ∃ f : MethodTree, f.text = text.toList)
  ∧ (∀ (f : FieldTree) (t : Ty), f.text = text.toList →
    (∀ name ∈ f.classNames, ¬ ClassName.SlashOnlyFirst name) →
      Ty.ofDescriptor text = .ok t → t.descriptor = text)
  ∧ ∀ (f : MethodTree) (m : MethodType), f.text = text.toList →
    (∀ name ∈ f.classNames, ¬ ClassName.SlashOnlyFirst name) →
      MethodType.ofDescriptor text = .ok m → m.descriptor = text
  := by
  refine ⟨?_, ?_, ?_, ?_⟩
  · constructor
    · rintro ⟨t, hok⟩
      obtain ⟨f, htext, -⟩ := Ty.ofDescriptor_eq_ok_iff.mp hok
      use f
    · rintro ⟨f, htext⟩
      use f.type
      apply Ty.ofDescriptor_eq_ok_iff.mpr ⟨f, htext, rfl⟩
  · constructor
    · rintro ⟨m, hok⟩
      obtain ⟨f, htext, -⟩ := MethodType.ofDescriptor_eq_ok_iff.mp hok
      use f
    · rintro ⟨f, htext⟩
      use f.type
      apply MethodType.ofDescriptor_eq_ok_iff.mpr ⟨f, htext, rfl⟩
  · intro f t htext hnames hok
    have hread := Ty.ofDescriptor_eq_ok_iff.mpr ⟨f, htext, rfl⟩
    obtain rfl := Except.ok.inj (hread.symm.trans hok)
    apply String.toList_injective
    rw [FieldTree.descriptor_type hnames, htext]
  · intro f m htext hnames hok
    have hread := MethodType.ofDescriptor_eq_ok_iff.mpr ⟨f, htext, rfl⟩
    obtain rfl := Except.ok.inj (hread.symm.trans hok)
    apply String.toList_injective
    rw [MethodTree.descriptor_type hnames, htext]

/-- A derivation of the descriptor of map entries. -/
def entryListTree : FieldTree :=
  .array (.object "java/util/Map$Entry".toList (by decide) (by decide))

/-- A derivation of the descriptor of a method that takes map entries and a number. -/
def entryLookupTree : MethodTree :=
  ⟨[entryListTree, .base 'J' (by decide)], none⟩

/-- A descriptor with an array of nested classes is accepted and rendered again as it was. -/
theorem entryLookupTree_accepted :
  (entryListTree.text = "[Ljava/util/Map$Entry;".toList
    ∧ (∀ name ∈ entryListTree.classNames, ¬ ClassName.SlashOnlyFirst name)
    ∧ ∃ t, Ty.ofDescriptor "[Ljava/util/Map$Entry;" = .ok t
      ∧ t.descriptor = "[Ljava/util/Map$Entry;")
  ∧ entryLookupTree.text = "([Ljava/util/Map$Entry;J)V".toList
    ∧ (∀ name ∈ entryLookupTree.classNames, ¬ ClassName.SlashOnlyFirst name)
    ∧ ∃ m, MethodType.ofDescriptor "([Ljava/util/Map$Entry;J)V" = .ok m
      ∧ m.descriptor = "([Ljava/util/Map$Entry;J)V"
  := by
  have hlist : entryListTree.text = "[Ljava/util/Map$Entry;".toList := by decide
  have hlookup : entryLookupTree.text = "([Ljava/util/Map$Entry;J)V".toList := by decide
  have hlistNames : ∀ name ∈ entryListTree.classNames, ¬ ClassName.SlashOnlyFirst name := by
    decide
  have hlookupNames : ∀ name ∈ entryLookupTree.classNames, ¬ ClassName.SlashOnlyFirst name := by
    decide
  constructor
  · obtain ⟨haccepted, -, hwritten, -⟩ := descriptor_accepted_iff "[Ljava/util/Map$Entry;"
    obtain ⟨t, ht⟩ := haccepted.mpr ⟨entryListTree, hlist⟩
    use hlist, hlistNames, t, ht
    apply hwritten entryListTree t hlist hlistNames ht
  · obtain ⟨-, haccepted, -, hwritten⟩ := descriptor_accepted_iff "([Ljava/util/Map$Entry;J)V"
    obtain ⟨m, hm⟩ := haccepted.mpr ⟨entryLookupTree, hlookup⟩
    use hlookup, hlookupNames, m, hm
    apply hwritten entryLookupTree m hlookup hlookupNames hm

end ClassForge
