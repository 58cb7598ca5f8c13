import ClassForge.Descriptor.Parse
import Mathlib.Tactic.Common

/-!
# The grammar of descriptors

A descriptor is given by its derivation from the grammar: a field descriptor is the letter of a
base type, the name of a class between `L` and a semicolon, or `[` with another one after it; a
method descriptor has field descriptors between parentheses and then another one or `V`. The
readers take off the front of a text what is derived, and nothing else.
-/

namespace ClassForge

/-! ### Derivations -/

/-- The letters of the base types. -/
def baseLetters : List Char :=
  ['B', 'C', 'D', 'F', 'I', 'J', 'S', 'Z']

/-- A derivation of a field descriptor. -/
inductive FieldTree where
  | base (letter : Char) (h : letter ∈ baseLetters)
  /-- A name that is not empty and has no semicolon in it. -/
  | object (name : List Char) (hne : name ≠ []) (h : ';' ∉ name)
  | array (elem : FieldTree)

/-- A derivation of a method descriptor. -/
structure MethodTree where
  params : List FieldTree
  /-- The result; `none` stands for `V`. -/
  result : Option FieldTree

namespace FieldTree

/-- The derived text. -/
def text : FieldTree → List Char
  | base letter _ => [letter]
  | object name _ _ => 'L' :: (name ++ [';'])
  | array elem => '[' :: elem.text

/-- The names of classes in the derived text. -/
def classNames : FieldTree → List (List Char)
  | base _ _ => []
  | object name _ _ => [name]
  | array elem => elem.classNames

/-- The derived text of a result. -/
def resultText : Option FieldTree → List Char
  | none => ['V']
  | some f => f.text

end FieldTree

namespace MethodTree

/-- The derived text. -/
def text (m : MethodTree) : List Char :=
  '(' :: (m.params.flatMap FieldTree.text ++ ')' :: FieldTree.resultText m.result)

/-- The names of classes in the derived text. -/
def classNames (m : MethodTree) : List (List Char) :=
  (m.params ++ m.result.toList).flatMap FieldTree.classNames

end MethodTree

/-! ### Letters -/

namespace Primitive

/-- Each primitive type but `void` is told by its letter. -/
theorem ofLetter?_eq_some_iff {c : Char} {p : Primitive} :
  ofLetter? c = some p ↔ p ≠ void ∧ p.letter = c
  := by
  constructor
  · intro h
    have hmem := List.mem_of_find?_eq_some h
    use by rintro rfl; contradiction
    simpa using List.find?_some h
  · rintro ⟨hvoid, rfl⟩
    cases p with
    | void => contradiction
    | _ => rfl

theorem letter_mem_baseLetters {p : Primitive} (h : p ≠ void) :
  p.letter ∈ baseLetters
  := by
  cases p with
  | void => contradiction
  | _ => decide

theorem isSome_ofLetter? {c : Char} (h : c ∈ baseLetters) :
  (ofLetter? c).isSome = true
  := by
  simp only [baseLetters, List.mem_cons, List.not_mem_nil, or_false] at h
  rcases h with rfl | rfl | rfl | rfl | rfl | rfl | rfl | rfl <;> rfl

end Primitive

/-! ### Types -/

namespace FieldTree

/-- The type that the text describes. -/
def type : FieldTree → Ty
  | base letter h => .primitive ((Primitive.ofLetter? letter).get (Primitive.isSome_ofLetter? h))
  | object name _ _ => .ofInternal (String.ofList name)
  | array elem => .array elem.type

/-- The type of a result. -/
def resultType : Option FieldTree → Ty
  | none => .void
  | some f => f.type

end FieldTree

/-- The type that the text describes. -/
def MethodTree.type (m : MethodTree) : MethodType :=
  ⟨m.params.map FieldTree.type, FieldTree.resultType m.result⟩

/-! ### Reading field descriptors -/

theorem Ty.read?_base {letter : Char} (h : letter ∈ baseLetters) (rest : List Char) :
  Ty.read? (letter :: rest) = (Primitive.ofLetter? letter).map fun p => (.primitive p, rest)
  := by
  have harray : letter ≠ '[' := by rintro rfl; contradiction
  have hobject : letter ≠ 'L' := by rintro rfl; contradiction
  rw [Ty.read?, if_neg harray, if_neg hobject]

/-- A class is read up to the first semicolon. -/
theorem Ty.read?_object {name : List Char} (hne : name ≠ []) (h : ';' ∉ name)
    (rest : List Char) :
  Ty.read? ('L' :: (name ++ ';' :: rest)) = some (.ofInternal (String.ofList name), rest)
  := by
  have hname : ∀ c ∈ name, decide (c ≠ ';') = true := by
    intro c hc
    apply decide_eq_true
    rintro rfl
    contradiction
  have htake : (name ++ ';' :: rest).takeWhile (· ≠ ';') = name := by
    rw [List.takeWhile_append_of_pos hname]
    simp
  have hdrop : (name ++ ';' :: rest).dropWhile (· ≠ ';') = ';' :: rest := by
    rw [List.dropWhile_append_of_pos hname]
    simp
  obtain ⟨c, cs, rfl⟩ := List.exists_cons_of_ne_nil hne
  rw [Ty.read?, if_neg (by decide), if_pos rfl, htake, hdrop]
  rfl

/-- A derived text is read off the front of any text that starts with it. -/
theorem FieldTree.read?_text (f : FieldTree) (rest : List Char) :
  Ty.read? (f.text ++ rest) = some (f.type, rest)
  := by
  induction f with
  | base letter h =>
      obtain ⟨p, hp⟩ := Option.isSome_iff_exists.mp (Primitive.isSome_ofLetter? h)
      rw [text, List.singleton_append, Ty.read?_base h, type]
      simp only [hp, Option.map_some, Option.get_some]
  | object name hne h =>
      rw [text, List.cons_append, List.append_assoc, List.singleton_append,
        Ty.read?_object hne h, type]
  | array elem ih =>
      rw [text, List.cons_append, Ty.read?, if_pos rfl, ih, type]
      rfl

/-- A text that goes on after all that is no semicolon goes on with one. -/
theorem eq_append_semicolon {text name rest : List Char} {c : Char}
    (hname : text.takeWhile (· ≠ ';') = name) (hrest : text.dropWhile (· ≠ ';') = c :: rest) :
  ';' ∉ name ∧ name ++ ';' :: rest = text
  := by
  constructor
  · intro hmem
    rw [← hname] at hmem
    simpa using List.all_eq_true.mp List.all_takeWhile ';' hmem
  · have hc : c = ';' := by
      have hhead := List.head_dropWhile_not (· ≠ ';') (hrest ▸ List.cons_ne_nil c rest)
      simp only [hrest, List.head_cons] at hhead
      simpa using hhead
    rw [← hname, ← hc, ← hrest, hc, List.takeWhile_append_dropWhile]

/-- What is read off the front of a text is derived. -/
theorem Ty.exists_tree_of_read? {text rest : List Char} {t : Ty}
    (h : Ty.read? text = some (t, rest)) :
  ∃ f : FieldTree, f.text ++ rest = text ∧ f.type = t
  := by
  induction text generalizing t rest with
  | nil => contradiction
  | cons c text ih =>
      rw [Ty.read?] at h
      split at h
      · next harray =>
        subst harray
        obtain ⟨⟨elem, rest'⟩, hread, hpair⟩ := Option.map_eq_some_iff.mp h
        obtain ⟨rfl, rfl⟩ := Prod.mk.inj hpair
        obtain ⟨f, rfl, rfl⟩ := ih hread
        use .array f
        exact ⟨rfl, rfl⟩
      · split at h
        · next hobject =>
          subst hobject
          split at h
          · next hname hrest =>
            obtain ⟨rfl, rfl⟩ := Prod.mk.inj (Option.some.inj h)
            obtain ⟨hsemicolon, rfl⟩ := eq_append_semicolon hname hrest
            use .object _ (List.cons_ne_nil _ _) hsemicolon
            constructor
            · simp [FieldTree.text]
            · rfl
          · contradiction
        · obtain ⟨p, hp, hpair⟩ := Option.map_eq_some_iff.mp h
          obtain ⟨rfl, rfl⟩ := Prod.mk.inj hpair
          obtain ⟨hvoid, rfl⟩ := Primitive.ofLetter?_eq_some_iff.mp hp
          use .base p.letter (Primitive.letter_mem_baseLetters hvoid)
          constructor
          · rfl
          · simp only [FieldTree.type, hp, Option.get_some]

/-- A reader takes off the front of a text what is derived. -/
theorem Ty.read?_eq_some_iff {text rest : List Char} {t : Ty} :
  Ty.read? text = some (t, rest) ↔ ∃ f : FieldTree, f.text ++ rest = text ∧ f.type = t
  := by
  constructor
  · apply Ty.exists_tree_of_read?
  · rintro ⟨f, rfl, rfl⟩
    apply f.read?_text

/-! ### Reading method descriptors -/

/-- Nothing is read where no type starts. -/
theorem Ty.readMany_of_none {text : List Char} (h : Ty.read? text = none) :
  Ty.readMany text = ([], text)
  := by
  rw [Ty.readMany]
  split
  · rfl
  · next hsome =>
    rw [h] at hsome
    contradiction

/-- Types are read one after another. -/
theorem Ty.readMany_of_some {text rest : List Char} {t : Ty} (h : Ty.read? text = some (t, rest)) :
  Ty.readMany text = (t :: (Ty.readMany rest).1, (Ty.readMany rest).2)
  := by
  rw [Ty.readMany]
  split
  · next hnone =>
    rw [h] at hnone
    contradiction
  · next hsome =>
    rw [h] at hsome
    obtain ⟨rfl, rfl⟩ := Prod.mk.inj (Option.some.inj hsome)
    rfl

/-- Field descriptors are read as long as there are some. -/
theorem Ty.readMany_text (fs : List FieldTree) {rest : List Char} (h : Ty.read? rest = none) :
  Ty.readMany (fs.flatMap FieldTree.text ++ rest) = (fs.map FieldTree.type, rest)
  := by
  induction fs with
  | nil => apply Ty.readMany_of_none h
  | cons f fs ih =>
      rw [List.flatMap_cons, List.append_assoc, Ty.readMany_of_some (f.read?_text _), ih]
      rfl

/-- What is read of field descriptors is derived. -/
theorem Ty.exists_trees_of_readMany (text : List Char) :
  ∃ fs : List FieldTree, fs.flatMap FieldTree.text ++ (Ty.readMany text).2 = text
    ∧ fs.map FieldTree.type = (Ty.readMany text).1
  := by
  induction text using Ty.readMany.induct with
  | case1 text hnone =>
      rw [Ty.readMany_of_none hnone]
      use []
      exact ⟨rfl, rfl⟩
  | case2 text t rest hsome _ _ _ _ ih =>
      obtain ⟨f, rfl, rfl⟩ := Ty.exists_tree_of_read? hsome
      obtain ⟨fs, htext, htypes⟩ := ih
      rw [Ty.readMany_of_some hsome]
      use f :: fs
      rw [List.flatMap_cons, List.append_assoc, htext, List.map_cons, htypes]
      exact ⟨rfl, rfl⟩

/-- A result is read if it is derived, `V` among them: no field descriptor starts with that
letter. -/
theorem Ty.readResult?_eq_some_iff {text rest : List Char} {t : Ty} :
  Ty.readResult? text = some (t, rest)
    ↔ ∃ f, FieldTree.resultText f ++ rest = text ∧ FieldTree.resultType f = t
  := by
  constructor
  · intro h
    unfold Ty.readResult? at h
    split at h
    · obtain ⟨rfl, rfl⟩ := Prod.mk.inj (Option.some.inj h)
      use none
      exact ⟨rfl, rfl⟩
    · obtain ⟨f, rfl, rfl⟩ := Ty.exists_tree_of_read? h
      use some f
      exact ⟨rfl, rfl⟩
  · rintro ⟨f, rfl, rfl⟩
    cases f with
    | none => rfl
    | some f =>
        have hread := f.read?_text rest
        rw [FieldTree.resultText]
        generalize f.text ++ rest = text at hread ⊢
        unfold Ty.readResult?
        split
        · contradiction
        · apply hread

/-- A reader of method descriptors takes off the front of a text what is derived. -/
theorem MethodType.read?_eq_some_iff {text rest : List Char} {m : MethodType} :
  MethodType.read? text = some (m, rest) ↔ ∃ f : MethodTree, f.text ++ rest = text ∧ f.type = m
  := by
  constructor
  · intro h
    unfold MethodType.read? at h
    split at h
    · next text =>
      split at h
      · next params rest' hmany =>
        obtain ⟨⟨result, rest''⟩, hresult, hpair⟩ := Option.map_eq_some_iff.mp h
        obtain ⟨rfl, rfl⟩ := Prod.mk.inj hpair
        obtain ⟨fs, htext, htypes⟩ := Ty.exists_trees_of_readMany text
        obtain ⟨f, rfl, rfl⟩ := Ty.readResult?_eq_some_iff.mp hresult
        rw [hmany] at htext htypes
        obtain rfl := htext
        obtain rfl := htypes
        use ⟨fs, f⟩
        constructor
        · simp [MethodTree.text]
        · rfl
      · contradiction
    · contradiction
  · rintro ⟨⟨params, result⟩, rfl, rfl⟩
    have hparams : Ty.readMany (params.flatMap FieldTree.text
          ++ ')' :: (FieldTree.resultText result ++ rest))
        = (params.map FieldTree.type, ')' :: (FieldTree.resultText result ++ rest)) :=
      Ty.readMany_text params rfl
    have hresult : Ty.readResult? (FieldTree.resultText result ++ rest)
        = some (FieldTree.resultType result, rest) :=
      Ty.readResult?_eq_some_iff.mpr ⟨result, rfl, rfl⟩
    simp only [MethodTree.text, List.cons_append, List.append_assoc, MethodType.read?, hparams]
    rw [hresult]
    rfl

/-! ### Whole texts -/

/-- A descriptor is accepted exactly if a type is read from it and nothing is left. -/
theorem Ty.ofDescriptor_eq_ok {text : String} {t : Ty} :
  Ty.ofDescriptor text = .ok t ↔ Ty.read? text.toList = some (t, [])
  := by
  unfold Ty.ofDescriptor
  split
  · next h => simp [h]
  · next h =>
    constructor
    · intro hok
      contradiction
    · intro hread
      apply (h t hread).elim

/-- The descriptor of a method is accepted exactly if a method type is read from it and nothing is
left. -/
theorem MethodType.ofDescriptor_eq_ok {text : String} {m : MethodType} :
  MethodType.ofDescriptor text = .ok m ↔ MethodType.read? text.toList = some (m, [])
  := by
  unfold MethodType.ofDescriptor
  split
  · next h => simp [h]
  · next h =>
    constructor
    · intro hok
      contradiction
    · intro hread
      apply (h m hread).elim

/-- A text is accepted as a field descriptor if it is derived. -/
theorem Ty.ofDescriptor_eq_ok_iff {text : String} {t : Ty} :
  Ty.ofDescriptor text = .ok t ↔ ∃ f : FieldTree, f.text = text.toList ∧ f.type = t
  := by
  rw [Ty.ofDescriptor_eq_ok, Ty.read?_eq_some_iff]
  simp only [List.append_nil]

/-- A text is accepted as a method descriptor if it is derived. -/
theorem MethodType.ofDescriptor_eq_ok_iff {text : String} {m : MethodType} :
  MethodType.ofDescriptor text = .ok m ↔ ∃ f : MethodTree, f.text = text.toList ∧ f.type = m
  := by
  rw [MethodType.ofDescriptor_eq_ok, MethodType.read?_eq_some_iff]
  simp only [List.append_nil]

end ClassForge
