import ClassForge.Ty.Basic
import Mathlib.Tactic.Common

/-!
# Class names and their texts

A class name is written by joining its parts and read by splitting the text again. What is read
is split at the last slash: before it stands the package, after it the class. A name whose parts
are not empty and have no separators in them is read back from its text. Conversely every text is
written again as it was read, unless its only slash is its first character, which is lost.
-/

namespace ClassForge.ClassName

/-! ### Splitting and joining -/

/-- The pieces of a text are those that it is split into at the separator. -/
theorem pieces_eq_splitOn (separator : Char) (text : List Char) :
  pieces separator text = text.splitOn separator
  := by
  induction text with
  | nil => rfl
  | cons c text ih =>
      rw [pieces, ih, List.splitOn_cons_eq_if_modifyHead]
      obtain ⟨piece, others, hsplit⟩ := List.exists_cons_of_ne_nil (text.splitOn_ne_nil separator)
      simp [hsplit]

variable {separator : Char}

theorem map_toList_split (text : String) :
  (split separator text).map String.toList = text.toList.splitOn separator
  := by
  rw [split, List.map_map, pieces_eq_splitOn]
  simp [Function.comp_def]

theorem split_eq_of_splitOn_eq {text : String} {texts : List String}
    (h : text.toList.splitOn separator = texts.map String.toList) :
  split separator text = texts
  := by
  rw [split, pieces_eq_splitOn, h, List.map_map]
  simp [Function.comp_def]

/-- The pieces joined by the separator are the text. -/
theorem intercalate_split (text : String) :
  (String.singleton separator).intercalate (split separator text) = text
  := by
  apply String.toList_injective
  rw [String.toList_intercalate, map_toList_split, String.toList_singleton,
    List.intercalate_splitOn]

/-- Texts without the separator are the pieces of what they are joined to. -/
theorem split_intercalate {texts : List String} (hne : texts ≠ [])
    (h : ∀ t ∈ texts, separator ∉ t.toList) :
  split separator ((String.singleton separator).intercalate texts) = texts
  := by
  apply split_eq_of_splitOn_eq
  rw [String.toList_intercalate, String.toList_singleton, List.splitOn_intercalate]
  · simpa using h
  · simpa using hne

theorem split_append (a b : String) :
  split separator (a ++ String.singleton separator ++ b) = split separator a ++ split separator b
  := by
  apply split_eq_of_splitOn_eq
  rw [List.map_append, map_toList_split, map_toList_split, ← List.splitOn_append_cons_self]
  simp

theorem split_of_not_mem {text : String} (h : separator ∉ text.toList) :
  split separator text = [text]
  := split_eq_of_splitOn_eq (List.splitOn_eq_singleton h)

theorem split_ne_nil (text : String) :
  split separator text ≠ []
  := by
  rw [split, pieces_eq_splitOn]
  simp

/-! ### Reading -/

/-- A text without slashes names a class outside packages. -/
theorem ofInternal_of_not_mem {text : String} (h : '/' ∉ text.toList) :
  ofInternal text = ⟨[], split '$' text⟩
  := by
  rw [ofInternal, split_of_not_mem h]
  rfl

/-- What stands before the last slash is the package, and there is none if it is empty. -/
theorem ofInternal_append (package : String) {simple : String} (h : '/' ∉ simple.toList) :
  ofInternal (package ++ "/" ++ simple)
    = ⟨if package = "" then [] else split '/' package, split '$' simple⟩
  := by
  have hsegments : split '/' (package ++ "/" ++ simple) = split '/' package ++ [simple] := by
    rw [← split_of_not_mem h]
    apply split_append
  have hempty : split '/' package = [""] ↔ package = "" := by
    constructor
    · intro hsplit
      have hpackage := @intercalate_split '/' package
      rw [hsplit] at hpackage
      apply hpackage.symm
    · rintro rfl
      rfl
  simp only [ofInternal, hsegments, List.dropLast_concat, hempty]
  congr 2
  simp

/-- The last slash of a text that has one. -/
theorem exists_eq_append_slash {text : String} (h : '/' ∈ text.toList) :
  ∃ package simple : String, text = package ++ "/" ++ simple ∧ '/' ∉ simple.toList
  := by
  obtain ⟨after, before, hreverse, hafter⟩ := List.eq_append_cons_of_mem (List.mem_reverse.mpr h)
  have htext := congrArg List.reverse hreverse
  rw [List.reverse_reverse] at htext
  use String.ofList before.reverse, String.ofList after.reverse
  constructor
  · apply String.toList_injective
    simp [htext]
  · simpa using hafter

/-! ### Writing -/

theorem internal_of_package_nil (names : List String) :
  internal ⟨[], names⟩ = "$".intercalate names
  := by
  apply String.toList_injective
  simp [internal]

/-- Joining texts with the separator after each of them. -/
theorem join_map_append {texts : List String} (hne : texts ≠ []) (separator : String) :
  String.join (texts.map (· ++ separator)) = separator.intercalate texts ++ separator
  := by
  apply String.toList_injective
  induction texts with
  | nil => contradiction
  | cons t texts ih =>
      by_cases hrest : texts = []
      · simp [hrest]
      · have hjoin := ih hrest
        rw [String.intercalate_cons_of_ne_nil hrest, String.append_assoc, String.toList_append,
          ← hjoin]
        simp

theorem internal_of_package_ne_nil {package : List String} (hne : package ≠ [])
    (names : List String) :
  internal ⟨package, names⟩ = "/".intercalate package ++ "/" ++ "$".intercalate names
  := by
  rw [internal, join_map_append hne]

/-! ### Reading what was written -/

/-- The parts of the name are not empty and have none of the characters in them that separate
them from each other and end a name. -/
structure IsProper (name : ClassName) : Prop where
  package : ∀ segment ∈ name.package, segment ≠ "" ∧ '/' ∉ segment.toList ∧ ';' ∉ segment.toList
  names_ne_nil : name.names ≠ []
  names : ∀ part ∈ name.names,
    part ≠ "" ∧ '/' ∉ part.toList ∧ '$' ∉ part.toList ∧ ';' ∉ part.toList

/-- A character of neither the separator nor the texts does not occur in the texts that are put
together. -/
theorem not_mem_intercalate {separator : String} {texts : List String} {c : Char}
    (hseparator : c ∉ separator.toList) (h : ∀ t ∈ texts, c ∉ t.toList) :
  c ∉ (separator.intercalate texts).toList
  := by
  induction texts with
  | nil => simp
  | cons t texts ih =>
      obtain ⟨ht, htexts⟩ := List.forall_mem_cons.mp h
      by_cases hrest : texts = []
      · simpa [hrest] using ht
      · rw [String.intercalate_cons_of_ne_nil hrest]
        simp only [String.toList_append, List.mem_append, not_or]
        exact ⟨⟨ht, hseparator⟩, ih htexts⟩

variable {name : ClassName}

/-- A proper name is read back from its text. -/
theorem ofInternal_internal (h : name.IsProper) :
  ofInternal name.internal = name
  := by
  obtain ⟨package, names⟩ := name
  have hnames : split '$' ("$".intercalate names) = names :=
    split_intercalate h.names_ne_nil fun part hpart => (h.names part hpart).2.2.1
  have hsimple : '/' ∉ ("$".intercalate names).toList :=
    not_mem_intercalate (by decide) fun part hpart => (h.names part hpart).2.1
  by_cases hpackage : package = []
  · rw [hpackage, internal_of_package_nil, ofInternal_of_not_mem hsimple, hnames]
  · have hsegments : split '/' ("/".intercalate package) = package :=
      split_intercalate hpackage fun segment hsegment => (h.package segment hsegment).2.1
    have hne : "/".intercalate package ≠ "" := by
      intro hempty
      rw [hempty] at hsegments
      apply (h.package "" ?_).1 rfl
      rw [← hsegments]
      apply List.mem_singleton_self
    rw [internal_of_package_ne_nil hpackage, ofInternal_append _ hsimple, hsegments, hnames,
      if_neg hne]

/-- A proper name is not empty. -/
theorem internal_ne_empty (h : name.IsProper) :
  name.internal ≠ ""
  := by
  intro hempty
  have hread := ofInternal_internal h
  rw [hempty] at hread
  apply (h.names "" ?_).1 rfl
  rw [← hread]
  apply List.mem_singleton_self

/-- A proper name has no semicolon. -/
theorem not_mem_internal (h : name.IsProper) :
  ';' ∉ name.internal.toList
  := by
  obtain ⟨package, names⟩ := name
  have hsimple : ';' ∉ ("$".intercalate names).toList :=
    not_mem_intercalate (by decide) fun part hpart => (h.names part hpart).2.2.2
  by_cases hpackage : package = []
  · rwa [hpackage, internal_of_package_nil]
  · have hsegments : ';' ∉ ("/".intercalate package).toList :=
      not_mem_intercalate (by decide) fun segment hsegment => (h.package segment hsegment).2.2
    rw [internal_of_package_ne_nil hpackage]
    simp only [String.toList_append, List.mem_append, not_or]
    exact ⟨⟨hsegments, by decide⟩, hsimple⟩

/-! ### Writing what was read -/

/-- The only slash of the text is its first character. -/
def SlashOnlyFirst (text : List Char) : Prop :=
  text.head? = some '/' ∧ '/' ∉ text.tail

instance : DecidablePred SlashOnlyFirst :=
  fun text => inferInstanceAs (Decidable (text.head? = some '/' ∧ '/' ∉ text.tail))

/-- A text is written again as it was read, unless its only slash is its first character. -/
theorem internal_ofInternal {text : String} (h : ¬ SlashOnlyFirst text.toList) :
  (ofInternal text).internal = text
  := by
  by_cases hslash : '/' ∈ text.toList
  · obtain ⟨package, simple, rfl, hsimple⟩ := exists_eq_append_slash hslash
    have hpackage : package ≠ "" := by
      rintro rfl
      apply h
      rw [SlashOnlyFirst]
      simpa using hsimple
    rw [ofInternal_append package hsimple, if_neg hpackage,
      internal_of_package_ne_nil (split_ne_nil package)]
    congr 1
    · congr 1
      apply intercalate_split
    · apply intercalate_split
  · rw [ofInternal_of_not_mem hslash, internal_of_package_nil]
    apply intercalate_split

example : (ofInternal "/A").internal = "A" := by decide

end ClassForge.ClassName
