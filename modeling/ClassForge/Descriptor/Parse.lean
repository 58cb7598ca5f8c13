import ClassForge.Ty.Basic

/-!
# Reading descriptors

A field descriptor is a letter for a primitive type other than `void`, an object type
`L name ;` with a name that is not empty, or `[` in front of another field descriptor. A method
descriptor is a parenthesised sequence of field descriptors followed by a field descriptor or
`V`. `Ty.read?` and `MethodType.read?` take one off the front of a text and leave the rest;
`Ty.ofDescriptor` and `MethodType.ofDescriptor` expect nothing else in the text.
-/

namespace ClassForge

/-- Why a text is no descriptor. -/
inductive DescriptorError where
  | field (text : String)
  | method (text : String)
  deriving DecidableEq, Repr

/-- The message for a descriptor that could not be read. -/
def DescriptorError.message : DescriptorError → String
  | .field text => "malformed field descriptor `" ++ text ++ "`"
  | .method text => "malformed method descriptor `" ++ text ++ "`"

/-- The primitive type with the given letter, `void` excepted. -/
def Primitive.ofLetter? (c : Char) : Option Primitive :=
  [byte, char, double, float, int, long, short, boolean].find? (·.letter = c)

/-- Reads a field descriptor off the front of a text. -/
def Ty.read? : List Char → Option (Ty × List Char)
  | [] => none
  | c :: rest =>
    if c = '[' then
      (Ty.read? rest).map fun (elem, rest) => (.array elem, rest)
    else if c = 'L' then
      match rest.takeWhile (· ≠ ';'), rest.dropWhile (· ≠ ';') with
      | name@(_ :: _), _ :: rest => some (.object (.ofInternal (String.ofList name)) [], rest)
      | _, _ => none
    else
      (Primitive.ofLetter? c).map fun p => (.primitive p, rest)

/-- What is left after a type was read is shorter than the text. -/
theorem Ty.length_of_read? {text rest : List Char} {t : Ty} (h : Ty.read? text = some (t, rest)) :
  rest.length < text.length
  := by
  induction text generalizing t rest with
  | nil => simp [Ty.read?] at h
  | cons c text ih =>
    rw [Ty.read?] at h
    split at h
    · simp only [Option.map_eq_some_iff, Prod.mk.injEq, Prod.exists] at h
      obtain ⟨elem, rest', hread, -, rfl⟩ := h
      have := ih hread
      simp only [List.length_cons]
      omega
    · split at h
      · have hdrop := (List.dropWhile_suffix (l := text) (fun c => decide (c ≠ ';'))).length_le
        split at h
        · next hrest =>
          simp only [Option.some.injEq, Prod.mk.injEq] at h
          obtain ⟨-, rfl⟩ := h
          rw [hrest] at hdrop
          simp only [List.length_cons] at hdrop ⊢
          omega
        · contradiction
      · simp only [Option.map_eq_some_iff, Prod.mk.injEq] at h
        obtain ⟨p, -, -, rfl⟩ := h
        simp

/-- Reads as many field descriptors as there are off the front of a text. -/
def Ty.readMany (text : List Char) : List Ty × List Char :=
  match h : Ty.read? text with
  | none => ([], text)
  | some (t, rest) =>
    have := Ty.length_of_read? h
    let (ts, rest) := Ty.readMany rest
    (t :: ts, rest)
termination_by text.length

/-- Reads the result type of a method off the front of a text. -/
def Ty.readResult? : List Char → Option (Ty × List Char)
  | 'V' :: rest => some (.void, rest)
  | text => Ty.read? text

/-- Reads a method descriptor off the front of a text. -/
def MethodType.read? : List Char → Option (MethodType × List Char)
  | '(' :: text =>
    match Ty.readMany text with
    | (params, ')' :: rest) => (Ty.readResult? rest).map fun (result, rest) => (⟨params, result⟩, rest)
    | _ => none
  | _ => none

/-- The type with the given field descriptor. -/
def Ty.ofDescriptor (text : String) : Except DescriptorError Ty :=
  match Ty.read? text.toList with
  | some (t, []) => .ok t
  | _ => .error (.field text)

/-- The method type with the given descriptor. -/
def MethodType.ofDescriptor (text : String) : Except DescriptorError MethodType :=
  match MethodType.read? text.toList with
  | some (m, []) => .ok m
  | _ => .error (.method text)

end ClassForge
