import ClassForge.Proofs.Reading.Attribute

/-!
# Bodies of attributes as bytes

A body that is read as a whole is read strictly. From what is written for it nothing can be left
out and nothing can be added: bytes that break off end too early, and bytes that go on are told by
their number, at the place where the body ended.
-/

namespace ClassForge

namespace Reader

variable {α β : Type} {reader : Reader α} {write : α → List UInt8} {valid : α → Prop}
  {input : List UInt8}

/-! ### Readers that fail only at the end -/

/-- The reader fails only where the input ends too early. -/
def FailsAtEnd (reader : Reader α) : Prop :=
  ∀ input fault, reader input = .error fault → fault = .endOfInput

namespace FailsAtEnd

theorem pure (a : α) :
  FailsAtEnd (Pure.pure a : Reader α)
  := by
  intro input fault h
  contradiction

/-- A reader fails only at the end if both of its parts do. -/
theorem bind {f : α → Reader β} (hreader : FailsAtEnd reader) (hf : ∀ a, FailsAtEnd (f a)) :
  FailsAtEnd (reader >>= f)
  := by
  intro input fault h
  change (reader input >>= fun p => f p.1 p.2) = _ at h
  cases hread : reader input with
  | error fault' =>
      rw [hread] at h
      obtain rfl := Except.error.inj h
      apply hreader _ _ hread
  | ok p =>
      rw [hread] at h
      apply hf p.1 _ _ h

theorem u16 :
  FailsAtEnd Reader.u16
  := by
  intro input fault h
  unfold Reader.u16 at h
  split at h
  · contradiction
  · apply (Except.error.inj h).symm

theorem u32 :
  FailsAtEnd Reader.u32
  := by
  intro input fault h
  unfold Reader.u32 at h
  split at h
  · contradiction
  · apply (Except.error.inj h).symm

theorem bytes (n : Nat) :
  FailsAtEnd (Reader.bytes n)
  := by
  intro input fault h
  simp only [Reader.bytes] at h
  split at h
  · contradiction
  · apply (Except.error.inj h).symm

/-- A reader that is repeated fails only at the end if it does so once. -/
theorem timesOnto (hreader : FailsAtEnd reader) (done : List α) (n : Nat) :
  FailsAtEnd (Reader.timesOnto reader done n)
  := by
  induction n generalizing done with
  | zero => apply pure
  | succ n ih =>
      apply hreader.bind
      intro value
      apply ih

theorem times (hreader : FailsAtEnd reader) (n : Nat) :
  FailsAtEnd (Reader.times n reader)
  := hreader.timesOnto [] n

end FailsAtEnd

/-! ### Reading the whole input -/

/-- Reading all of some bytes and writing are inverse, and no bytes that are read can be broken
off or gone on with. -/
structure Strict (fromBytes : List UInt8 → Except ReadFault α) (toBytes : α → List UInt8)
    (stored : α → Prop) : Prop where
  read_write : ∀ a, stored a → fromBytes (toBytes a) = .ok a
  write_read : ∀ bytes a, fromBytes bytes = .ok a → stored a ∧ toBytes a = bytes
  broken : ∀ bytes a front, fromBytes bytes = .ok a → front <+: bytes → front ≠ bytes →
    fromBytes front = .error .endOfInput
  continued : ∀ bytes a rest, fromBytes bytes = .ok a → rest ≠ [] →
    ∃ fault, fromBytes (bytes ++ rest) = .error fault
      ∧ fault.position? (bytes ++ rest).length = some bytes.length
      ∧ fault.message? = some (toString rest.length ++ " trailing bytes")

theorem whole_of_ok {a : α} {rest : List UInt8} (h : reader input = .ok (a, rest))
    (hne : rest ≠ []) :
  whole reader input = .error (.trailing rest.length)
  := by
  obtain ⟨first, others, rfl⟩ := List.exists_cons_of_ne_nil hne
  rw [whole, h]

/-- What follows a value that was the whole input is left over. -/
theorem Inverts.whole_append (hreader : Inverts reader write valid) {a : α}
    (h : whole reader input = .ok a) {rest : List UInt8} (hne : rest ≠ []) :
  whole reader (input ++ rest) = .error (.trailing rest.length)
  := by
  obtain ⟨ha, rfl⟩ := hreader.whole_eq_ok_iff.mp h
  apply whole_of_ok (hreader.read_write ha rest) hne

/-- A reader that fails only at the end and inverts a writer reads strictly. -/
theorem Inverts.strict (hreader : Inverts reader write valid) (hend : FailsAtEnd reader) :
  Strict (whole reader) write valid
  := by
  constructor
  case read_write =>
    intro a ha
    apply hreader.whole_eq_ok_iff.mpr ⟨ha, rfl⟩
  case write_read =>
    intro bytes a h
    apply hreader.whole_eq_ok_iff.mp h
  case broken =>
    rintro bytes a front h ⟨back, rfl⟩ hne
    have hback : back ≠ [] := by
      rintro rfl
      apply hne (List.append_nil front).symm
    cases hread : reader front with
    | error fault =>
        obtain rfl := hend _ _ hread
        rw [whole, hread]
    | ok p =>
        obtain ⟨ha, hfront⟩ := hreader.write_read hread
        have hleft : p.2 ++ back ≠ [] := by simp [hback]
        have hwhole := whole_of_ok (hreader.read_write ha (p.2 ++ back)) hleft
        rw [← List.append_assoc, hfront, h] at hwhole
        contradiction
  case continued =>
    intro bytes a rest h hne
    use .trailing rest.length, hreader.whole_append h hne
    constructor
    · simp [ReadFault.position?]
    · rfl

end Reader

open Reader

/-! ### Attributes -/

/-- Attributes are not read only if there are too few bytes. -/
theorem Attribute.read_failsAtEnd :
  FailsAtEnd Attribute.read
  := by
  apply FailsAtEnd.u16.bind
  intro name
  apply FailsAtEnd.u32.bind
  intro length
  apply (FailsAtEnd.bytes _).bind
  intro info
  apply FailsAtEnd.pure

/-- An entry of the exception table is not read only if there are too few bytes. -/
theorem ExceptionEntry.read_failsAtEnd :
  FailsAtEnd ExceptionEntry.read
  := by
  apply FailsAtEnd.u16.bind
  intro start
  apply FailsAtEnd.u16.bind
  intro stop
  apply FailsAtEnd.u16.bind
  intro handler
  apply FailsAtEnd.u16.bind
  intro catchType
  apply FailsAtEnd.pure

/-- The body of code is not read only if there are too few bytes. -/
theorem CodeBody.read_failsAtEnd :
  FailsAtEnd CodeBody.read
  := by
  apply FailsAtEnd.u16.bind
  intro maxStack
  apply FailsAtEnd.u16.bind
  intro maxLocals
  apply FailsAtEnd.u32.bind
  intro codeLength
  apply (FailsAtEnd.bytes _).bind
  intro code
  apply FailsAtEnd.u16.bind
  intro tableLength
  apply (ExceptionEntry.read_failsAtEnd.times _).bind
  intro table
  apply FailsAtEnd.u16.bind
  intro attributesCount
  apply (Attribute.read_failsAtEnd.times _).bind
  intro attributes
  apply FailsAtEnd.pure

theorem ExceptionsBody.read_failsAtEnd :
  FailsAtEnd ExceptionsBody.read
  := by
  apply FailsAtEnd.u16.bind
  intro count
  apply (FailsAtEnd.u16.times _).bind
  intro classes
  apply FailsAtEnd.pure

/-- An entry for a nested class is not read only if there are too few bytes. -/
theorem InnerClassEntry.read_failsAtEnd :
  FailsAtEnd InnerClassEntry.read
  := by
  apply FailsAtEnd.u16.bind
  intro inner
  apply FailsAtEnd.u16.bind
  intro outer
  apply FailsAtEnd.u16.bind
  intro name
  apply FailsAtEnd.u16.bind
  intro flags
  apply FailsAtEnd.pure

theorem InnerClassesBody.read_failsAtEnd :
  FailsAtEnd InnerClassesBody.read
  := by
  apply FailsAtEnd.u16.bind
  intro count
  apply (InnerClassEntry.read_failsAtEnd.times _).bind
  intro classes
  apply FailsAtEnd.pure

theorem IndexBody.read_failsAtEnd :
  FailsAtEnd IndexBody.read
  := by
  apply FailsAtEnd.u16.bind
  intro index
  apply FailsAtEnd.pure

/-- The bodies of all attributes that are known are read strictly: those of `Code`, `Exceptions`
and `InnerClasses`, and those with an index alone, `Signature`, `SourceFile` and
`ConstantValue`. -/
theorem bodies_strict :
  Strict CodeBody.fromBytes CodeBody.toBytes CodeBody.Stored
    ∧ Strict ExceptionsBody.fromBytes ExceptionsBody.toBytes ExceptionsBody.Stored
    ∧ Strict InnerClassesBody.fromBytes InnerClassesBody.toBytes InnerClassesBody.Stored
    ∧ Strict IndexBody.fromBytes IndexBody.toBytes fun _ => True
  := ⟨CodeBody.read_inverts.strict CodeBody.read_failsAtEnd,
    ExceptionsBody.read_inverts.strict ExceptionsBody.read_failsAtEnd,
    InnerClassesBody.read_inverts.strict InnerClassesBody.read_failsAtEnd,
    IndexBody.read_inverts.strict IndexBody.read_failsAtEnd⟩

end ClassForge
