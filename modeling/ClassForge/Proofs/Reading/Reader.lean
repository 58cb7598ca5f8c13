import ClassForge.Proofs.Bytes
import ClassForge.Reader

/-!
# Readers that invert writers

A reader inverts a writer if it takes what was written off the front of any bytes, and if it
takes nothing else. The values that are written need not be all values of their type: a list
that is stored with a count has to have that length.
-/

namespace ClassForge

namespace Reader

variable {α β : Type} {reader : Reader α} {write : α → List UInt8} {valid : α → Prop}
  {input rest : List UInt8}

/-- The reader takes a valid value off the front of bytes that start with what is written for
it. Whatever it takes is a valid value, and what is written for that was there. -/
structure Inverts (reader : Reader α) (write : α → List UInt8) (valid : α → Prop) : Prop where
  read_write : ∀ {a}, valid a → ∀ rest, reader (write a ++ rest) = .ok (a, rest)
  write_read : ∀ {input a rest}, reader input = .ok (a, rest) → valid a ∧ write a ++ rest = input

/-! ### One reader after another -/

theorem pure_eq_ok {a b : α} :
  (Pure.pure a : Reader α) input = .ok (b, rest) ↔ a = b ∧ input = rest
  := by
  change Except.ok (a, input) = .ok (b, rest) ↔ _
  simp

theorem bind_of_ok {f : α → Reader β} {a : α} (h : reader input = .ok (a, rest)) :
  (reader >>= f) input = f a rest
  := by
  change (reader input >>= fun p => f p.1 p.2) = _
  rw [h]
  rfl

/-- One reader after another reads what the first one leaves. -/
theorem bind_eq_ok {f : α → Reader β} {b : β} (h : (reader >>= f) input = .ok (b, rest)) :
  ∃ a middle, reader input = .ok (a, middle) ∧ f a middle = .ok (b, rest)
  := by
  change (reader input >>= fun p => f p.1 p.2) = _ at h
  cases hread : reader input with
  | error fault =>
      rw [hread] at h
      contradiction
  | ok p =>
      rw [hread] at h
      use p.1, p.2, rfl, h

/-- What is written for a value is read first. -/
theorem Inverts.bind_write (hreader : Inverts reader write valid) {a : α} (ha : valid a)
    (f : α → Reader β) (rest : List UInt8) :
  (reader >>= f) (write a ++ rest) = f a rest
  := bind_of_ok (hreader.read_write ha rest)

/-- What is read first was written for a value. -/
theorem Inverts.of_bind (hreader : Inverts reader write valid) {f : α → Reader β} {b : β}
    (h : (reader >>= f) input = .ok (b, rest)) :
  ∃ a middle, valid a ∧ write a ++ middle = input ∧ f a middle = .ok (b, rest)
  := by
  obtain ⟨a, middle, hread, h⟩ := bind_eq_ok h
  obtain ⟨ha, hinput⟩ := hreader.write_read hread
  use a, middle

/-- What is made of a value is read from what is written for that. -/
theorem Inverts.map_write (hreader : Inverts reader write valid) {a : α} (ha : valid a)
    (f : α → β) (rest : List UInt8) :
  (reader >>= fun a => Pure.pure (f a)) (write a ++ rest) = .ok (f a, rest)
  := by
  rw [hreader.bind_write ha]
  rfl

theorem Inverts.of_map (hreader : Inverts reader write valid) {f : α → β} {b : β}
    (h : (reader >>= fun a => Pure.pure (f a)) input = .ok (b, rest)) :
  ∃ a, valid a ∧ f a = b ∧ write a ++ rest = input
  := by
  obtain ⟨a, middle, ha, hinput, h⟩ := hreader.of_bind h
  obtain ⟨hb, rfl⟩ := pure_eq_ok.mp h
  use a

/-! ### Numbers and bytes -/

/-- One byte is read back, whatever follows. -/
theorem u8_inverts :
  Inverts u8 (fun a => [a]) fun _ => True
  := by
  constructor
  · intro a _ rest
    rfl
  · intro input a rest h
    cases input with
    | nil => contradiction
    | cons b input =>
        obtain ⟨rfl, rfl⟩ := Prod.mk.inj (Except.ok.inj h)
        use trivial
        rfl

/-- Two bytes are read back as a number, whatever follows. -/
theorem u16_inverts :
  Inverts u16 Bytes.ofUInt16 fun _ => True
  := by
  constructor
  · intro n _ rest
    simp only [Bytes.ofUInt16, List.cons_append, List.nil_append, u16, Bytes.toUInt16_ofUInt16]
  · intro input n rest h
    unfold u16 at h
    split at h
    · obtain ⟨rfl, rfl⟩ := Prod.mk.inj (Except.ok.inj h)
      use trivial
      rw [Bytes.ofUInt16_toUInt16]
      rfl
    · contradiction

/-- Four bytes are read back as a number, whatever follows. -/
theorem u32_inverts :
  Inverts u32 Bytes.ofUInt32 fun _ => True
  := by
  constructor
  · intro n _ rest
    simp only [Bytes.ofUInt32, List.cons_append, List.nil_append, u32, Bytes.toUInt32_ofUInt32]
  · intro input n rest h
    unfold u32 at h
    split at h
    · obtain ⟨rfl, rfl⟩ := Prod.mk.inj (Except.ok.inj h)
      use trivial
      rw [Bytes.ofUInt32_toUInt32]
      rfl
    · contradiction

/-- Eight bytes are read back as a number, whatever follows. -/
theorem u64_inverts :
  Inverts u64 Bytes.ofUInt64 fun _ => True
  := by
  constructor
  · intro n _ rest
    rw [Bytes.ofUInt64, List.append_assoc, u64, u32_inverts.bind_write trivial,
      u32_inverts.bind_write trivial, Bytes.toUInt64_halves]
    rfl
  · intro input n rest h
    obtain ⟨high, _, -, hhigh, h⟩ := u32_inverts.of_bind h
    obtain ⟨low, _, -, hlow, h⟩ := u32_inverts.of_bind h
    obtain ⟨rfl, rfl⟩ := pure_eq_ok.mp h
    use trivial
    rw [Bytes.ofUInt64_toUInt64, List.append_assoc, hlow, hhigh]

/-- So many bytes are read back as they are. -/
theorem bytes_inverts (n : Nat) :
  Inverts (bytes n) id fun front => front.length = n
  := by
  constructor
  · rintro front rfl rest
    simp [bytes, List.splitAt_eq]
  · intro input front rest h
    simp only [bytes, List.splitAt_eq] at h
    split at h
    · next hlength =>
      obtain ⟨rfl, rfl⟩ := Prod.mk.inj (Except.ok.inj h)
      use hlength
      apply List.take_append_drop
    · contradiction

/-! ### Lists -/

/-- What is written for a list is read back after what was read before. -/
theorem Inverts.timesOnto_write (hreader : Inverts reader write valid) (done : List α)
    {as : List α} (has : ∀ a ∈ as, valid a) (rest : List UInt8) :
  timesOnto reader done as.length (as.flatMap write ++ rest) = .ok (done.reverse ++ as, rest)
  := by
  induction as generalizing done with
  | nil =>
      rw [List.append_nil]
      rfl
  | cons a as ih =>
      obtain ⟨ha, has⟩ := List.forall_mem_cons.mp has
      rw [List.length_cons, timesOnto, List.flatMap_cons, List.append_assoc,
        hreader.bind_write ha, ih _ has, List.reverse_cons, List.append_assoc,
        List.singleton_append]

/-- What is read so many times is the list that was written, after what was read before. -/
theorem Inverts.of_timesOnto (hreader : Inverts reader write valid) {done all : List α} {n : Nat}
    (h : timesOnto reader done n input = .ok (all, rest)) :
  ∃ as : List α, as.length = n ∧ (∀ a ∈ as, valid a) ∧ all = done.reverse ++ as
    ∧ as.flatMap write ++ rest = input
  := by
  induction n generalizing done input with
  | zero =>
      obtain ⟨rfl, rfl⟩ := pure_eq_ok.mp h
      use [], rfl, nofun, (List.append_nil _).symm
      rfl
  | succ n ih =>
      obtain ⟨a, middle, ha, hinput, h⟩ := hreader.of_bind h
      obtain ⟨as, hlength, has, rfl, hmiddle⟩ := ih h
      use a :: as, by rw [List.length_cons, hlength], List.forall_mem_cons.mpr ⟨ha, has⟩
      rw [List.reverse_cons, List.append_assoc, List.singleton_append, List.flatMap_cons,
        List.append_assoc, hmiddle]
      use rfl

/-- Values that are read one after another are those that were written so. -/
theorem Inverts.times (hreader : Inverts reader write valid) (n : Nat) :
  Inverts (times n reader) (List.flatMap write) fun as => as.length = n ∧ ∀ a ∈ as, valid a
  := by
  constructor
  · rintro as ⟨rfl, has⟩ rest
    apply hreader.timesOnto_write [] has
  · intro input as rest h
    obtain ⟨as, hlength, has, rfl, hinput⟩ := hreader.of_timesOnto h
    use ⟨hlength, has⟩, hinput

/-! ### The whole input -/

/-- A value is the whole input exactly if that is what is written for it. -/
theorem Inverts.whole_eq_ok_iff (hreader : Inverts reader write valid) {a : α} :
  whole reader input = .ok a ↔ valid a ∧ write a = input
  := by
  constructor
  · intro h
    unfold whole at h
    split at h
    · contradiction
    · next hread =>
      obtain rfl := Except.ok.inj h
      obtain ⟨ha, hinput⟩ := hreader.write_read hread
      use ha
      rwa [List.append_nil] at hinput
    · contradiction
  · rintro ⟨ha, rfl⟩
    have hread := hreader.read_write ha []
    rw [List.append_nil] at hread
    rw [whole, hread]

end Reader

end ClassForge
