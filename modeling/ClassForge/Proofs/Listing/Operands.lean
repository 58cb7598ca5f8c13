import ClassForge.Proofs.Stack.Opcodes

/-!
# Operands among any bytes

Whatever bytes follow an opcode are read as its operands, unless they are too few or the opcode does
not take them. How many bytes are taken follows from the form of the operands, from the place of the
opcode and from the counts among the operands themselves, and no other byte makes a difference.
-/

namespace ClassForge

/-! ### Readers that take a number of bytes -/

namespace Reader

variable {α β : Type} {reader : Reader α} {next : α → Reader β} {n m : Nat}
  {holds : α → Prop} {holds' : β → Prop} {input : List UInt8}

/-- The reader fails on inputs of fewer than `n` bytes. -/
def Needs (reader : Reader α) (n : Nat) : Prop :=
  ∀ {input : List UInt8}, input.length < n → ∃ fault, reader input = .error fault

/-- The reader takes `n` bytes, whatever they are, and makes a value with the property of them. -/
structure Takes (reader : Reader α) (n : Nat) (holds : α → Prop) : Prop where
  needs : reader.Needs n
  takes : ∀ bytes : List UInt8, bytes.length = n →
    ∃ a, holds a ∧ ∀ rest, reader (bytes ++ rest) = .ok (a, rest)

theorem bind_of_error {fault : ReadFault} (h : reader input = .error fault) :
  (reader >>= next) input = .error fault
  := by
  change (reader input >>= fun p => next p.1 p.2) = _
  rw [h]
  rfl

/-- A reader that throws in the end does not succeed. -/
theorem error_of_throw (reader : Reader α) (fault : ReadFault) (input : List UInt8) :
  ∃ fault', (reader >>= fun _ => (throw fault : Reader β)) input = .error fault'
  := by
  cases hread : reader input with
  | error fault' => exact ⟨fault', bind_of_error hread⟩
  | ok p =>
      use fault
      rw [bind_of_ok hread]
      rfl

theorem needs_zero (reader : Reader α) :
  reader.Needs 0
  := by
  intro input hlt
  contradiction

/-- A reader needs what its first part takes and what its second part needs. -/
theorem Takes.needs_bind (h : reader.Takes n holds) (hnext : ∀ a, holds a → (next a).Needs m) :
  (reader >>= next).Needs (n + m)
  := by
  intro input hlt
  by_cases hshort : input.length < n
  · obtain ⟨fault, hfault⟩ := h.needs hshort
    exact ⟨fault, bind_of_error hfault⟩
  · obtain ⟨a, ha, hread⟩ := h.takes (input.take n) (by rw [List.length_take]; omega)
    have hinput := hread (input.drop n)
    rw [List.take_append_drop] at hinput
    rw [bind_of_ok hinput]
    apply hnext a ha
    rw [List.length_drop]
    omega

theorem takes_pure {a : α} (ha : holds a) :
  (Pure.pure a : Reader α).Takes 0 holds
  := by
  refine ⟨needs_zero _, ?_⟩
  intro bytes hbytes
  obtain rfl := List.length_eq_zero_iff.mp hbytes
  exact ⟨a, ha, fun rest => rfl⟩

/-- A reader takes what its parts take. -/
theorem Takes.bind (h : reader.Takes n holds)
    (hnext : ∀ a, holds a → (next a).Takes m holds') :
  (reader >>= next).Takes (n + m) holds'
  := by
  refine ⟨h.needs_bind fun a ha => (hnext a ha).needs, ?_⟩
  intro bytes hbytes
  obtain ⟨a, ha, hread⟩ := h.takes (bytes.take n) (by rw [List.length_take]; omega)
  obtain ⟨b, hb, hread'⟩ := (hnext a ha).takes (bytes.drop n) (by rw [List.length_drop]; omega)
  use b, hb
  intro rest
  rw [← List.take_append_drop n bytes, List.append_assoc, bind_of_ok (hread _), hread']

theorem Takes.map (h : reader.Takes n holds) {f : α → β} (hf : ∀ a, holds a → holds' (f a)) :
  (reader >>= fun a => Pure.pure (f a)).Takes n holds'
  := h.bind fun a ha => takes_pure (hf a ha)

/-- One byte is taken for a small number. -/
theorem takes_u8 :
  u8.Takes 1 fun _ => True
  := by
  constructor
  · intro input hlt
    cases input with
    | nil => exact ⟨_, rfl⟩
    | cons a input => contradiction
  · intro bytes hbytes
    obtain ⟨a, rfl⟩ := List.length_eq_one_iff.mp hbytes
    exact ⟨a, trivial, fun rest => rfl⟩

/-- Two bytes are taken for a number of 16 bits. -/
theorem takes_u16 :
  u16.Takes 2 fun _ => True
  := by
  constructor
  · intro input hlt
    unfold u16
    split
    · simp only [List.length_cons] at hlt
      omega
    · exact ⟨_, rfl⟩
  · intro bytes hbytes
    obtain ⟨a, b, rfl⟩ := List.length_eq_two.mp hbytes
    exact ⟨_, trivial, fun rest => rfl⟩

/-- Four bytes are taken for a number of 32 bits. -/
theorem takes_u32 :
  u32.Takes 4 fun _ => True
  := by
  constructor
  · intro input hlt
    unfold u32
    split
    · simp only [List.length_cons] at hlt
      omega
    · exact ⟨_, rfl⟩
  · intro bytes hbytes
    match bytes, hbytes with
    | [a, b, c, d], _ => exact ⟨_, trivial, fun rest => rfl⟩

theorem takes_i8 :
  i8.Takes 1 fun _ => True
  := takes_u8.map fun _ _ => trivial

theorem takes_i16 :
  i16.Takes 2 fun _ => True
  := takes_u16.map fun _ _ => trivial

theorem takes_i32 :
  i32.Takes 4 fun _ => True
  := takes_u32.map fun _ _ => trivial

/-- As many bytes are taken as are asked for. -/
theorem takes_bytes (n : Nat) :
  (bytes n).Takes n fun _ => True
  := by
  constructor
  · intro input hlt
    simp only [bytes, List.splitAt_eq, List.length_take]
    rw [if_neg (by omega)]
    exact ⟨_, rfl⟩
  · intro front hfront
    exact ⟨front, trivial, (bytes_inverts n).read_write hfront⟩

/-- A reader that is repeated takes as much as often as it is repeated. -/
theorem Takes.timesOnto (h : reader.Takes n holds) (done : List α) (count : Nat) :
  (timesOnto reader done count).Takes (n * count) fun as => as.length = done.length + count
  := by
  induction count generalizing done with
  | zero => exact takes_pure List.length_reverse
  | succ count ih =>
      rw [Nat.mul_succ, Nat.add_comm (n * count)]
      apply h.bind
      intro a _
      have hnext := ih (a :: done)
      rwa [List.length_cons, Nat.add_right_comm] at hnext

theorem Takes.times (h : reader.Takes n holds) (count : Nat) :
  (times count reader).Takes (n * count) fun as => as.length = count
  := by
  have hall := h.timesOnto [] count
  rwa [List.length_nil, Nat.zero_add] at hall

end Reader

/-- A number that is not negative has the same value without its sign. -/
theorem Bytes.toNat_toUInt32_of_nonneg {value : Int32} (h : 0 ≤ value.toInt) :
  value.toUInt32.toNat = value.toInt.toNat
  := by
  have hcases : value.toInt = if 2 * value.toUInt32.toNat < 4294967296
      then (value.toUInt32.toNat : Int) else (value.toUInt32.toNat : Int) - (4294967296 : Nat) :=
    BitVec.toInt_eq_toNat_cond value.toBitVec
  have hlt := value.toUInt32.toNat_lt
  split_ifs at hcases
  all_goals omega

theorem Bytes.length_ofUInt32 (value : UInt32) :
  (ofUInt32 value).length = 4
  := rfl

theorem Bytes.uint32At?_eq_none {bytes : List UInt8} {place : Nat}
    (h : bytes.length < place + 4) :
  uint32At? bytes place = none
  := by
  have hlast : bytes[place + 3]? = none := List.getElem?_eq_none (by omega)
  simp [uint32At?, hlast]

/-! ### Operands -/

theorem Primitive.ofArrayCode?_eq_none_iff {code : UInt8} :
  ofArrayCode? code = none ↔ code < 4 ∨ 11 < code
  := by
  simp [ofArrayCode?, arrayCode?, UInt8.lt_iff_toNat_lt, ← UInt8.toNat_inj]
  omega

namespace Opcode

/-- The opcode at `offset` does not take the operands after it. There is no such type of elements,
the opcode that is widened has no wide form, or a switch has keys that do not run upwards or has
more cases than it may have. -/
def Refuses (offset : Nat) (opcode : UInt8) (rest : List UInt8) : Prop :=
  match form opcode with
  | .element => ∃ code ∈ rest.head?, code < 4 ∨ 11 < code
  | .wide => ∃ widened ∈ rest.head?, widened ≠ iinc ∧ ¬ takesSlot widened
  | .table =>
    ∃ low ∈ Bytes.uint32At? rest (switchPadding offset + 4),
      ∃ high ∈ Bytes.uint32At? rest (switchPadding offset + 8),
        high.toInt32.toInt < low.toInt32.toInt
          ∨ 65536 ≤ high.toInt32.toInt - low.toInt32.toInt
  | .lookup =>
    ∃ count ∈ Bytes.uint32At? rest (switchPadding offset + 4),
      count.toInt32.toInt < 0 ∨ 65536 ≤ count.toInt32.toInt
  | _ => False

/-- The code ends before the operands of the opcode at `offset`, or before it is known how long they
are. -/
def Truncates (offset : Nat) (opcode : UInt8) (rest : List UInt8) : Prop :=
  ∀ length ∈ operandLength? offset opcode rest, rest.length < length

end Opcode

namespace Operands

open Reader

variable {offset n : Nat} {opcode : UInt8} {rest : List UInt8} {next : Reader Operands}

/-- The operands of the opcode at `offset` are there and can be read, or there is a reason why they
cannot. -/
def Settled (offset : Nat) (opcode : UInt8) (rest : List UInt8) : Prop :=
  (∃ operands bytes rest', rest = bytes ++ rest'
      ∧ Operands.StandsIn offset (Opcode.form opcode) bytes operands
      ∧ Opcode.operandLength? offset opcode rest = some bytes.length
      ∧ ¬ Opcode.Refuses offset opcode rest)
    ∨ (∃ fault, read offset (Opcode.form opcode) rest = .error fault)
      ∧ (Opcode.Refuses offset opcode rest ∨ Opcode.Truncates offset opcode rest)

theorem takes_readCase :
  readCase.Takes 8 fun _ => True
  := takes_i32.bind fun _ _ => takes_i32.map fun _ _ => trivial

/-- Once the front is read, a number of bytes is left to take. -/
theorem settled_of_takes (front : List UInt8) (next : Reader Operands)
    (hfront : ∀ rest, read offset (Opcode.form opcode) (front ++ rest) = next rest)
    (hnext : next.Takes n fun operands => operands.size offset = front.length + n)
    (hlength : Opcode.operandLength? offset opcode (front ++ rest) = some (front.length + n))
    (hrefuses : ¬ Opcode.Refuses offset opcode (front ++ rest)) :
  Settled offset opcode (front ++ rest)
  := by
  by_cases hle : n ≤ rest.length
  · obtain ⟨operands, hsize, hread⟩ := hnext.takes (rest.take n) (List.length_take_of_le hle)
    have hbytes : (front ++ rest.take n).length = front.length + n := by
      rw [List.length_append, List.length_take_of_le hle]
    refine .inl ⟨operands, front ++ rest.take n, rest.drop n, ?_, ⟨?_, ?_⟩, ?_, hrefuses⟩
    · rw [List.append_assoc, List.take_append_drop]
    · rw [hbytes, hsize]
    · intro rest'
      rw [List.append_assoc, hfront, hread]
    · rw [hlength, hbytes]
  · obtain ⟨fault, hfault⟩ := hnext.needs (Nat.lt_of_not_le hle)
    refine .inr ⟨⟨fault, by rw [hfront, hfault]⟩, .inr ?_⟩
    intro length hmem
    obtain rfl := Option.some.inj (hlength.symm.trans hmem)
    rw [List.length_append]
    omega

/-- Operands of a length that is fixed. -/
theorem settled_of_fixed
    (hread : (read offset (Opcode.form opcode)).Takes n fun operands => operands.size offset = n)
    (hlength : Opcode.operandLength? offset opcode rest = some n)
    (hrefuses : ¬ Opcode.Refuses offset opcode rest) :
  Settled offset opcode rest
  := by
  apply settled_of_takes [] _ (fun _ => rfl) (n := n) _ _ hrefuses
  · simpa using hread
  · simpa using hlength

/-- The code is too short even for what the length follows from. -/
theorem settled_of_needs (hneeds : (read offset (Opcode.form opcode)).Needs n)
    (hlt : rest.length < n) (htruncates : Opcode.Truncates offset opcode rest) :
  Settled offset opcode rest
  := .inr ⟨hneeds hlt, .inr htruncates⟩

/-- The operand of an opcode that creates arrays is read if it is the code of a primitive type. -/
theorem settled_element (hform : Opcode.form opcode = .element) :
  Settled offset opcode rest
  := by
  have hlength (rest : List UInt8) : Opcode.operandLength? offset opcode rest = some 1 := by
    rw [Opcode.operandLength?, hform]
  cases rest with
  | nil =>
      apply settled_of_needs _ Nat.zero_lt_one
      · simp [Opcode.Truncates, hlength]
      · rw [hform]
        exact takes_u8.needs_bind (m := 0) fun _ _ => needs_zero _
  | cons code rest =>
      have hrefuses : Opcode.Refuses offset opcode (code :: rest)
          ↔ Primitive.ofArrayCode? code = .none := by
        simp [Opcode.Refuses, hform, Primitive.ofArrayCode?_eq_none_iff]
      cases hcode : Primitive.ofArrayCode? code with
      | none =>
          refine .inr ⟨⟨.endOfInput, ?_⟩, .inl (hrefuses.mpr hcode)⟩
          rw [hform, read, readElement, ← List.singleton_append,
            Reader.u8_inverts.bind_write trivial, hcode]
          rfl
      | some type =>
          apply settled_of_takes [code] (Pure.pure (.element type)) (n := 0)
          · intro rest
            rw [hform, read, readElement, Reader.u8_inverts.bind_write trivial, hcode]
          · exact takes_pure rfl
          · apply hlength
          · rw [List.singleton_append, hrefuses, hcode]
            simp

/-- The operands of a widened opcode are read if the opcode can be widened. There are two more bytes
if it is the increment. -/
theorem settled_wide (hform : Opcode.form opcode = .wide) :
  Settled offset opcode rest
  := by
  cases rest with
  | nil =>
      apply settled_of_needs _ Nat.zero_lt_one
      · simp [Opcode.Truncates, Opcode.operandLength?, hform]
      · rw [hform]
        exact takes_u8.needs_bind (m := 0) fun _ _ => needs_zero _
  | cons widened rest =>
      have hrefuses : Opcode.Refuses offset opcode (widened :: rest)
          ↔ widened ≠ Opcode.iinc ∧ ¬ Opcode.takesSlot widened := by
        simp [Opcode.Refuses, hform]
      by_cases hinc : widened = Opcode.iinc
      · apply settled_of_takes [widened]
          (do return .wideIncrement (← Reader.u16) (← Reader.i16)) (n := 4)
        · intro rest
          rw [hform, read, readWide, Reader.u8_inverts.bind_write trivial]
          simp only [if_pos hinc]
        · apply takes_u16.bind (m := 2)
          intro slot _
          exact takes_i16.map fun delta _ => rfl
        · simp [Opcode.operandLength?, hform, hinc]
        · rw [List.singleton_append, hrefuses]
          simp [hinc]
      by_cases hslot : Opcode.takesSlot widened
      · apply settled_of_takes [widened] (do return .wideSlot widened (← Reader.u16)) (n := 2)
        · intro rest
          rw [hform, read, readWide, Reader.u8_inverts.bind_write trivial]
          simp only [if_neg hinc, if_pos hslot]
        · exact takes_u16.map fun slot _ => rfl
        · simp [Opcode.operandLength?, hform, hinc]
        · rw [List.singleton_append, hrefuses]
          simp [hslot]
      · refine .inr ⟨?_, .inl (hrefuses.mpr ⟨hinc, hslot⟩)⟩
        rw [hform, read, readWide, ← List.singleton_append, Reader.u8_inverts.bind_write trivial]
        simp only [if_neg hinc, if_neg hslot]
        apply error_of_throw

/-! ### Switches -/

/-- What a switch starts with: bytes up to a multiple of four, then numbers of 32 bits. -/
def switchFront (padding : List UInt8) (words : List Int32) : List UInt8 :=
  padding ++ words.flatMap fun word => Bytes.ofUInt32 word.toUInt32

/-- The bytes in front of the distances of a switch. -/
theorem length_switchFront (padding : List UInt8) (words : List Int32) :
  (switchFront padding words).length = padding.length + 4 * words.length
  := by
  induction words with
  | nil =>
      rw [switchFront, List.flatMap_nil, List.append_nil]
      rfl
  | cons word words ih =>
      rw [switchFront, List.length_append] at ih ⊢
      rw [List.flatMap_cons, List.length_append, Bytes.length_ofUInt32, List.length_cons]
      omega

/-- A word in front of the distances of a switch is found at its place. -/
theorem uint32At?_switchFront {padding : List UInt8} (hpadding : padding.length = n)
    (rest : List UInt8) {words : List Int32} {i : Nat} {word : Int32} (h : words[i]? = some word) :
  Bytes.uint32At? (switchFront padding words ++ rest) (n + 4 * i) = some word.toUInt32
  := by
  obtain ⟨hlt, rfl⟩ := List.getElem?_eq_some_iff.mp h
  apply Bytes.uint32At?_of_eq (switchFront padding (words.take i))
    ((words.drop (i + 1)).flatMap (fun word => Bytes.ofUInt32 word.toUInt32) ++ rest)
  · conv_lhs => rw [← List.take_append_drop i words, List.drop_eq_getElem_cons hlt]
    simp only [switchFront, List.flatMap_append, List.flatMap_cons, List.append_assoc]
  · rw [length_switchFront, hpadding, List.length_take_of_le (Nat.le_of_lt hlt)]

/-- A switch starts so if there are bytes enough. -/
theorem exists_switchFront {count : Nat} (h : n + 4 * count ≤ rest.length) :
  ∃ padding words rest', padding.length = n ∧ words.length = count
    ∧ rest = switchFront padding words ++ rest'
  := by
  have hdrop : 4 * count ≤ (rest.drop n).length := by
    rw [List.length_drop]
    omega
  obtain ⟨words, hwords, hread⟩ := (takes_i32.times count).takes
    ((rest.drop n).take (4 * count)) (List.length_take_of_le hdrop)
  have hinput := hread ((rest.drop n).drop (4 * count))
  rw [List.take_append_drop] at hinput
  obtain ⟨-, hrest⟩ := (Reader.i32_inverts.times count).write_read hinput
  use rest.take n, words, (rest.drop n).drop (4 * count), List.length_take_of_le (by omega), hwords
  rw [switchFront, List.append_assoc, hrest, List.take_append_drop]

section

variable {padding : List UInt8} (hpadding : padding.length = switchPadding offset)

include hpadding

/-- A table is read as its front tells: its keys are counted before its distances are read. -/
theorem read_tableFront (fallback low high : Int32) (rest : List UInt8) :
  read offset .table (switchFront padding [fallback, low, high] ++ rest)
    = (if Switch.span low high ≤ 0 ∨ 65536 < Switch.span low high then throw .endOfInput
      else do
        let distances ← Reader.times (Switch.span low high).toNat Reader.i32
        return .table fallback low high distances : Reader Operands) rest
  := by
  simp only [switchFront, List.flatMap_cons, List.flatMap_nil, List.append_nil, List.append_assoc]
  rw [read, read_padding hpadding, readTable, Reader.i32_inverts.bind_write trivial,
    Reader.i32_inverts.bind_write trivial, Reader.i32_inverts.bind_write trivial]
  unfold Switch.span
  split <;> rfl

/-- A lookup is read as its front tells: its cases are counted before they are read. -/
theorem read_lookupFront (fallback count : Int32) (rest : List UInt8) :
  read offset .lookup (switchFront padding [fallback, count] ++ rest)
    = (if count.toInt < 0 ∨ 65536 ≤ count.toInt then throw .endOfInput
      else do
        let cases ← Reader.times count.toInt.toNat readCase
        return .lookup fallback cases : Reader Operands) rest
  := by
  simp only [switchFront, List.flatMap_cons, List.flatMap_nil, List.append_nil, List.append_assoc]
  rw [read, read_padding hpadding, readLookup, Reader.i32_inverts.bind_write trivial,
    Reader.i32_inverts.bind_write trivial]
  split <;> rfl

/-- A table whose first and last key are there. -/
theorem settled_tableFront (hform : Opcode.form opcode = .table) (fallback low high : Int32) :
  Settled offset opcode (switchFront padding [fallback, low, high] ++ rest)
  := by
  have hlow : Bytes.uint32At? (switchFront padding [fallback, low, high] ++ rest)
      (switchPadding offset + 4) = some low.toUInt32 :=
    uint32At?_switchFront hpadding rest (i := 1) rfl
  have hhigh : Bytes.uint32At? (switchFront padding [fallback, low, high] ++ rest)
      (switchPadding offset + 8) = some high.toUInt32 :=
    uint32At?_switchFront hpadding rest (i := 2) rfl
  have hfront : (switchFront padding [fallback, low, high]).length = switchPadding offset + 12 := by
    rw [length_switchFront, hpadding]
    rfl
  have hread := read_tableFront hpadding fallback low high
  have hrefuses : Opcode.Refuses offset opcode (switchFront padding [fallback, low, high] ++ rest)
      ↔ high.toInt < low.toInt ∨ 65536 ≤ high.toInt - low.toInt := by
    simp only [Opcode.Refuses, hform, hlow, hhigh, Option.mem_some_iff, exists_eq_left',
      Int32.toInt32_toUInt32]
  by_cases hspan : Switch.span low high ≤ 0 ∨ 65536 < Switch.span low high
  · refine .inr ⟨⟨.endOfInput, ?_⟩, .inl (hrefuses.mpr ?_)⟩
    · rw [hform, hread, if_pos hspan]
      rfl
    · unfold Switch.span at hspan
      omega
  · simp only [if_neg hspan] at hread
    rw [← hform] at hread
    apply settled_of_takes _ _ hread (n := 4 * (Switch.span low high).toNat)
    · apply (takes_i32.times _).map
      intro distances hdistances
      rw [size, hdistances, hfront]
    · simp only [Opcode.operandLength?, hform, hlow, hhigh, hfront, Option.bind_eq_bind,
        Option.bind_some, Option.pure_def, Int32.toInt32_toUInt32]
    · rw [hrefuses]
      unfold Switch.span at hspan
      omega

/-- A lookup whose number of pairs is there. -/
theorem settled_lookupFront (hform : Opcode.form opcode = .lookup) (fallback count : Int32) :
  Settled offset opcode (switchFront padding [fallback, count] ++ rest)
  := by
  have hcount : Bytes.uint32At? (switchFront padding [fallback, count] ++ rest)
      (switchPadding offset + 4) = some count.toUInt32 :=
    uint32At?_switchFront hpadding rest (i := 1) rfl
  have hfront : (switchFront padding [fallback, count]).length = switchPadding offset + 8 := by
    rw [length_switchFront, hpadding]
    rfl
  have hread := read_lookupFront hpadding fallback count
  have hrefuses : Opcode.Refuses offset opcode (switchFront padding [fallback, count] ++ rest)
      ↔ count.toInt < 0 ∨ 65536 ≤ count.toInt := by
    simp only [Opcode.Refuses, hform, hcount, Option.mem_some_iff, exists_eq_left',
      Int32.toInt32_toUInt32]
  by_cases hrange : count.toInt < 0 ∨ 65536 ≤ count.toInt
  · refine .inr ⟨⟨.endOfInput, ?_⟩, .inl (hrefuses.mpr hrange)⟩
    rw [hform, hread, if_pos hrange]
    rfl
  · simp only [if_neg hrange] at hread
    rw [← hform] at hread
    have hnat : count.toUInt32.toNat = count.toInt.toNat :=
      Bytes.toNat_toUInt32_of_nonneg (by omega)
    apply settled_of_takes _ _ hread (n := 8 * count.toInt.toNat)
    · apply (takes_readCase.times _).map
      intro cases hcases
      rw [size, hcases, hfront]
    · simp only [Opcode.operandLength?, hform, hcount, hfront, hnat, Option.bind_eq_bind,
        Option.bind_some, Option.pure_def]
    · rwa [hrefuses]

end

/-- The operands of a table are read if its keys are not too many and all distances are there. -/
theorem settled_table (hform : Opcode.form opcode = .table) :
  Settled offset opcode rest
  := by
  by_cases hlong : switchPadding offset + 4 * 3 ≤ rest.length
  · obtain ⟨padding, words, rest, hpadding, hwords, rfl⟩ := exists_switchFront hlong
    obtain ⟨fallback, low, high, rfl⟩ := List.length_eq_three.mp hwords
    apply settled_tableFront hpadding hform
  · apply settled_of_needs _ (Nat.lt_of_not_le hlong)
    · have hhigh : Bytes.uint32At? rest (switchPadding offset + 8) = .none :=
        Bytes.uint32At?_eq_none (by omega)
      simp [Opcode.Truncates, Opcode.operandLength?, hform, hhigh]
    · rw [hform]
      apply (takes_bytes _).needs_bind
      intro _ _
      apply takes_i32.needs_bind (m := 8)
      intro fallback _
      apply takes_i32.needs_bind (m := 4)
      intro low _
      exact takes_i32.needs_bind (m := 0) fun high _ => needs_zero _

/-- The operands of a lookup are read if its cases are not too many and all of them are there. -/
theorem settled_lookup (hform : Opcode.form opcode = .lookup) :
  Settled offset opcode rest
  := by
  by_cases hlong : switchPadding offset + 4 * 2 ≤ rest.length
  · obtain ⟨padding, words, rest, hpadding, hwords, rfl⟩ := exists_switchFront hlong
    obtain ⟨fallback, count, rfl⟩ := List.length_eq_two.mp hwords
    apply settled_lookupFront hpadding hform
  · apply settled_of_needs _ (Nat.lt_of_not_le hlong)
    · have hcount : Bytes.uint32At? rest (switchPadding offset + 4) = .none :=
        Bytes.uint32At?_eq_none (by omega)
      simp [Opcode.Truncates, Opcode.operandLength?, hform, hcount]
    · rw [hform]
      apply (takes_bytes _).needs_bind
      intro _ _
      apply takes_i32.needs_bind (m := 4)
      intro fallback _
      exact takes_i32.needs_bind (m := 0) fun count _ => needs_zero _

/-! ### All forms -/

/-- Whatever follows an opcode is read as its operands, or there is a reason why it is not. -/
theorem settled (offset : Nat) (opcode : UInt8) (rest : List UInt8) :
  Settled offset opcode rest
  := by
  cases hform : Opcode.form opcode
  case element => apply settled_element hform
  case wide => apply settled_wide hform
  case table => apply settled_table hform
  case lookup => apply settled_lookup hform
  all_goals
    refine settled_of_fixed ?_ (by rw [Opcode.operandLength?, hform])
      (by simp [Opcode.Refuses, hform])
    rw [hform]
  case none => exact takes_pure rfl
  case int8 => exact takes_i8.map fun _ _ => rfl
  case int16 | near => exact takes_i16.map fun _ _ => rfl
  case pool8 | slot => exact takes_u8.map fun _ _ => rfl
  case pool16 => exact takes_u16.map fun _ _ => rfl
  case far => exact takes_i32.map fun _ _ => rfl
  case increment =>
    apply takes_u8.bind (m := 1)
    intro slot _
    exact takes_i8.map fun _ _ => rfl
  case interfaceCall =>
    apply takes_u16.bind (m := 2)
    intro index _
    apply takes_u8.bind (m := 1)
    intro count _
    exact takes_u8.map fun _ _ => rfl
  case dynamicCall =>
    apply takes_u16.bind (m := 2)
    intro index _
    exact takes_u16.map fun _ _ => rfl
  case arrays =>
    apply takes_u16.bind (m := 1)
    intro index _
    exact takes_u8.map fun _ _ => rfl

end Operands

end ClassForge
