import ClassForge.Pool.Frozen
import ClassForge.Proofs.Text.ModifiedUtf8

/-!
# Stored texts

The record of a text has its modified UTF-8. How many bytes that takes is counted character by
character, with two for NUL and a pair of surrogates beyond the basic plane. None of the bytes is
zero, and none is one that plain UTF-8 uses only there. A text that takes too many bytes has no
record, and any other is read back from its record.
-/

namespace ClassForge

namespace Text.ModifiedUtf8

/-! ### The number of bytes -/

/-- The number of bytes of a character: two for NUL, and six for a pair of surrogates. -/
def charSize (c : Char) : Nat :=
  if c.toNat = 0 then 2
  else if c.toNat < 0x80 then 1
  else if c.toNat < 0x800 then 2
  else if c.toNat < 0x10000 then 3
  else 6

/-- The number of bytes of a text. -/
def size (s : String) : Nat :=
  s.toList.foldr (fun c total => charSize c + total) 0

theorem length_encodeChar (c : Char) :
  (encodeChar c).length = charSize c
  := by
  rw [encodeChar, charSize]
  split_ifs <;> rfl

/-- The size of a text is the number of its bytes. -/
theorem length_encode (s : String) :
  (encode s).length = size s
  := by
  rw [encode, size]
  induction s.toList with
  | nil => rfl
  | cons c cs ih =>
      rw [List.flatMap_cons, List.length_append, length_encodeChar, ih, List.foldr_cons]

/-! ### The range of the bytes -/

/-- A number in the range is a byte in the range. -/
theorem ofNat_inRange {n : Nat} (hpos : 0 < n) (hlt : n < 0xf0) :
  UInt8.ofNat n ≠ 0 ∧ UInt8.ofNat n < 0xf0
  := by
  have htoNat : (UInt8.ofNat n).toNat = n := toNat_ofNat_of_lt (by omega)
  constructor
  · intro hzero
    rw [hzero] at htoNat
    exact Nat.ne_of_lt hpos htoNat
  · rw [UInt8.lt_iff_toNat_lt, htoNat]
    apply hlt

theorem threeBytes_inRange {code : Nat} (h : code < 0x10000) :
  ∀ b ∈ threeBytes code, b ≠ 0 ∧ b < 0xf0
  := by
  simp only [threeBytes, List.forall_mem_cons]
  refine ⟨ofNat_inRange ?_ ?_, ofNat_inRange ?_ ?_, ofNat_inRange ?_ ?_, List.forall_mem_nil _⟩ <;>
    omega

/-- No byte of a character is zero or starts a form of four bytes. -/
theorem encodeChar_inRange (c : Char) :
  ∀ b ∈ encodeChar c, b ≠ 0 ∧ b < 0xf0
  := by
  have hvalid : c.toNat < 0xd800 ∨ 0xdfff < c.toNat ∧ c.toNat < 0x110000 := c.valid
  rw [encodeChar]
  split_ifs with hzero hone htwo hthree
  · simp only [List.forall_mem_cons]
    exact ⟨by decide, by decide, List.forall_mem_nil _⟩
  · simp only [List.forall_mem_cons]
    exact ⟨ofNat_inRange (by omega) (by omega), List.forall_mem_nil _⟩
  · simp only [List.forall_mem_cons]
    exact ⟨ofNat_inRange (by omega) (by omega), ofNat_inRange (by omega) (by omega),
      List.forall_mem_nil _⟩
  · apply threeBytes_inRange hthree
  · intro b hb
    obtain hb | hb := List.mem_append.mp hb
    · apply threeBytes_inRange (by omega) b hb
    · apply threeBytes_inRange (by omega) b hb

theorem encode_inRange (s : String) :
  ∀ b ∈ encode s, b ≠ 0 ∧ b < 0xf0
  := by
  intro b hb
  obtain ⟨c, -, hb⟩ := List.mem_flatMap.mp hb
  apply encodeChar_inRange c b hb

end Text.ModifiedUtf8

/-! ### Records of texts -/

open Text

/-- A text has no record exactly if it takes more than 65535 bytes. Otherwise its record tells
their number, they are all in range, and the text is read back from them, be they read as plain
UTF-8 or not. -/
theorem Record.ofText_readsBack (s : String) :
  (∀ e, Record.ofText s = .error e
    ↔ 65535 < ModifiedUtf8.size s ∧ e = .utf8TooLong (ModifiedUtf8.size s))
  ∧ (ModifiedUtf8.size s ≤ 65535 → ∃ length bytes, Record.ofText s = .ok (.utf8 length bytes)
    ∧ bytes = ModifiedUtf8.encode s ∧ bytes.length = ModifiedUtf8.size s
    ∧ length.toNat = bytes.length ∧ (∀ b ∈ bytes, b ≠ 0 ∧ b < 0xf0)
    ∧ ModifiedUtf8.text bytes = s)
  := by
  rw [Record.ofText]
  simp only [ModifiedUtf8.length_encode]
  by_cases hsize : ModifiedUtf8.size s ≤ 65535
  · rw [if_pos hsize]
    constructor
    · intro e
      constructor
      · intro herror
        contradiction
      · rintro ⟨hlt, -⟩
        omega
    · intro _
      refine ⟨_, _, rfl, rfl, ModifiedUtf8.length_encode s, ?_, ModifiedUtf8.encode_inRange s,
        ModifiedUtf8.text_encode s⟩
      rw [ModifiedUtf8.length_encode]
      apply UInt16.toNat_ofNat_of_lt
      apply Nat.lt_succ_of_le hsize
  · rw [if_neg hsize]
    constructor
    · intro e
      constructor
      · intro herror
        obtain rfl := Except.error.inj herror
        exact ⟨by omega, rfl⟩
      · rintro ⟨-, rfl⟩
        rfl
    · intro hle
      contradiction

/-- NUL between two letters, and a character beyond the basic plane. -/
def mixedText : String :=
  "a\x00é😀"

/-- The text is read back: NUL takes two bytes and the last character six. -/
theorem Record.ofText_mixedText_readsBack :
  ModifiedUtf8.size mixedText = 11
  ∧ ∃ length bytes, Record.ofText mixedText = .ok (.utf8 length bytes) ∧ length.toNat = 11
    ∧ ModifiedUtf8.text bytes = mixedText
  := by
  have hsize : ModifiedUtf8.size mixedText = 11 := by decide
  use hsize
  obtain ⟨length, bytes, hrecord, -, hbytes, hlength, -, htext⟩ :=
    (Record.ofText_readsBack mixedText).2 (by rw [hsize]; decide)
  use length, bytes, hrecord
  rw [hlength, hbytes, hsize]
  use rfl

end ClassForge
