/-!
# Plain UTF-8

Bytes are read as a sequence of symbols. A symbol is a character, or `none` for a stretch of
bytes that is no character: the longest start of a valid form that is broken off, or a single
byte that starts no form. Reading strictly accepts the bytes whose symbols are all
characters; reading leniently puts the replacement character for each of the others.
-/

namespace ClassForge.Text.Utf8

/-- What follows a lead byte: the number of continuation bytes, the bounds of the first of
them, and the bits the lead byte contributes. -/
structure Form where
  continuations : Nat
  low : UInt8
  high : UInt8
  leadBits : Nat

/-- The form that starts with `lead`, if there is one. -/
def Form.ofLead? (lead : UInt8) : Option Form :=
  if lead < 0x80 then some ⟨0, 0x80, 0xbf, lead.toNat⟩
  else if lead < 0xc2 then none
  else if lead < 0xe0 then some ⟨1, 0x80, 0xbf, lead.toNat - 0xc0⟩
  else if lead = 0xe0 then some ⟨2, 0xa0, 0xbf, 0⟩
  else if lead = 0xed then some ⟨2, 0x80, 0x9f, 0xd⟩
  else if lead < 0xf0 then some ⟨2, 0x80, 0xbf, lead.toNat - 0xe0⟩
  else if lead = 0xf0 then some ⟨3, 0x90, 0xbf, 0⟩
  else if lead < 0xf4 then some ⟨3, 0x80, 0xbf, lead.toNat - 0xf0⟩
  else if lead = 0xf4 then some ⟨3, 0x80, 0x8f, 4⟩
  else none

/-- Reads `n` continuation bytes, the first of them between `low` and `high`, onto the bits
`code`. Gives the completed code, or `none` together with the bytes from the first one that
does not fit. -/
def continue? : (n : Nat) → (low high : UInt8) → (code : Nat) → List UInt8 → Option Nat × List UInt8
  | 0, _, _, code, rest => (some code, rest)
  | _ + 1, _, _, _, [] => (none, [])
  | n + 1, low, high, code, byte :: rest =>
    if low ≤ byte && byte ≤ high then
      continue? n 0x80 0xbf (code * 64 + byte.toNat % 64) rest
    else
      (none, byte :: rest)

/-- What is left after continuation bytes were read is not longer. -/
theorem length_continue?_le (n : Nat) (low high : UInt8) (code : Nat) (bytes : List UInt8) :
  (continue? n low high code bytes).2.length ≤ bytes.length
  := by
  induction n generalizing low high code bytes with
  | zero => simp [continue?]
  | succ n ih =>
    cases bytes with
    | nil => simp [continue?]
    | cons byte rest =>
      rw [continue?]
      split
      · have := ih 0x80 0xbf (code * 64 + byte.toNat % 64) rest
        simp only [List.length_cons]
        omega
      · simp

/-- The first symbol of `lead :: rest`, and what follows it. -/
def symbol (lead : UInt8) (rest : List UInt8) : Option Char × List UInt8 :=
  match Form.ofLead? lead with
  | none => (none, rest)
  | some form =>
    let (code, rest) := continue? form.continuations form.low form.high form.leadBits rest
    (code.map Char.ofNat, rest)

theorem length_symbol_le (lead : UInt8) (rest : List UInt8) :
  (symbol lead rest).2.length ≤ rest.length
  := by
  rw [symbol]
  split
  · apply Nat.le_refl
  · apply length_continue?_le

/-- The symbols of `bytes`, after those of `done` in reverse. -/
def symbolsOnto (done : List (Option Char)) (bytes : List UInt8) : List (Option Char) :=
  match bytes with
  | [] => done.reverse
  | lead :: rest =>
    have := length_symbol_le lead rest
    symbolsOnto ((symbol lead rest).1 :: done) (symbol lead rest).2
termination_by bytes.length
decreasing_by
  simp only [List.length_cons]
  omega

/-- The symbols of `bytes`. -/
def symbols (bytes : List UInt8) : List (Option Char) :=
  symbolsOnto [] bytes

/-- The text of `bytes`, if they are UTF-8. -/
def decode? (bytes : List UInt8) : Option String :=
  ((symbols bytes).mapM id).map String.ofList

/-- The text of `bytes`, with the replacement character wherever they are not UTF-8. -/
def decodeLossy (bytes : List UInt8) : String :=
  String.ofList ((symbols bytes).map (·.getD (Char.ofNat 0xfffd)))

end ClassForge.Text.Utf8
