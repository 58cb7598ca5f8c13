import ClassForge.Text.Utf8

/-!
# Modified UTF-8

The form in which a class file stores text. It has no zero byte and no form of four bytes:
NUL takes two bytes, and a character beyond the basic plane is written as a pair of
surrogates of three bytes each.

`encode` writes a text. `decode?` reads back exactly such forms, and `text` reads arbitrary
bytes: as plain UTF-8 if they are that, as modified UTF-8 if they are that, and otherwise
with replacement characters.
-/

namespace ClassForge.Text.ModifiedUtf8

/-- The three bytes of a code below `0x10000`, a surrogate included. -/
def threeBytes (code : Nat) : List UInt8 :=
  [UInt8.ofNat (0xe0 + code / 0x1000), UInt8.ofNat (0x80 + code / 0x40 % 0x40),
    UInt8.ofNat (0x80 + code % 0x40)]

/-- The bytes of one character. -/
def encodeChar (c : Char) : List UInt8 :=
  let code := c.toNat
  if code = 0 then [0xc0, 0x80]
  else if code < 0x80 then [UInt8.ofNat code]
  else if code < 0x800 then [UInt8.ofNat (0xc0 + code / 0x40), UInt8.ofNat (0x80 + code % 0x40)]
  else if code < 0x10000 then threeBytes code
  else
    threeBytes (0xd800 + (code - 0x10000) / 0x400) ++ threeBytes (0xdc00 + (code - 0x10000) % 0x400)

/-- The bytes of a text. -/
def encode (s : String) : List UInt8 :=
  s.toList.flatMap encodeChar

/-- Whether `byte` continues a form. -/
def isContinuation (byte : UInt8) : Bool :=
  0x80 ≤ byte && byte ≤ 0xbf

/-- Whether a form of three bytes may start with `lead` and `second`. -/
def startsThree (lead second : UInt8) : Bool :=
  (lead = 0xe0 && 0xa0 ≤ second && second ≤ 0xbf)
    || (0xe1 ≤ lead && lead ≤ 0xec && isContinuation second)
    || (lead = 0xed && 0x80 ≤ second && second ≤ 0x9f)
    || (0xee ≤ lead && lead ≤ 0xef && isContinuation second)

/-- The low six bits of a byte. -/
def lowBits (byte : UInt8) : Nat :=
  byte.toNat % 0x40

/-- The character of a pair of surrogates, given by the last two bytes of each. -/
def pairChar (second third fifth sixth : UInt8) : Char :=
  Char.ofNat
    (0x10000 + ((lowBits second - 0x20) * 0x40 + lowBits third) * 0x400
      + ((lowBits fifth - 0x30) * 0x40 + lowBits sixth))

/-- The first character of `lead :: rest`, and what follows it. -/
def readChar? (lead : UInt8) (rest : List UInt8) : Option (Char × List UInt8) :=
  if lead = 0 then none
  else if lead < 0x80 then some (Char.ofNat lead.toNat, rest)
  else
    match rest with
    | [] => none
    | second :: rest =>
      if lead = 0xc0 then
        if second = 0x80 then some (Char.ofNat 0, rest) else none
      else if 0xc2 ≤ lead && lead ≤ 0xdf then
        if isContinuation second then
          some (Char.ofNat ((lead.toNat - 0xc0) * 0x40 + lowBits second), rest)
        else none
      else
        match rest with
        | [] => none
        | third :: rest =>
          if startsThree lead second && isContinuation third then
            some
              (Char.ofNat ((lead.toNat - 0xe0) * 0x1000 + lowBits second * 0x40 + lowBits third),
                rest)
          else if lead = 0xed && 0xa0 ≤ second && second ≤ 0xaf && isContinuation third then
            match rest with
            | fourth :: fifth :: sixth :: rest =>
              if fourth = 0xed && 0xb0 ≤ fifth && fifth ≤ 0xbf && isContinuation sixth then
                some (pairChar second third fifth sixth, rest)
              else none
            | _ => none
          else none

/-- What is left after a character was read is not longer. -/
theorem length_of_readChar? {lead : UInt8} {rest rest' : List UInt8} {c : Char}
    (h : readChar? lead rest = some (c, rest')) :
  rest'.length ≤ rest.length
  := by
  unfold readChar? at h
  repeat' split at h
  all_goals
    first
    | contradiction
    | obtain ⟨-, rfl⟩ := Prod.mk.inj (Option.some.inj h)
      grind

/-- The characters of `bytes`, after those of `done` in reverse. -/
def charsOnto (done : List Char) (bytes : List UInt8) : Option (List Char) :=
  match bytes with
  | [] => some done.reverse
  | lead :: rest =>
    match h : readChar? lead rest with
    | none => none
    | some (c, rest') =>
      have := length_of_readChar? h
      charsOnto (c :: done) rest'
termination_by bytes.length
decreasing_by
  simp only [List.length_cons]
  omega

/-- The text of `bytes`, if they are modified UTF-8. -/
def decode? (bytes : List UInt8) : Option String :=
  (charsOnto [] bytes).map String.ofList

/-- The text of `bytes`, whatever they are. -/
def text (bytes : List UInt8) : String :=
  match Utf8.decode? bytes with
  | some s => s
  | none => (decode? bytes).getD (Utf8.decodeLossy bytes)

end ClassForge.Text.ModifiedUtf8
