import ClassForge.Text.ModifiedUtf8
import Mathlib.Tactic.Common

/-!
# Text that is read back from modified UTF-8

The bytes of a text are read back as that text. If they happen to be plain UTF-8, then the two
forms agree on them: the forms of NUL and of characters beyond the basic plane are not plain
UTF-8, and all others are the same.
-/

namespace ClassForge.Text

/-! ### Plain UTF-8 -/

namespace Utf8

theorem symbolsOnto_append (done done' : List (Option Char)) (bytes : List UInt8) :
  symbolsOnto (done ++ done') bytes = done'.reverse ++ symbolsOnto done bytes
  := by
  induction done, bytes using symbolsOnto.induct with
  | case1 done => simp [symbolsOnto]
  | case2 done lead rest _ ih =>
      rw [symbolsOnto, symbolsOnto, ← ih, List.cons_append]

theorem symbols_cons (lead : UInt8) (rest : List UInt8) :
  symbols (lead :: rest) = (symbol lead rest).1 :: symbols (symbol lead rest).2
  := by
  have happend := symbolsOnto_append [] [(symbol lead rest).1] (symbol lead rest).2
  rw [symbols, symbolsOnto, symbols]
  apply happend

theorem symbol_one {lead : UInt8} (hlead : lead < 0x80) (rest : List UInt8) :
  symbol lead rest = (some (Char.ofNat lead.toNat), rest)
  := by
  rw [symbol, Form.ofLead?, if_pos hlead]
  rfl

/-- Two bytes make up a character with eleven bits. -/
theorem symbol_two {lead second : UInt8} (hlead : 0xc2 ≤ lead ∧ lead ≤ 0xdf)
    (hsecond : 0x80 ≤ second ∧ second ≤ 0xbf) (rest : List UInt8) :
  symbol lead (second :: rest)
    = (some (Char.ofNat ((lead.toNat - 0xc0) * 64 + second.toNat % 64)), rest)
  := by
  have hform : Form.ofLead? lead = some ⟨1, 0x80, 0xbf, lead.toNat - 0xc0⟩ := by
    unfold Form.ofLead?
    grind
  simp [symbol, hform, continue?, hsecond]

/-- Forms of three bytes, those of surrogates left out. -/
theorem symbol_three {lead second third : UInt8}
    (hlead : ModifiedUtf8.startsThree lead second = true)
    (hthird : ModifiedUtf8.isContinuation third = true) (rest : List UInt8) :
  symbol lead (second :: third :: rest)
    = (some (Char.ofNat (((lead.toNat - 0xe0) * 64 + second.toNat % 64) * 64 + third.toNat % 64)),
      rest)
  := by
  have hform : ∃ low high, Form.ofLead? lead = some ⟨2, low, high, lead.toNat - 0xe0⟩
      ∧ low ≤ second ∧ second ≤ high := by
    simp only [ModifiedUtf8.startsThree, ModifiedUtf8.isContinuation, Bool.or_eq_true,
      Bool.and_eq_true, decide_eq_true_eq] at hlead
    rcases hlead with ((⟨⟨rfl, hlow⟩, hhigh⟩ | ⟨hlead, hlow, hhigh⟩) | ⟨⟨rfl, hlow⟩, hhigh⟩)
      | ⟨hlead, hlow, hhigh⟩
    · exact ⟨0xa0, 0xbf, rfl, hlow, hhigh⟩
    · refine ⟨0x80, 0xbf, ?_, hlow, hhigh⟩
      unfold Form.ofLead?
      grind
    · exact ⟨0x80, 0x9f, rfl, hlow, hhigh⟩
    · refine ⟨0x80, 0xbf, ?_, hlow, hhigh⟩
      unfold Form.ofLead?
      grind
  obtain ⟨low, high, hform, hlow, hhigh⟩ := hform
  have hthird : 0x80 ≤ third ∧ third ≤ 0xbf := by
    simpa [ModifiedUtf8.isContinuation] using hthird
  simp [symbol, hform, continue?, hlow, hhigh, hthird]

/-- No half of a surrogate pair is a character. -/
theorem symbol_surrogate {second : UInt8} (hsecond : 0xa0 ≤ second) (rest : List UInt8) :
  (symbol 0xed (second :: rest)).1 = none
  := by
  have hform : Form.ofLead? 0xed = some ⟨2, 0x80, 0x9f, 0xd⟩ := rfl
  have hrange : ¬ (0x80 ≤ second ∧ second ≤ 0x9f) := by grind
  simp only [symbol, hform, continue?]
  rw [if_neg (by simpa using hrange)]
  rfl

end Utf8

/-! ### Modified UTF-8 -/

namespace ModifiedUtf8

theorem readChar?_one {lead : UInt8} (hpos : lead ≠ 0) (hlead : lead < 0x80)
    (rest : List UInt8) :
  readChar? lead rest = some (Char.ofNat lead.toNat, rest)
  := by
  unfold readChar?
  rw [if_neg hpos, if_pos hlead]

theorem readChar?_two {lead second : UInt8} (hlead : 0xc2 ≤ lead ∧ lead ≤ 0xdf)
    (hsecond : isContinuation second = true) (rest : List UInt8) :
  readChar? lead (second :: rest)
    = some (Char.ofNat ((lead.toNat - 0xc0) * 0x40 + lowBits second), rest)
  := by
  unfold readChar?
  grind

theorem readChar?_three {lead second third : UInt8} (hlead : startsThree lead second = true)
    (hthird : isContinuation third = true) (rest : List UInt8) :
  readChar? lead (second :: third :: rest)
    = some (Char.ofNat ((lead.toNat - 0xe0) * 0x1000 + lowBits second * 0x40 + lowBits third), rest)
  := by
  unfold readChar?
  grind [startsThree]

theorem readChar?_pair {second third fifth sixth : UInt8} (hsecond : 0xa0 ≤ second ∧ second ≤ 0xaf)
    (hthird : isContinuation third = true) (hfifth : 0xb0 ≤ fifth ∧ fifth ≤ 0xbf)
    (hsixth : isContinuation sixth = true) (rest : List UInt8) :
  readChar? 0xed (second :: third :: 0xed :: fifth :: sixth :: rest)
    = some (pairChar second third fifth sixth, rest)
  := by
  unfold readChar?
  grind [startsThree]

theorem toNat_ofNat_of_lt {n : Nat} (h : n < 256) :
  (UInt8.ofNat n).toNat = n
  := by
  rw [UInt8.toNat_ofNat']
  omega

theorem isContinuation_ofNat (n : Nat) :
  isContinuation (UInt8.ofNat (0x80 + n % 0x40)) = true
  := by
  have htoNat : (UInt8.ofNat (0x80 + n % 0x40)).toNat = 0x80 + n % 0x40 :=
    toNat_ofNat_of_lt (by omega)
  simp only [isContinuation, UInt8.le_iff_toNat_le, htoNat]
  simp
  omega

theorem lowBits_ofNat (n : Nat) :
  lowBits (UInt8.ofNat (0x80 + n % 0x40)) = n % 0x40
  := by
  rw [lowBits, toNat_ofNat_of_lt (by omega)]
  omega

/-- What is no surrogate starts a form of three bytes. -/
theorem startsThree_ofNat {code : Nat} (hlow : 0x800 ≤ code) (hhigh : code < 0x10000)
    (hvalid : code < 0xd800 ∨ 0xdfff < code) :
  startsThree (UInt8.ofNat (0xe0 + code / 0x1000)) (UInt8.ofNat (0x80 + code / 0x40 % 0x40)) = true
  := by
  have hlead : (UInt8.ofNat (0xe0 + code / 0x1000)).toNat = 0xe0 + code / 0x1000 :=
    toNat_ofNat_of_lt (by omega)
  have hsecond : (UInt8.ofNat (0x80 + code / 0x40 % 0x40)).toNat = 0x80 + code / 0x40 % 0x40 :=
    toNat_ofNat_of_lt (by omega)
  simp only [startsThree, isContinuation, UInt8.le_iff_toNat_le, ← UInt8.toNat_inj, hlead, hsecond]
  simp
  omega

/-- The bytes are read as the character, and also as plain UTF-8 if they can be read as that. -/
def ReadAs (c : Char) : List UInt8 → Prop
  | [] => False
  | lead :: tail => ∀ rest, readChar? lead (tail ++ rest) = some (c, rest)
    ∧ ((Utf8.symbol lead (tail ++ rest)).1 = none ∨ Utf8.symbol lead (tail ++ rest) = (some c, rest))

/-- The three bytes of a character are read as the character. -/
theorem threeBytes_readAs {code : Nat} (hlow : 0x800 ≤ code) (hhigh : code < 0x10000)
    (hvalid : code < 0xd800 ∨ 0xdfff < code) :
  ReadAs (Char.ofNat code) (threeBytes code)
  := by
  have hstarts := startsThree_ofNat hlow hhigh hvalid
  have hthird := isContinuation_ofNat code
  have hlead : (UInt8.ofNat (0xe0 + code / 0x1000)).toNat = 0xe0 + code / 0x1000 :=
    toNat_ofNat_of_lt (by omega)
  intro rest
  constructor
  · refine Eq.trans (readChar?_three hstarts hthird rest) ?_
    rw [lowBits_ofNat, lowBits_ofNat, hlead]
    congr 3
    omega
  · right
    refine Eq.trans (Utf8.symbol_three hstarts hthird rest) ?_
    rw [← lowBits, ← lowBits, lowBits_ofNat, lowBits_ofNat, hlead]
    congr 3
    omega

theorem le_ofNat_and_le {n : Nat} {low high : UInt8} (hlow : low.toNat ≤ n)
    (hhigh : n ≤ high.toNat) :
  low ≤ UInt8.ofNat n ∧ UInt8.ofNat n ≤ high
  := by
  have hbyte := high.toNat_lt
  rw [UInt8.le_iff_toNat_le, UInt8.le_iff_toNat_le, toNat_ofNat_of_lt (by omega)]
  use hlow

/-- A pair of surrogates is read as the character that it stands for. -/
theorem pair_readAs {code : Nat} (hlow : 0x10000 ≤ code) (hhigh : code < 0x110000) :
  ReadAs (Char.ofNat code) (threeBytes (0xd800 + (code - 0x10000) / 0x400)
    ++ threeBytes (0xdc00 + (code - 0x10000) % 0x400))
  := by
  have hlead : UInt8.ofNat (0xe0 + (0xd800 + (code - 0x10000) / 0x400) / 0x1000) = 0xed := by
    have hdiv : (0xd800 + (code - 0x10000) / 0x400) / 0x1000 = 13 := by omega
    rw [hdiv]
    rfl
  have hfourth : UInt8.ofNat (0xe0 + (0xdc00 + (code - 0x10000) % 0x400) / 0x1000) = 0xed := by
    have hdiv : (0xdc00 + (code - 0x10000) % 0x400) / 0x1000 = 13 := by omega
    rw [hdiv]
    rfl
  have hsecond : 0xa0 ≤ UInt8.ofNat (0x80 + (0xd800 + (code - 0x10000) / 0x400) / 0x40 % 0x40)
      ∧ UInt8.ofNat (0x80 + (0xd800 + (code - 0x10000) / 0x400) / 0x40 % 0x40) ≤ 0xaf :=
    le_ofNat_and_le (by simp; omega) (by simp; omega)
  have hfifth : 0xb0 ≤ UInt8.ofNat (0x80 + (0xdc00 + (code - 0x10000) % 0x400) / 0x40 % 0x40)
      ∧ UInt8.ofNat (0x80 + (0xdc00 + (code - 0x10000) % 0x400) / 0x40 % 0x40) ≤ 0xbf :=
    le_ofNat_and_le (by simp; omega) (by simp; omega)
  have hcode : 0x10000
        + (((0xd800 + (code - 0x10000) / 0x400) / 0x40 % 0x40 - 0x20) * 0x40
          + (0xd800 + (code - 0x10000) / 0x400) % 0x40) * 0x400
        + (((0xdc00 + (code - 0x10000) % 0x400) / 0x40 % 0x40 - 0x30) * 0x40
          + (0xdc00 + (code - 0x10000) % 0x400) % 0x40) = code := by
    omega
  rw [threeBytes, threeBytes, hlead, hfourth]
  simp only [List.cons_append, List.nil_append]
  intro rest
  simp only [List.cons_append, List.nil_append]
  constructor
  · rw [readChar?_pair hsecond (isContinuation_ofNat _) hfifth (isContinuation_ofNat _), pairChar,
      lowBits_ofNat, lowBits_ofNat, lowBits_ofNat, lowBits_ofNat, hcode]
  · left
    apply Utf8.symbol_surrogate hsecond.1

/-- The bytes of a character are read as that character. -/
theorem encodeChar_readAs (c : Char) :
  ReadAs c (encodeChar c)
  := by
  have hvalid : c.toNat < 0xd800 ∨ 0xdfff < c.toNat ∧ c.toNat < 0x110000 := c.valid
  have hc : Char.ofNat c.toNat = c := Char.ofNat_toNat c
  rw [encodeChar]
  split_ifs with hzero hone htwo hthree
  · rw [hzero] at hc
    rw [← hc]
    intro rest
    exact ⟨rfl, .inl rfl⟩
  · have hbyte : (UInt8.ofNat c.toNat).toNat = c.toNat := toNat_ofNat_of_lt (by omega)
    have hpos : UInt8.ofNat c.toNat ≠ 0 := by
      intro heq
      rw [heq] at hbyte
      exact hzero hbyte.symm
    have hlead : UInt8.ofNat c.toNat < 0x80 := by
      rw [UInt8.lt_iff_toNat_lt, hbyte]
      apply hone
    intro rest
    rw [List.nil_append, readChar?_one hpos hlead, Utf8.symbol_one hlead, hbyte, hc]
    exact ⟨rfl, .inr rfl⟩
  · have hlead : (UInt8.ofNat (0xc0 + c.toNat / 0x40)).toNat = 0xc0 + c.toNat / 0x40 :=
      toNat_ofNat_of_lt (by omega)
    have hrange : 0xc2 ≤ UInt8.ofNat (0xc0 + c.toNat / 0x40)
        ∧ UInt8.ofNat (0xc0 + c.toNat / 0x40) ≤ 0xdf :=
      le_ofNat_and_le (by simp; omega) (by simp; omega)
    have hsecond := isContinuation_ofNat c.toNat
    have hcode : (0xc0 + c.toNat / 0x40 - 0xc0) * 0x40 + c.toNat % 0x40 = c.toNat := by omega
    intro rest
    rw [List.cons_append, List.nil_append, readChar?_two hrange hsecond,
      Utf8.symbol_two hrange (by simpa [isContinuation] using hsecond), ← lowBits, lowBits_ofNat,
      hlead, hcode, hc]
    exact ⟨rfl, .inr rfl⟩
  · nth_rewrite 1 [← hc]
    apply threeBytes_readAs (by omega) hthree (by omega)
  · nth_rewrite 1 [← hc]
    apply pair_readAs (by omega) (by omega)

/-- A character that is read comes after those that were read before. -/
theorem charsOnto_of_readChar? {done : List Char} {lead : UInt8} {rest rest' : List UInt8} {c : Char}
    (h : readChar? lead rest = some (c, rest')) :
  charsOnto done (lead :: rest) = charsOnto (c :: done) rest'
  := by
  rw [charsOnto]
  split
  · next hnone =>
    rw [h] at hnone
    contradiction
  · next hsome =>
    rw [h] at hsome
    obtain ⟨rfl, rfl⟩ := Prod.mk.inj (Option.some.inj hsome)
    rfl

/-- The bytes of characters are read as the characters, after those that were read before. -/
theorem charsOnto_encode (done cs : List Char) :
  charsOnto done (cs.flatMap encodeChar) = some (done.reverse ++ cs)
  := by
  induction cs generalizing done with
  | nil => simp [charsOnto]
  | cons c cs ih =>
      have hread := encodeChar_readAs c
      rw [List.flatMap_cons]
      cases hbytes : encodeChar c with
      | nil =>
          rw [hbytes] at hread
          contradiction
      | cons lead tail =>
          rw [hbytes] at hread
          rw [List.cons_append, charsOnto_of_readChar? (hread _).1, ih]
          simp

/-- A text is read back from its bytes. -/
theorem decode?_encode (s : String) :
  decode? (encode s) = some s
  := by
  rw [decode?, encode, charsOnto_encode, List.reverse_nil, List.nil_append, Option.map_some,
    String.ofList_toList]

/-- If the bytes of some characters are plain UTF-8, then that of these characters. -/
theorem mapM_symbols_encode {cs cs' : List Char}
    (h : (Utf8.symbols (cs.flatMap encodeChar)).mapM id = some cs') :
  cs' = cs
  := by
  induction cs generalizing cs' with
  | nil =>
      rw [List.flatMap_nil, Utf8.symbols, Utf8.symbolsOnto] at h
      apply (Option.some.inj h).symm
  | cons c cs ih =>
      have hread := encodeChar_readAs c
      rw [List.flatMap_cons] at h
      cases hbytes : encodeChar c with
      | nil =>
          rw [hbytes] at hread
          contradiction
      | cons lead tail =>
          rw [hbytes] at hread h
          rw [List.cons_append, Utf8.symbols_cons, List.mapM_cons] at h
          rcases (hread (cs.flatMap encodeChar)).2 with hnone | hsome
          · rw [hnone] at h
            contradiction
          · rw [hsome] at h
            obtain ⟨_, hc, h⟩ := Option.bind_eq_some_iff.mp h
            obtain ⟨rest, hrest, h⟩ := Option.bind_eq_some_iff.mp h
            obtain rfl := Option.some.inj hc
            obtain rfl := Option.some.inj h
            rw [ih hrest]

/-- The text of the bytes that stand for a text is that text. -/
theorem text_encode (s : String) :
  text (encode s) = s
  := by
  rw [text]
  cases hplain : Utf8.decode? (encode s) with
  | none => rw [decode?_encode, Option.getD_some]
  | some s' =>
      obtain ⟨cs, hcs, rfl⟩ := Option.map_eq_some_iff.mp hplain
      rw [mapM_symbols_encode hcs, String.ofList_toList]

end ModifiedUtf8

end ClassForge.Text
