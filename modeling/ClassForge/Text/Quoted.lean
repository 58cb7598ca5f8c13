import ClassForge.Text.Extending
import ClassForge.Text.Unprinted

/-!
# Quoted text

The form in which messages and listings show a text between double quotes. A quote, a
backslash and the common control characters have a short escape; a character that would not
be visible by itself is written by its code point; every other character stands for itself.
-/

namespace ClassForge.Text

/-- The digits of `n` in base sixteen, in lower case. -/
def hex (n : Nat) : String :=
  String.ofList (Nat.toDigits 16 n)

/-- The digits of `n` in base sixteen, with zeros in front up to `width` digits. -/
def hexPadded (width n : Nat) : String :=
  let digits := Nat.toDigits 16 n
  String.ofList (List.replicate (width - digits.length) '0' ++ digits)

/-- The halfwidth voiced sound marks. They extend the character before them and still take a
cell of their own. -/
def isHalfwidthMark (n : Nat) : Bool :=
  n = 0xff9e || n = 0xff9f

/-- The Hangul fillers, letters with an empty glyph. -/
def isFiller (n : Nat) : Bool :=
  n = 0x115f || n = 0x1160 || n = 0x3164 || n = 0xffa0

/-- Whether `c` has no visible form of its own: it has no glyph, an empty one, or one that is
drawn into the character before it. -/
def isHidden (c : Char) : Bool :=
  isUnprinted c.toNat || (isExtending c.toNat && !isHalfwidthMark c.toNat) || isFiller c.toNat

/-- One character of a quoted text. -/
def escape (c : Char) : String :=
  if c = '"' then "\\\""
  else if c = '\\' then "\\\\"
  else if c = '\n' then "\\n"
  else if c = '\r' then "\\r"
  else if c = '\t' then "\\t"
  else if c.toNat = 0 then "\\0"
  else if isHidden c then "\\u\x7b" ++ hex c.toNat ++ "\x7d"
  else c.toString

/-- `s` between double quotes, each character escaped. -/
def quote (s : String) : String :=
  "\"" ++ String.join (s.toList.map escape) ++ "\""

/-- A bracketed list of texts, separated by commas. -/
def bracketed (items : List String) : String :=
  "[" ++ ", ".intercalate items ++ "]"

end ClassForge.Text
