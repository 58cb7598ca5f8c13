/-!
# Shortest decimals

The decimal text of a binary floating point number, given by its bits. A finite number stands
for the reals that round to it; among the decimals in that interval the ones with the fewest
digits are taken, and of those the nearest to the number, the upper one if two are equally
near. The digits are laid out without an exponent.
-/

namespace ClassForge.Text.Decimal

/-- The widths of a binary floating point format. -/
structure Format where
  fractionBits : Nat
  exponentBits : Nat

/-- Numbers of 32 bits. -/
def single : Format := ⟨23, 8⟩

/-- Numbers of 64 bits. -/
def double : Format := ⟨52, 11⟩

/-- A positive number `mantissa * 2 ^ exponent`. -/
structure Binary where
  mantissa : Nat
  exponent : Int
  /-- The gap to the number below is half the gap to the number above. -/
  narrowBelow : Bool

/-- A number `digits * 10 ^ exponent`. -/
structure Scientific where
  digits : Nat
  exponent : Int

/-- The finite number with the given biased exponent and fraction. -/
def Format.binary (format : Format) (biased fraction : Nat) : Binary :=
  let shift : Int := Nat.pow 2 (format.exponentBits - 1) - 1 + format.fractionBits
  if biased = 0 then ⟨fraction, 1 - shift, false⟩
  else ⟨Nat.pow 2 format.fractionBits + fraction, biased - shift, fraction = 0 && 1 < biased⟩

/-- Compares `a * 10 ^ i` with `n * 2 ^ j`. -/
def compareScaled (a : Nat) (i : Int) (n : Nat) (j : Int) : Ordering :=
  compare (a * Nat.pow 10 i.toNat * Nat.pow 2 (-j).toNat)
    (n * Nat.pow 2 j.toNat * Nat.pow 10 (-i).toNat)

/-- Whether `d` lies among the reals that round to `x`. The ends of the interval belong to it
when the mantissa is even. -/
def Binary.readsBack (x : Binary) (d : Scientific) : Bool :=
  let below := if x.narrowBelow then 4 * x.mantissa - 1 else 4 * x.mantissa - 2
  let above := 4 * x.mantissa + 2
  let closed := x.mantissa % 2 = 0
  let fromBelow := compareScaled d.digits d.exponent below (x.exponent - 2)
  let fromAbove := compareScaled d.digits d.exponent above (x.exponent - 2)
  (fromBelow = .gt || (closed && fromBelow = .eq))
    && (fromAbove = .lt || (closed && fromAbove = .eq))

/-- The least `k` with `x < 10 ^ k`, looked for near the estimate from the binary logarithm. -/
def Binary.scale (x : Binary) : Int :=
  let estimate := (Int.ofNat x.mantissa.log2 + x.exponent) * 30103 / 100000
  (((List.range 4).map fun i => estimate - 1 + Int.ofNat i).find? fun k =>
    compareScaled 1 k x.mantissa x.exponent = .gt).getD (estimate + 3)

/-- A decimal with `count` digits that rounds to `x`, the nearest if there are two. -/
def Binary.withDigits? (x : Binary) (scale : Int) (count : Nat) : Option Scientific :=
  let grid := scale - count
  let numerator := x.mantissa * Nat.pow 2 x.exponent.toNat * Nat.pow 10 (-grid).toNat
  let denominator := Nat.pow 2 (-x.exponent).toNat * Nat.pow 10 grid.toNat
  let lower : Scientific := ⟨numerator / denominator, grid⟩
  let upper : Scientific := ⟨numerator / denominator + 1, grid⟩
  match x.readsBack lower, x.readsBack upper with
  | true, true =>
    some (if 2 * numerator < (lower.digits + upper.digits) * denominator then lower else upper)
  | true, false => some lower
  | false, true => some upper
  | false, false => none

/-- The exact value of `x`. -/
def Binary.exact (x : Binary) : Scientific :=
  ⟨x.mantissa * Nat.pow 2 x.exponent.toNat * Nat.pow 5 (-x.exponent).toNat, min x.exponent 0⟩

/-- A shortest decimal that rounds to `x`; seventeen digits suffice for 64 bits. -/
def Binary.shortest (x : Binary) : Scientific :=
  ((List.range 17).findSome? fun i => x.withDigits? x.scale (i + 1)).getD x.exact

/-- Moves the zeros at the end of the digits into the exponent, at most `fuel` of them. -/
def Scientific.stripped (d : Scientific) : (fuel : Nat) → Scientific
  | 0 => d
  | fuel + 1 =>
    if d.digits % 10 = 0 then Scientific.stripped ⟨d.digits / 10, d.exponent + 1⟩ fuel else d

/-- The digits of `d` with the point where its exponent puts it. -/
def Scientific.layout (d : Scientific) : String :=
  let digits := Nat.toDigits 10 d.digits
  if 0 ≤ d.exponent then
    String.ofList (digits ++ List.replicate d.exponent.toNat '0')
  else
    let places := (-d.exponent).toNat
    if places < digits.length then
      String.ofList
        (digits.take (digits.length - places) ++ '.' :: digits.drop (digits.length - places))
    else
      String.ofList ('0' :: '.' :: List.replicate (places - digits.length) '0' ++ digits)

/-- The text of the number with the bits `bits`. -/
def Format.render (format : Format) (bits : Nat) : String :=
  let fraction := bits % Nat.pow 2 format.fractionBits
  let biased := bits / Nat.pow 2 format.fractionBits % Nat.pow 2 format.exponentBits
  let negative := bits / Nat.pow 2 (format.fractionBits + format.exponentBits) % 2 = 1
  let sign := if negative then "-" else ""
  if biased = Nat.pow 2 format.exponentBits - 1 then
    if fraction = 0 then sign ++ "inf" else "NaN"
  else if biased = 0 ∧ fraction = 0 then sign ++ "0"
  else
    let shortest := (format.binary biased fraction).shortest
    sign ++ (shortest.stripped 20).layout

/-- The text of a number of 32 bits. -/
def ofBits32 (bits : UInt32) : String :=
  single.render bits.toNat

/-- The text of a number of 64 bits. -/
def ofBits64 (bits : UInt64) : String :=
  double.render bits.toNat

end ClassForge.Text.Decimal
