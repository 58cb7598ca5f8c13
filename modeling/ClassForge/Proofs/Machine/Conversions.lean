import ClassForge.Proofs.Machine.World
import Mathlib.Data.Int.ModEq

/-!
# Conversions of integers

The opcodes of a conversion widen a number, cut it down to the low bits or extend the low bits
again. One after another they turn an integer into the only one that the target type has for its low
bits, and leave out no step that a value of the source type would need.
-/

namespace ClassForge

/-! ### Types of integers -/

/-- How a type represents integers: in so many bits, the first of which may be a sign. -/
structure IntegerFormat where
  signed : Bool
  width : Nat
  deriving DecidableEq, Repr

namespace IntegerFormat

/-- The least integer of a format. -/
def least (f : IntegerFormat) : Int :=
  if f.signed then -2 ^ (f.width - 1) else 0

/-- The integer has a representation in the format. -/
def Holds (f : IntegerFormat) (n : Int) : Prop :=
  f.least ≤ n ∧ n < f.least + 2 ^ f.width

instance (f : IntegerFormat) (n : Int) : Decidable (f.Holds n) :=
  inferInstanceAs (Decidable (_ ∧ _))

/-- A format has one integer for each pattern of bits. -/
theorem Holds.eq_of_modEq {f : IntegerFormat} {m n : Int} (hm : f.Holds m) (hn : f.Holds n)
    (h : m ≡ n [ZMOD 2 ^ f.width]) :
  m = n
  := by
  obtain ⟨hlow, hhigh⟩ := hm
  obtain ⟨hlow', hhigh'⟩ := hn
  have hzero : n - m = 0 := by
    apply Int.eq_zero_of_abs_lt_dvd h.dvd
    rw [abs_lt]
    omega
  omega

end IntegerFormat

/-- The format of the integers of a type. -/
def Primitive.format? : Primitive → Option IntegerFormat
  | .byte => some ⟨true, 8⟩
  | .char => some ⟨false, 16⟩
  | .short => some ⟨true, 16⟩
  | .int => some ⟨true, 32⟩
  | .long => some ⟨true, 64⟩
  | .boolean | .float | .double | .void => none

theorem Primitive.kind_ne_reference (p : Primitive) :
  p.kind ≠ .reference
  := by
  cases p <;> decide

namespace Machine.Value

variable {A : Type} {floating : Floating} {source target : Primitive} {f g : IntegerFormat}
  {v : Value A} {n : Int}

/-- The integer that a value is. -/
def integer? : Value A → Option Int
  | .int n => some n.toInt
  | .long n => some n.toInt
  | .float _ | .double _ | .ref _ => none

/-! ### Opcodes -/

/-- The value that the opcode of a conversion makes of another. Widening extends the sign. Narrowing
keeps the low bits and extends their sign, except that those of `char` have none. -/
def convertBy? (floating : Floating) (v : Value A) (opcode : UInt8) : Option (Value A) :=
  match v with
  | .int n =>
    if opcode = Opcode.i2l then some (.long n.toInt64)
    else if opcode = Opcode.i2f then some (.float (floating.round32 n.toInt))
    else if opcode = Opcode.i2d then some (.double (floating.round64 n.toInt))
    else if opcode = Opcode.i2b then some (.int n.toInt8.toInt32)
    else if opcode = Opcode.i2c then some (.int n.toUInt32.toUInt16.toUInt32.toInt32)
    else if opcode = Opcode.i2s then some (.int n.toInt16.toInt32)
    else none
  | .long n =>
    if opcode = Opcode.l2i then some (.int n.toInt32)
    else if opcode = Opcode.l2f then some (.float (floating.round32 n.toInt))
    else if opcode = Opcode.l2d then some (.double (floating.round64 n.toInt))
    else none
  | .float bits =>
    if opcode = Opcode.f2i then some (.int (floating.toInt32 bits))
    else if opcode = Opcode.f2l then some (.long (floating.toInt64 bits))
    else if opcode = Opcode.f2d then some (.double (floating.widen bits))
    else none
  | .double bits =>
    if opcode = Opcode.d2i then some (.int (floating.wideToInt32 bits))
    else if opcode = Opcode.d2l then some (.long (floating.wideToInt64 bits))
    else if opcode = Opcode.d2f then some (.float (floating.narrow bits))
    else none
  | .ref _ => none

/-- The value after opcodes of conversions, one after another. -/
def convertByAll? (floating : Floating) (opcodes : List UInt8) (v : Value A) :
    Option (Value A) :=
  opcodes.foldlM (convertBy? floating) v

theorem convertByAll?_append (opcodes opcodes' : List UInt8) :
  convertByAll? floating (opcodes ++ opcodes') v
    = (convertByAll? floating opcodes v).bind (convertByAll? floating opcodes')
  := List.foldlM_append

/-- One step at most converts between kinds of values. -/
theorem convertByAll?_step {kind : Kind} (hkind : kind ≠ .reference)
    (hv : v.kind ≠ .reference) :
  convertByAll? floating (conversionStep? v.kind kind).toList v = toKind? floating v.kind kind v
  := by
  cases kind with
  | reference => contradiction
  | _ =>
      cases v with
      | ref r => contradiction
      | _ => rfl

theorem convertByAll?_narrowing (target : Primitive) (k : Int32) :
  convertByAll? floating (narrowing? target).toList (.int k : Value A)
    = some (.int (shrink target k))
  := by
  cases target <;> rfl

theorem narrowing?_eq_none (h : target.kind ≠ .int) :
  narrowing? target = none
  := by
  cases target with
  | long | float | double => rfl
  | _ => contradiction

/-- The opcodes of a conversion convert as the instruction does that they stand for. -/
theorem convertByAll?_conversionOpcodes (hv : v.kind = source.kind) :
  convertByAll? floating (conversionOpcodes source target) v = v.convert? floating source target
  := by
  have hstep : convertByAll? floating (conversionStep? source.kind target.kind).toList v
      = toKind? floating source.kind target.kind v := by
    rw [← hv]
    apply convertByAll?_step target.kind_ne_reference
    rw [hv]
    apply source.kind_ne_reference
  rw [conversionOpcodes, convertByAll?_append, hstep, convert?]
  cases hconverted : toKind? floating source.kind target.kind v with
  | none => rfl
  | some converted =>
      have hkind := kind_of_toKind? hconverted
      cases converted with
      | int k =>
          change convertByAll? floating (if includes source target then [] else _) _ = _
          split_ifs
          · rfl
          · apply convertByAll?_narrowing
      | _ =>
          have hnone : narrowing? target = none := by
            apply narrowing?_eq_none
            rw [← hkind]
            simp [kind]
          simp [hnone, convertByAll?]

/-! ### Integers -/

theorem bmod_modEq (n : Int) (width : Nat) :
  n.bmod (2 ^ width) ≡ n [ZMOD 2 ^ width]
  := by
  have hbmod := @Int.bmod_emod n (2 ^ width)
  rwa [Nat.cast_pow, Nat.cast_ofNat] at hbmod

theorem modEq_of_width_le {m n : Int} {width width' : Nat} (hle : width ≤ width')
    (h : m ≡ n [ZMOD 2 ^ width']) :
  m ≡ n [ZMOD 2 ^ width]
  := h.of_dvd (pow_dvd_pow 2 hle)

theorem toInt_eq_bmod (k : Int32) :
  k.toInt = (k.toUInt32.toNat : Int).bmod (2 ^ 32)
  := BitVec.toInt_eq_toNat_bmod k.toBitVec

theorem toInt_modEq_toNat (k : Int32) :
  k.toInt ≡ k.toUInt32.toNat [ZMOD 2 ^ 32]
  := by
  rw [toInt_eq_bmod]
  apply bmod_modEq

/-- A character is the low 16 bits of a number, which are too few to reach the sign. -/
theorem toInt_shrink_char (k : Int32) :
  (shrink .char k).toInt = (k.toUInt32.toNat : Int) % 2 ^ 16
  := by
  have hbits : (shrink .char k).toUInt32 = k.toUInt32.toUInt16.toUInt32 := rfl
  rw [toInt_eq_bmod, hbits, UInt16.toNat_toUInt32, UInt32.toNat_toUInt16]
  rw [Int.bmod_eq_of_le] <;> omega

/-- An integer cut down to a type is one of that type, and has the same low bits. -/
theorem shrink_holds (hg : target.format? = some g) (hkind : target.kind = .int) (k : Int32) :
  g.Holds (shrink target k).toInt ∧ (shrink target k).toInt ≡ k.toInt [ZMOD 2 ^ g.width]
  := by
  cases target with
  | byte =>
      obtain rfl := Option.some.inj hg
      rw [shrink, Int8.toInt_toInt32]
      refine ⟨⟨Int8.le_toInt _, Int8.toInt_lt _⟩, ?_⟩
      rw [Int32.toInt_toInt8]
      apply bmod_modEq
  | short =>
      obtain rfl := Option.some.inj hg
      rw [shrink, Int16.toInt_toInt32]
      refine ⟨⟨Int16.le_toInt _, Int16.toInt_lt _⟩, ?_⟩
      rw [Int32.toInt_toInt16]
      apply bmod_modEq
  | char =>
      obtain rfl := Option.some.inj hg
      rw [toInt_shrink_char]
      refine ⟨⟨Int.emod_nonneg _ (by decide), Int.emod_lt_of_pos _ (by decide)⟩, ?_⟩
      calc
        (k.toUInt32.toNat : Int) % 2 ^ 16 ≡ k.toUInt32.toNat [ZMOD 2 ^ 16] := Int.mod_modEq _ _
        _ ≡ k.toInt [ZMOD 2 ^ 16] := modEq_of_width_le (by decide) (toInt_modEq_toNat k).symm
  | int =>
      obtain rfl := Option.some.inj hg
      exact ⟨⟨Int32.le_toInt _, Int32.toInt_lt _⟩, rfl⟩
  | _ => contradiction

/-- The formats of values that are held as integers have 32 bits at most. -/
theorem width_le_of_kind (hg : target.format? = some g) (hkind : target.kind = .int) :
  g.width ≤ 32
  := by
  cases target with
  | byte | char | short | int =>
      obtain rfl := Option.some.inj hg
      decide
  | _ => contradiction

theorem includes_iff :
  includes source target ↔ source = target ∨ source = .byte ∧ target = .short
  := by
  simp [includes]

/-- A type that includes another represents the integers of the other. -/
theorem holds_of_includes (hincludes : includes source target) (hf : source.format? = some f)
    (hg : target.format? = some g) (hn : f.Holds n) :
  g.Holds n
  := by
  obtain rfl | ⟨rfl, rfl⟩ := includes_iff.mp hincludes
  · obtain rfl := Option.some.inj (hf.symm.trans hg)
    exact hn
  · obtain rfl := Option.some.inj hf
    obtain rfl := Option.some.inj hg
    obtain ⟨hlow, hhigh⟩ := hn
    change (-2 ^ 7 : Int) ≤ n at hlow
    change n < (-2 ^ 7 : Int) + 2 ^ 8 at hhigh
    change (-2 ^ 15 : Int) ≤ n ∧ n < (-2 ^ 15 : Int) + 2 ^ 16
    omega

theorem kind_eq_of_includes (hincludes : includes source target) :
  source.kind = target.kind
  := by
  obtain rfl | ⟨rfl, rfl⟩ := includes_iff.mp hincludes <;> rfl

/-- The only other format is that of long integers. -/
theorem eq_long_of_kind (hg : target.format? = some g) (hkind : target.kind ≠ .int) :
  target = .long
  := by
  cases target with
  | long => rfl
  | float | double => contradiction
  | _ => exact absurd rfl hkind

/-- As an `int` an integer keeps its low 32 bits, which is all there is of an `int`. -/
theorem exists_toKind?_int (floating : Floating) (hn : v.integer? = some n) :
  ∃ k, toKind? floating v.kind .int v = some (.int k) ∧ k.toInt ≡ n [ZMOD 2 ^ 32]
    ∧ (v.kind = .int → k.toInt = n)
  := by
  cases v with
  | int k =>
      obtain rfl := Option.some.inj hn
      exact ⟨k, rfl, rfl, fun _ => rfl⟩
  | long k =>
      obtain rfl := Option.some.inj hn
      refine ⟨k.toInt32, rfl, ?_, nofun⟩
      rw [Int64.toInt_toInt32]
      apply bmod_modEq
  | _ => contradiction

/-- Every integer stays what it is as a `long`. -/
theorem exists_toKind?_long (floating : Floating) (hn : v.integer? = some n) :
  ∃ k, toKind? floating v.kind .long v = some (.long k) ∧ k.toInt = n
  := by
  cases v with
  | int k =>
      obtain rfl := Option.some.inj hn
      use k.toInt64, rfl
      apply Int32.toInt_toInt64
  | long k =>
      obtain rfl := Option.some.inj hn
      use k, rfl
  | _ => contradiction

/-- A conversion of integers gives one of the target type that has the same low bits. -/
theorem exists_convert? (floating : Floating) (hf : source.format? = some f)
    (hg : target.format? = some g) (hv : v.kind = source.kind) (hn : v.integer? = some n)
    (hholds : f.Holds n) :
  ∃ v' m, v.convert? floating source target = some v' ∧ v'.integer? = some m
    ∧ g.Holds m ∧ m ≡ n [ZMOD 2 ^ g.width]
  := by
  by_cases hint : target.kind = .int
  · obtain ⟨k, hk, hlow, hsame⟩ := exists_toKind?_int floating hn
    have hconvert : v.convert? floating source target
        = some (.int (if includes source target then k else shrink target k)) := by
      rw [convert?, ← hv, hint, hk]
    refine ⟨_, _, hconvert, rfl, ?_⟩
    split_ifs with hincludes
    · have hkind : v.kind = .int := by rw [hv, kind_eq_of_includes hincludes, hint]
      rw [hsame hkind]
      exact ⟨holds_of_includes hincludes hf hg hholds, rfl⟩
    · obtain ⟨hshrunk, hshrink⟩ := shrink_holds hg hint k
      exact ⟨hshrunk, hshrink.trans (modEq_of_width_le (width_le_of_kind hg hint) hlow)⟩
  · obtain rfl := eq_long_of_kind hg hint
    obtain rfl := Option.some.inj hg
    obtain ⟨k, hk, rfl⟩ := exists_toKind?_long floating hn
    have hconvert : v.convert? floating source .long = some (.long k) := by
      rw [convert?, ← hv, Primitive.kind, hk]
    exact ⟨_, _, hconvert, rfl, ⟨Int64.le_toInt _, Int64.toInt_lt _⟩, rfl⟩

/-- A floating point number becomes a small integer by way of `int`. -/
theorem conversionOpcodes_of_floating (hsource : source ∈ [Primitive.float, .double])
    (htarget : target ∈ [Primitive.byte, .char, .short]) :
  ∃ narrow, narrowing? target = some narrow ∧ conversionOpcodes .int target = [narrow]
    ∧ conversionOpcodes source target = conversionOpcodes source .int ++ [narrow]
  := by
  obtain rfl | rfl : source = .float ∨ source = .double := by simpa using hsource
  all_goals
    cases target with
    | byte | char | short => exact ⟨_, rfl, rfl, rfl⟩
    | _ => exact absurd htarget (by decide)

/-- The opcodes of a conversion between types of integers give the only integer of the target type
that has the low bits of the first one. From a floating point number they go to a small type by way
of `int`. -/
theorem conversionOpcodes_keep_low_bits (floating : Floating) :
  (∀ {source target : Primitive} {f g : IntegerFormat} {v : Value A} {n : Int},
      source.format? = some f → target.format? = some g →
      v.kind = source.kind → v.integer? = some n → f.Holds n →
      ∃ v' m, convertByAll? floating (conversionOpcodes source target) v = some v'
        ∧ v'.kind = target.kind ∧ v'.integer? = some m
        ∧ ∀ m', (g.Holds m' ∧ m' ≡ n [ZMOD 2 ^ g.width]) ↔ m' = m)
    ∧ ∀ source ∈ [Primitive.float, .double], ∀ target ∈ [Primitive.byte, .char, .short],
      ∃ narrow, narrowing? target = some narrow ∧ conversionOpcodes .int target = [narrow]
        ∧ conversionOpcodes source target = conversionOpcodes source .int ++ [narrow]
  := by
  constructor
  · intro source target f g v n hf hg hv hn hholds
    obtain ⟨v', m, hconvert, hm, hmholds, hlow⟩ := exists_convert? floating hf hg hv hn hholds
    refine ⟨v', m, ?_, kind_of_convert? hconvert, hm, fun m' => ⟨?_, ?_⟩⟩
    · rw [convertByAll?_conversionOpcodes hv, hconvert]
    · rintro ⟨hholds', hlow'⟩
      apply hholds'.eq_of_modEq hmholds (hlow'.trans hlow.symm)
    · rintro rfl
      exact ⟨hmholds, hlow⟩
  · intro source hsource target htarget
    apply conversionOpcodes_of_floating hsource htarget

/-- Of the 64 ones of a `long` a `char` keeps 16. -/
theorem long_to_char_keep_low_bits :
  convertByAll? constantWorld.floating (conversionOpcodes .long .char) (.long (-1) : Value Nat)
      = some (.int 65535)
    ∧ ∀ m, (IntegerFormat.Holds ⟨false, 16⟩ m ∧ m ≡ -1 [ZMOD 2 ^ 16]) ↔ m = 65535
  := by
  have hlong : Primitive.long.format? = some ⟨true, 64⟩ := rfl
  have hchar : Primitive.char.format? = some ⟨false, 16⟩ := rfl
  have hkind : (.long (-1) : Value Nat).kind = Primitive.long.kind := rfl
  have hones : (.long (-1) : Value Nat).integer? = some (-1) := rfl
  obtain ⟨v, m, hv, -, hm, hunique⟩ :=
    (conversionOpcodes_keep_low_bits constantWorld.floating).1 hlong hchar hkind hones (by decide)
  have hrun : convertByAll? constantWorld.floating (conversionOpcodes .long .char)
      (.long (-1) : Value Nat) = some (.int 65535) := rfl
  obtain rfl := Option.some.inj (hrun.symm.trans hv)
  obtain rfl := Option.some.inj hm
  exact ⟨hrun, hunique⟩

end Machine.Value

end ClassForge
