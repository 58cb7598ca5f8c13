import ClassForge.Lowering.Gen
import Mathlib.Tactic.Common

/-!
# What generators give

A generator that succeeds gives the code of its parts in order. For each way to build a
generator it is said what it gives when it does, and that what a part emits stands in the code of
the whole.
-/

namespace ClassForge

namespace Gen

variable {α β : Type} {index labels : Nat}

@[simp]
theorem pure_eq (a : α) :
  (Pure.pure a : Gen α) = Gen.pure a
  := rfl

/-- One generator after another gives the code of the first and then that of the second. -/
theorem bind_eq_ok {x : Gen α} {f : α → Gen β} {out : Emitted β} :
  (x >>= f) index labels = .ok out
    ↔ ∃ a b, x index labels = .ok a ∧ f a.value (index + a.code.length) a.labels = .ok b
      ∧ ⟨b.value, a.code ++ b.code, b.labels⟩ = out
  := by
  change Gen.bind x f index labels = .ok out ↔ _
  rw [Gen.bind]
  cases x index labels with
  | error e => simp
  | ok a =>
      cases hf : f a.value (index + a.code.length) a.labels with
      | error e => simp [hf]
      | ok b => simp [hf]

theorem pure_eq_ok {a : α} {out : Emitted α} :
  Gen.pure a index labels = .ok out ↔ ⟨a, [], labels⟩ = out
  := ⟨Except.ok.inj, congrArg Except.ok⟩

theorem emit_eq_ok {i : Instruction} {out : Emitted Unit} :
  emit i index labels = .ok out ↔ ⟨(), [i], labels⟩ = out
  := ⟨Except.ok.inj, congrArg Except.ok⟩

/-- The label made up after so many others. -/
def madeUp (labels : Nat) : Label :=
  ⟨reservedMark.toString ++ toString labels⟩

theorem fresh_eq_ok {out : Emitted Label} :
  fresh index labels = .ok out ↔ ⟨madeUp labels, [], labels + 1⟩ = out
  := ⟨Except.ok.inj, congrArg Except.ok⟩

theorem check_eq_ok {x : Except InstructionError α} {out : Emitted α} :
  check x index labels = .ok out ↔ ∃ a, x = .ok a ∧ ⟨a, [], labels⟩ = out
  := by
  cases x <;> simp [check]

/-- A checked instruction is emitted if there is one. -/
theorem emitChecked_eq_ok {x : Except InstructionError Instruction} {out : Emitted Unit} :
  emitChecked x index labels = .ok out ↔ ∃ i, x = .ok i ∧ ⟨(), [i], labels⟩ = out
  := by
  rw [emitChecked, bind_eq_ok]
  simp only [check_eq_ok, emit_eq_ok]
  constructor
  · rintro ⟨_, _, ⟨i, hi, rfl⟩, rfl, rfl⟩
    use i, hi
    rfl
  · rintro ⟨i, hi, rfl⟩
    use ⟨i, [], labels⟩, ⟨(), [i], labels⟩, ⟨i, hi, rfl⟩, rfl
    rfl

theorem emitChecked_ok (i : Instruction) :
  emitChecked (.ok i) = emit i
  := rfl

theorem fail_ne_ok {reason : Unsupported} {out : Emitted α} :
  ¬ fail reason index labels = .ok out
  := by
  intro h
  contradiction

theorem require_eq_ok {x : Except Unsupported α} {out : Emitted α} :
  require x index labels = .ok out ↔ ∃ a, x = .ok a ∧ ⟨a, [], labels⟩ = out
  := by
  cases x with
  | error reason => simp [require, fail]
  | ok a => simp [require, pure_eq_ok]

/-! ### Lists -/

/-- The code done before comes first. -/
theorem forEachOnto_eq (f : α → Gen Unit) (done : List (List Instruction)) (as : List α) :
  forEachOnto f done as = fun index labels => (forEach f as index labels).map
    fun out => ⟨(), done.reverse.flatten ++ out.code, out.labels⟩
  := by
  induction as generalizing done with
  | nil =>
      funext index labels
      simp [forEachOnto, forEach, Except.map]
  | cons a as ih =>
      funext index labels
      simp only [forEach, forEachOnto]
      cases f a index labels with
      | error e => rfl
      | ok out =>
          simp only [ih]
          cases forEach f as (index + out.code.length) out.labels with
          | error e => rfl
          | ok out' => simp [Except.map]

theorem forEach_nil (f : α → Gen Unit) :
  forEach f [] = Gen.pure ()
  := rfl

/-- One generator for each element is the one for the first and then those for the others. -/
theorem forEach_cons (f : α → Gen Unit) (a : α) (as : List α) :
  forEach f (a :: as) = f a >>= fun _ => forEach f as
  := by
  funext index labels
  change forEachOnto f [] (a :: as) index labels
    = Gen.bind (f a) (fun _ => forEach f as) index labels
  rw [forEachOnto, Gen.bind]
  cases f a index labels with
  | error e => rfl
  | ok out =>
      simp only [forEachOnto_eq]
      cases forEach f as (index + out.code.length) out.labels with
      | error e => rfl
      | ok out' => simp [Except.map]

/-! ### Values -/

/-- The generator gives the value whenever it succeeds. -/
def Yields (x : Gen α) (a : α) : Prop :=
  ∀ index labels out, x index labels = .ok out → out.value = a

theorem Yields.pure (a : α) :
  (Gen.pure a).Yields a
  := by
  intro index labels out hout
  obtain rfl := pure_eq_ok.mp hout
  rfl

theorem Yields.fail {reason : Unsupported} {a : α} :
  (Gen.fail reason).Yields a
  := by
  intro index labels out hout
  contradiction

theorem Yields.bind {x : Gen α} {f : α → Gen β} {b : β} (h : ∀ a, (f a).Yields b) :
  (x >>= f).Yields b
  := by
  intro index labels out hout
  obtain ⟨_, _, -, hy, rfl⟩ := bind_eq_ok.mp hout
  apply h _ _ _ _ hy

theorem Yields.require {x : Except Unsupported α} {f : α → Gen β} {b : β}
    (h : ∀ a, x = .ok a → (f a).Yields b) :
  (Gen.require x >>= f).Yields b
  := by
  intro index labels out hout
  obtain ⟨_, _, hx, hy, rfl⟩ := bind_eq_ok.mp hout
  obtain ⟨a, ha, rfl⟩ := require_eq_ok.mp hx
  apply h a ha _ _ _ hy

/-! ### Parts -/

/-- Whatever the generator emits has a part with the property. -/
def HasPart (x : Gen α) (Q : List Instruction → Prop) : Prop :=
  ∀ index labels out, x index labels = .ok out → ∃ part, part <:+: out.code ∧ Q part

namespace HasPart

variable {Q : List Instruction → Prop} {x : Gen α} {f : α → Gen β}

/-- A part of what comes first is a part of the whole. -/
theorem before (hx : x.HasPart Q) :
  (x >>= f).HasPart Q
  := by
  intro index labels out hout
  obtain ⟨a, b, ha, -, rfl⟩ := bind_eq_ok.mp hout
  obtain ⟨part, hpart, hQ⟩ := hx _ _ _ ha
  use part, hpart.trans (List.prefix_append a.code b.code).isInfix

/-- A part of what comes next is a part of the whole. -/
theorem after (hf : ∀ a, (f a).HasPart Q) :
  (x >>= f).HasPart Q
  := by
  intro index labels out hout
  obtain ⟨a, b, -, hb, rfl⟩ := bind_eq_ok.mp hout
  obtain ⟨part, hpart, hQ⟩ := hf _ _ _ _ hb
  use part, hpart.trans (List.suffix_append a.code b.code).isInfix

theorem emit {i : Instruction} (hi : Q [i]) :
  (Gen.emit i).HasPart Q
  := by
  intro index labels out hout
  obtain rfl := emit_eq_ok.mp hout
  use [i], List.infix_rfl

theorem emitChecked {x : Except InstructionError Instruction} (hx : ∀ i, x = .ok i → Q [i]) :
  (Gen.emitChecked x).HasPart Q
  := by
  intro index labels out hout
  obtain ⟨i, hi, rfl⟩ := emitChecked_eq_ok.mp hout
  use [i], List.infix_rfl, hx i hi

theorem fail {reason : Unsupported} :
  (Gen.fail reason : Gen α).HasPart Q
  := by
  intro index labels out hout
  contradiction

/-- What is emitted for an element stands in what is emitted for the list. -/
theorem forEach {f : α → Gen Unit} {as : List α} {a : α} (ha : a ∈ as) (hf : (f a).HasPart Q) :
  (Gen.forEach f as).HasPart Q
  := by
  induction as with
  | nil => contradiction
  | cons a' as ih =>
      rw [forEach_cons]
      cases ha with
      | head => apply before hf
      | tail _ ha =>
          apply after
          intro _
          apply ih ha

end HasPart

end Gen

end ClassForge
