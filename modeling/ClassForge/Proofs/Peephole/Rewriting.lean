import ClassForge.Peephole.Pass
import Mathlib.Logic.Relation
import Mathlib.Tactic.Common

/-!
# Peephole rewriting as a relation

What the rules do is said once: which windows of instructions they replace, and by what. A
step of rewriting replaces one window somewhere in the code, where no handler starts or ends
strictly within it, and moves the handlers along. The optimizer does nothing but such steps,
so whatever every step preserves, the optimizer preserves.
-/

namespace ClassForge

namespace Peephole

/-! ### Windows -/

/-- The windows that the rules replace, with what they replace them by. -/
inductive Replaces : List Instruction → List Instruction → Prop
  | dropLoad (slot : UInt16) (kind : Kind) :
      Replaces [.load slot kind, .pop kind.slots] []
  | dropConstant (c : Constant) :
      Replaces [.constant c, .pop c.kind.slots] []
  | incrementInPlace (slot : UInt16) {op : ArithOp} {value : Int32} {delta : Int16}
      (h : delta? op value = some delta) :
      Replaces [.load slot .int, .constant (.int value), .arith op .int, .store slot .int]
        [.increment slot delta]
  | storeThenIncrement (slot : UInt16) {op : ArithOp} {value : Int32} {delta : Int16}
      (h : delta? op value = some delta) :
      Replaces [.constant (.int value), .arith op .int, .store slot .int]
        [.store slot .int, .increment slot delta]
  | compareWithNull (target : Label) :
      Replaces [.constant .null, .branch (.compare .reference .eq) target] [.branch .null target]
  | compareWithNonNull (target : Label) :
      Replaces [.constant .null, .branch (.compare .reference .ne) target]
        [.branch .nonNull target]
  | foldNegation {c negated : Constant} (h : c.negated? = some negated) :
      Replaces [.constant c, .neg c.kind] [.constant negated]
  | duplicateRepeat {i : Instruction} {slots : Nat} (h : pushed? i = some slots) :
      Replaces [i, i] [i, .dup slots]

/-- The rule step replaces a window at the front of the code. -/
def ReplacesFront (code : List Instruction) (r : RuleStep) : Prop :=
  ∃ window rest, code = window ++ rest ∧ r.length = window.length
    ∧ Replaces window r.replacement

variable {code : List Instruction} {r : RuleStep}

/-- A value that is pushed and popped is replaced by nothing. -/
theorem dropPopped?_replaces (h : dropPopped? code = some r) :
  ReplacesFront code r
  := by
  unfold dropPopped? at h
  split at h
  · next slot kind slots rest =>
    split at h
    · next hslots =>
      subst hslots
      obtain rfl := Option.some.inj h
      use [.load slot kind, .pop kind.slots], rest, rfl, rfl
      apply Replaces.dropLoad
    · contradiction
  · next c slots rest =>
    split at h
    · next hslots =>
      subst hslots
      obtain rfl := Option.some.inj h
      use [.constant c, .pop c.kind.slots], rest, rfl, rfl
      apply Replaces.dropConstant
    · contradiction
  · contradiction

/-- A load, an arithmetic operation and a store of the same local are replaced by an increment. -/
theorem incrementInPlace?_replaces (h : incrementInPlace? code = some r) :
  ReplacesFront code r
  := by
  unfold incrementInPlace? at h
  split at h
  · next source value op slot rest =>
    split at h
    · next hslot =>
      subst hslot
      obtain ⟨delta, hdelta, rfl⟩ := Option.map_eq_some_iff.mp h
      use [.load source .int, .constant (.int value), .arith op .int, .store source .int], rest,
        rfl, rfl
      apply Replaces.incrementInPlace source hdelta
    · contradiction
  · contradiction

/-- An arithmetic operation and a store are replaced by a store and an increment. -/
theorem storeThenIncrement?_replaces (h : storeThenIncrement? code = some r) :
  ReplacesFront code r
  := by
  unfold storeThenIncrement? at h
  split at h
  · next value op slot rest =>
    obtain ⟨delta, hdelta, rfl⟩ := Option.map_eq_some_iff.mp h
    use [.constant (.int value), .arith op .int, .store slot .int], rest, rfl, rfl
    apply Replaces.storeThenIncrement slot hdelta
  · contradiction

/-- A comparison with null is replaced by a test for null. -/
theorem compareWithNull?_replaces (h : compareWithNull? code = some r) :
  ReplacesFront code r
  := by
  unfold compareWithNull? at h
  split at h
  · next condition target rest =>
    split at h
    · obtain rfl := Option.some.inj h
      use [.constant .null, .branch (.compare .reference .eq) target], rest, rfl, rfl
      apply Replaces.compareWithNull
    · obtain rfl := Option.some.inj h
      use [.constant .null, .branch (.compare .reference .ne) target], rest, rfl, rfl
      apply Replaces.compareWithNonNull
    · contradiction
  · contradiction

/-- A literal and its negation are replaced by the negated literal. -/
theorem foldNegation?_replaces (h : foldNegation? code = some r) :
  ReplacesFront code r
  := by
  unfold foldNegation? at h
  split at h
  · next c kind rest =>
    split at h
    · next hkind =>
      subst hkind
      obtain ⟨negated, hnegated, rfl⟩ := Option.map_eq_some_iff.mp h
      use [.constant c, .neg c.kind], rest, rfl, rfl
      apply Replaces.foldNegation hnegated
    · contradiction
  · contradiction

/-- What is pushed twice is pushed once and copied. -/
theorem duplicateRepeat?_replaces (h : duplicateRepeat? code = some r) :
  ReplacesFront code r
  := by
  unfold duplicateRepeat? at h
  split at h
  · next first second rest =>
    split at h
    · next heq =>
      subst heq
      obtain ⟨slots, hslots, rfl⟩ := Option.map_eq_some_iff.mp h
      use [first, first], rest, rfl, rfl
      apply Replaces.duplicateRepeat hslots
    · contradiction
  · contradiction

/-- The first rule that applies replaces a window at the front of the code. -/
theorem step?_replaces (h : step? code = some r) :
  ReplacesFront code r
  := by
  simp only [step?, Option.or_eq_some_iff] at h
  obtain h | ⟨-, h | ⟨-, h | ⟨-, h | ⟨-, h | ⟨-, h⟩⟩⟩⟩⟩ := h
  · apply dropPopped?_replaces h
  · apply incrementInPlace?_replaces h
  · apply storeThenIncrement?_replaces h
  · apply compareWithNull?_replaces h
  · apply foldNegation?_replaces h
  · apply duplicateRepeat?_replaces h

variable {window replacement : List Instruction}

theorem Replaces.ne_nil (h : Replaces window replacement) :
  window ≠ []
  := by
  cases h <;> apply List.cons_ne_nil

/-- Where a rule applies, the code is the window and what a pass goes on with. -/
theorem exists_window_of_step? {i : Instruction} {tail : List Instruction}
    (h : step? (i :: tail) = some r) :
  ∃ window, i :: tail = window ++ tail.drop (r.length - 1) ∧ r.length = window.length
    ∧ Replaces window r.replacement
  := by
  obtain ⟨window, rest, hcode, hlength, hreplaces⟩ := step?_replaces h
  use window, ?_, hlength, hreplaces
  obtain ⟨j, window, rfl⟩ := List.exists_cons_of_ne_nil hreplaces.ne_nil
  rw [List.cons_append] at hcode ⊢
  obtain ⟨rfl, rfl⟩ := List.cons.inj hcode
  rw [hlength, List.length_cons, Nat.add_sub_cancel, List.drop_left]

theorem isLabel_of_pushed? {i : Instruction} {slots : Nat} (h : pushed? i = some slots) :
  i.isLabel = false
  := by
  cases i <;> first | rfl | contradiction

/-- Rules take no labels away. -/
theorem Replaces.isLabel_window (h : Replaces window replacement) :
  ∀ i ∈ window, i.isLabel = false
  := by
  cases h with
  | duplicateRepeat h => simpa using isLabel_of_pushed? h
  | _ => simp [Instruction.isLabel]

/-- Rules put no labels in. -/
theorem Replaces.isLabel_replacement (h : Replaces window replacement) :
  ∀ i ∈ replacement, i.isLabel = false
  := by
  cases h with
  | duplicateRepeat h => simpa [Instruction.isLabel] using isLabel_of_pushed? h
  | _ => simp [Instruction.isLabel]

/-! ### Code -/

/-- A window in some code that a rule replaces, where no handler starts or ends strictly
within the window. -/
structure Site where
  before : List Instruction
  window : List Instruction
  replacement : List Instruction
  after : List Instruction
  handlers : List Handler
  minLocals : Nat
  replaces : Replaces window replacement
  free : anyStraddles handlers before.length (before.length + window.length) = false

namespace Site

/-- The place where the window starts. -/
def start (p : Site) : Nat :=
  p.before.length

/-- The place after the window. -/
def stop (p : Site) : Nat :=
  p.before.length + p.window.length

/-- The code with the window. -/
def source (p : Site) : MethodCode :=
  ⟨p.before ++ p.window ++ p.after, p.handlers, p.minLocals⟩

/-- The code with the replacement, and the handlers moved along. -/
def target (p : Site) : MethodCode :=
  ⟨p.before ++ p.replacement ++ p.after,
    shiftAll p.handlers p.stop p.window.length p.replacement.length, p.minLocals⟩

end Site

/-- One window of the code is replaced. -/
def Rewrites (code code' : MethodCode) : Prop :=
  ∃ p : Site, p.source = code ∧ p.target = code'

/-- Code that some steps of rewriting lead to. -/
abbrev RewritesTo : MethodCode → MethodCode → Prop :=
  Relation.ReflTransGen Rewrites

/-- A pass consists of steps of rewriting. -/
theorem scan_rewritesTo (done : List Instruction) (index : Nat) (handlers : List Handler)
    (applied : List (Rule × Nat)) (rest : List Instruction) (hindex : index = done.length)
    (minLocals : Nat) :
  RewritesTo ⟨done.reverse ++ rest, handlers, minLocals⟩
    ⟨(scan done index handlers applied rest).instructions,
      (scan done index handlers applied rest).handlers, minLocals⟩
  := by
  fun_induction scan done index handlers applied rest with
  | case1 done index handlers applied =>
      rw [List.append_nil]
  | case2 done index handlers applied i tail hnone ih =>
      have h := ih (by rw [hindex, List.length_cons])
      rwa [List.reverse_cons, List.append_assoc, List.singleton_append] at h
  | case3 done index handlers applied i tail r hsome hstraddles ih =>
      have h := ih (by rw [hindex, List.length_cons])
      rwa [List.reverse_cons, List.append_assoc, List.singleton_append] at h
  | case4 done index handlers applied i tail r hsome hstraddles ih =>
      subst hindex
      obtain ⟨window, hcode, hlength, hreplaces⟩ := exists_window_of_step? hsome
      generalize tail.drop (r.length - 1) = rest at hcode ih ⊢
      have hstep : Rewrites ⟨done.reverse ++ window ++ rest, handlers, minLocals⟩
          ⟨done.reverse ++ r.replacement ++ rest,
            shiftAll handlers (done.length + r.length) r.length r.replacement.length,
            minLocals⟩ := by
        let p : Site := ⟨done.reverse, window, r.replacement, rest, handlers, minLocals, hreplaces,
          by rw [List.length_reverse, ← hlength]; simpa using hstraddles⟩
        use p, rfl
        rw [Site.target, Site.stop, List.length_reverse, hlength]
      have hrest := ih (by rw [List.length_append, List.length_reverse, Nat.add_comm])
      rw [List.reverse_append, List.reverse_reverse] at hrest
      rw [hcode, ← List.append_assoc]
      apply Relation.ReflTransGen.head hstep hrest

theorem pass_rewritesTo (instructions : List Instruction) (handlers : List Handler)
    (minLocals : Nat) :
  RewritesTo ⟨instructions, handlers, minLocals⟩
    ⟨(pass instructions handlers).instructions, (pass instructions handlers).handlers, minLocals⟩
  := scan_rewritesTo [] 0 handlers [] instructions rfl minLocals

theorem passes_ne_nil (instructions : List Instruction) (handlers : List Handler) :
  passes instructions handlers ≠ []
  := by
  unfold passes
  split <;> apply List.cons_ne_nil

/-- The last of some passes is reached by rewrites. -/
theorem passes_rewritesTo (instructions : List Instruction) (handlers : List Handler)
    (minLocals : Nat) (default : Pass) :
  RewritesTo ⟨instructions, handlers, minLocals⟩
    ⟨((passes instructions handlers).getLastD default).instructions,
      ((passes instructions handlers).getLastD default).handlers, minLocals⟩
  := by
  fun_induction passes instructions handlers with
  | case1 instructions handlers hnone => apply pass_rewritesTo
  | case2 instructions handlers hsome ih =>
      apply (pass_rewritesTo instructions handlers minLocals).trans
      have hlast : ∀ {p : Pass} {ps : List Pass}, ps ≠ [] →
          (p :: ps).getLastD default = ps.getLastD default := by
        intro p ps hps
        obtain ⟨q, qs, rfl⟩ := List.exists_cons_of_ne_nil hps
        rfl
      rw [hlast (passes_ne_nil _ _)]
      apply ih

/-- The optimizer does nothing but steps of rewriting. -/
theorem optimize_rewritesTo (code : MethodCode) :
  RewritesTo code (optimize code)
  := passes_rewritesTo code.instructions code.handlers code.minLocals _

/-- What every step of rewriting preserves, the optimizer preserves. -/
theorem optimize_preserves (P : MethodCode → Prop)
    (hstep : ∀ code code', Rewrites code code' → P code → P code') (code : MethodCode)
    (h : P code) :
  P (optimize code)
  := by
  have hall : ∀ code', RewritesTo code code' → P code' := by
    intro code' hrewrites
    induction hrewrites with
    | refl => apply h
    | tail _ hlast ih => apply hstep _ _ hlast ih
  apply hall _ (optimize_rewritesTo code)

/-- What every rule preserves as a property of instructions, the optimizer preserves. -/
theorem optimize_forall {Q : Instruction → Prop}
    (hrule : ∀ {window replacement}, Replaces window replacement → (∀ i ∈ window, Q i) →
      ∀ i ∈ replacement, Q i)
    (code : MethodCode) (h : ∀ i ∈ code.instructions, Q i) :
  ∀ i ∈ (optimize code).instructions, Q i
  := by
  apply optimize_preserves (fun code => ∀ i ∈ code.instructions, Q i) _ code h
  rintro _ _ ⟨p, rfl, rfl⟩ hall
  simp only [Site.source, Site.target, List.forall_mem_append] at hall ⊢
  obtain ⟨⟨hbefore, hwindow⟩, hafter⟩ := hall
  exact ⟨⟨hbefore, hrule p.replaces hwindow⟩, hafter⟩

/-- Rules put in no calls and no switches. -/
theorem Replaces.not_mem {window replacement : List Instruction} (h : Replaces window replacement) :
  (∀ method mode, .invoke method mode ∉ replacement) ∧ ∀ s, .switch s ∉ replacement
  := by
  cases h with
  | @duplicateRepeat i slots h =>
      constructor
      · intro method mode hmem
        obtain rfl : .invoke method mode = i := by simpa using hmem
        contradiction
      · intro s hmem
        obtain rfl : .switch s = i := by simpa using hmem
        contradiction
  | _ => simp

end Peephole

end ClassForge
