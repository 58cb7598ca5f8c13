import ClassForge.Proofs.Lowering.Expression
import ClassForge.Proofs.Outcome
import ClassForge.Proofs.Stack.Depth

/-!
# Depths of generated code

The code that a generator gives goes from one depth to another. The labels that it makes up get
depths of their own: whatever grading gives them these depths, and satisfies what is assumed of
the other labels, is one of the code. This is closed under the ways to build generators and
under the ways to build the code of expressions.
-/

namespace ClassForge

/-! ### Instructions -/

/-- The instruction takes and puts so many slots, and it jumps to no label. -/
structure Instruction.Moves (i : Instruction) (pops pushes : Nat) : Prop where
  isLabel : i.isLabel = false
  targets : i.targets = []
  pops : i.pops = pops
  pushes : i.pushes = pushes

theorem Instruction.Moves.step {i : Instruction} {pops pushes d e : Nat} (h : i.Moves pops pushes)
    (g : Grading) (hpops : pops ≤ d) (he : e + pops = d + pushes) :
  g.Step d i e
  := by
  apply Grading.Step.straight h.isLabel h.targets
  · rwa [h.pops]
  · rwa [h.pops, h.pushes]

namespace Checked

variable {type elem : Ty} {slot : UInt16} {i : Instruction} {pops pushes : Nat}

/-- Most instructions are made from the kind of a type. -/
theorem moves_of_kind {f : Kind → Instruction} (h : (do return f (← Kind.of type)) = Except.ok i)
    (hf : ∀ kind, kind.slots = type.slots → (f kind).Moves pops pushes) :
  i.Moves pops pushes
  := by
  obtain ⟨kind, hkind, h⟩ := Except.bind_eq_ok_iff.mp h
  obtain rfl := Except.ok.inj h
  apply hf kind (Kind.slots_of hkind)

theorem load_moves (h : load slot type = .ok i) :
  i.Moves 0 type.slots
  := moves_of_kind h fun _ hkind => ⟨rfl, rfl, rfl, hkind⟩

theorem store_moves (h : store slot type = .ok i) :
  i.Moves type.slots 0
  := moves_of_kind h fun _ hkind => ⟨rfl, rfl, hkind, rfl⟩

theorem pop_moves (h : pop type = .ok i) :
  i.Moves type.slots 0
  := moves_of_kind h fun _ hkind => ⟨rfl, rfl, hkind, rfl⟩

theorem newArray_moves (h : newArray elem = .ok i) :
  i.Moves 1 1
  := moves_of_kind h fun _ _ => ⟨rfl, rfl, rfl, rfl⟩

theorem arrayLoad_moves (h : arrayLoad elem = .ok i) :
  i.Moves 2 elem.erasure.slots
  := moves_of_kind h fun _ _ => ⟨rfl, rfl, rfl, rfl⟩

theorem arrayStore_moves (h : arrayStore elem = .ok i) :
  i.Moves (2 + elem.erasure.slots) 0
  := moves_of_kind h fun _ _ => ⟨rfl, rfl, rfl, rfl⟩

theorem getField_moves {owner : Ty} {name : String} {isStatic : Bool}
    (h : getField owner name type isStatic = .ok i) :
  i.Moves (if isStatic then 0 else 1) type.erasure.slots
  := moves_of_kind h fun _ _ => ⟨rfl, rfl, rfl, rfl⟩

theorem putField_moves {owner : Ty} {name : String} {isStatic : Bool}
    (h : putField owner name type isStatic = .ok i) :
  i.Moves (type.erasure.slots + if isStatic then 0 else 1) 0
  := moves_of_kind h fun _ _ => ⟨rfl, rfl, rfl, rfl⟩

theorem ret_moves (hvoid : type.isVoid = false) (h : ret type = .ok i) :
  i.Moves type.slots 0
  := by
  rw [ret, hvoid] at h
  apply moves_of_kind h fun _ hkind => ⟨rfl, rfl, hkind, rfl⟩

theorem arith_moves {op : ArithOp} (h : arith op type = .ok i) :
  i.Moves (type.slots + if op.isShift then 1 else type.slots) type.slots
  := by
  obtain ⟨kind, hkind, -⟩ := Except.bind_eq_ok_iff.mp h
  obtain rfl := arith_eq_ok hkind h
  have hslots := Kind.slots_of hkind
  exact ⟨rfl, rfl, by rw [Instruction.pops, hslots], hslots⟩

theorem neg_moves (h : neg type = .ok i) :
  i.Moves type.slots type.slots
  := by
  obtain ⟨kind, hkind, -⟩ := Except.bind_eq_ok_iff.mp h
  obtain rfl := neg_eq_ok hkind h
  exact ⟨rfl, rfl, Kind.slots_of hkind, Kind.slots_of hkind⟩

theorem conversion_moves {p q : Primitive}
    (h : conversion (.primitive p) (.primitive q) = .ok i) :
  i.Moves p.kind.slots q.kind.slots
  := by
  change (if _ then _ else _) = _ at h
  split at h
  · obtain rfl := Except.ok.inj h
    exact ⟨rfl, rfl, rfl, rfl⟩
  · contradiction

theorem new_moves (h : new type = .ok i) :
  i.Moves 0 1
  := by
  unfold new at h
  split at h
  · obtain rfl := Except.ok.inj h
    exact ⟨rfl, rfl, rfl, rfl⟩
  · contradiction

/-- The creation of arrays takes as many lengths as it has dimensions, and leaves one reference. -/
theorem newArrays_moves {dims : Nat} (h : newArrays type dims = .ok i) :
  i.Moves dims 1
  := by
  unfold newArrays at h
  split at h
  · contradiction
  · next hdims =>
    obtain rfl := Except.ok.inj h
    have hlt : dims < UInt8.size := by
      rw [UInt8.size]
      omega
    exact ⟨rfl, rfl, UInt8.toNat_ofNat_of_lt hlt, rfl⟩

/-- A comparison takes two values and leaves a number. -/
theorem compare_moves {condition : Condition} (h : compare type condition = .ok i) :
  i.Moves (2 * type.slots) 1
  := by
  obtain ⟨kind, hkind, h⟩ := Except.bind_eq_ok_iff.mp h
  have hslots := Kind.slots_of hkind
  cases kind with
  | long | float | double =>
      obtain rfl := Except.ok.inj h
      exact ⟨rfl, rfl, by rw [Instruction.pops, hslots], rfl⟩
  | int | reference => contradiction

theorem checkCast_moves (h : checkCast type = .ok i) :
  i.Moves 1 1
  := by
  obtain ⟨kind, -, h⟩ := Except.bind_eq_ok_iff.mp h
  split at h
  · obtain rfl := Except.ok.inj h
    exact ⟨rfl, rfl, rfl, rfl⟩
  · contradiction

theorem instanceOf_moves (h : instanceOf type = .ok i) :
  i.Moves 1 1
  := by
  obtain ⟨kind, -, h⟩ := Except.bind_eq_ok_iff.mp h
  split at h
  · obtain rfl := Except.ok.inj h
    exact ⟨rfl, rfl, rfl, rfl⟩
  · contradiction

theorem invoke_moves (owner : Ty) (name : String) (type : MethodType) (mode : InvokeMode) :
  (invoke owner name type mode).Moves
    (slotsOf type.erasure.params + if mode = .static then 0 else 1) type.erasure.result.slots
  := ⟨rfl, rfl, rfl, rfl⟩

end Checked

/-- The instruction for a literal leaves the slots of its type. -/
theorem Literal.instruction_moves {l : Literal} {i : Instruction} (h : l.instruction = .ok i) :
  i.Moves 0 l.type.slots
  := by
  unfold Literal.instruction at h
  split at h
  case h_10 => exact Checked.getField_moves h
  all_goals
    obtain rfl := Except.ok.inj h
    exact ⟨rfl, rfl, rfl, rfl⟩

/-! ### Generators -/

namespace Gen

variable {α β : Type} {P : Grading → Prop} {d e f : Nat}

/-- The code that the generator gives goes from one depth to another, under every grading that
satisfies `P` and gives certain depths to the labels that the generator makes up. -/
def Grades (x : Gen α) (P : Grading → Prop) (d e : Nat) : Prop :=
  ∀ index labels out, x index labels = .ok out → labels ≤ out.labels
    ∧ ∃ depths : Nat → Nat, ∀ g, P g →
      (∀ n, labels ≤ n → n < out.labels → g.depth (madeUp n) = depths n) → g.Run d out.code e

/-- Jumps to the label may come from the depth. -/
def Admits (P : Grading → Prop) (target : Label) (depth : Nat) : Prop :=
  ∀ g, P g → ¬ g.caught target → g.depth target = depth

/-- A branch is a step to its target if the target has the depth that is left. -/
theorem Admits.step_branch {test : BranchTest} {target : Label} (h : Admits P target e)
    (g : Grading) (hg : P g) (hd : d = e + (Instruction.branch test target).pops) :
  g.Step d (.branch test target) e
  := by
  apply Grading.Step.plain rfl (hd ▸ Nat.le_add_left _ _) hd.symm
  intro l hl
  obtain rfl := List.mem_singleton.mp hl
  apply h g hg

namespace Grades

/-- A generator that makes up no labels. -/
theorem of_labels {x : Gen α}
    (h : ∀ index labels out, x index labels = .ok out → labels = out.labels
      ∧ ∀ g, P g → g.Run d out.code e) :
  x.Grades P d e
  := by
  intro index labels out hout
  obtain ⟨rfl, hrun⟩ := h index labels out hout
  use Nat.le_refl _, fun _ => 0
  intro g hg _
  apply hrun g hg

/-- A value alone changes no depth. -/
theorem pure (a : α) :
  (Gen.pure a).Grades P d d
  := by
  apply of_labels
  intro index labels out hout
  obtain rfl := pure_eq_ok.mp hout
  use rfl
  intro g _
  apply Grading.Run.nil

/-- What is required changes no depth. -/
theorem require (x : Except Unsupported α) :
  (Gen.require x).Grades P d d
  := by
  apply of_labels
  intro index labels out hout
  obtain ⟨a, -, rfl⟩ := require_eq_ok.mp hout
  use rfl
  intro g _
  apply Grading.Run.nil

/-- What is checked changes no depth. -/
theorem check (x : Except InstructionError α) :
  (Gen.check x).Grades P d d
  := by
  apply of_labels
  intro index labels out hout
  obtain ⟨a, -, rfl⟩ := check_eq_ok.mp hout
  use rfl
  intro g _
  apply Grading.Run.nil

theorem fail {reason : Unsupported} :
  (Gen.fail reason : Gen α).Grades P d e
  := by
  intro index labels out hout
  contradiction

/-- An instruction is graded by its step. -/
theorem emit {i : Instruction} (h : ∀ g, P g → g.Step d i e) :
  (Gen.emit i).Grades P d e
  := by
  apply of_labels
  intro index labels out hout
  obtain rfl := emit_eq_ok.mp hout
  use rfl
  intro g hg
  apply Grading.run_singleton (h g hg)

/-- A checked instruction is graded by its step. -/
theorem emitChecked {x : Except InstructionError Instruction}
    (h : ∀ i, x = .ok i → ∀ g, P g → g.Step d i e) :
  (Gen.emitChecked x).Grades P d e
  := by
  apply of_labels
  intro index labels out hout
  obtain ⟨i, hi, rfl⟩ := emitChecked_eq_ok.mp hout
  use rfl
  intro g hg
  apply Grading.run_singleton (h i hi g hg)

theorem emitMoves {x : Except InstructionError Instruction} {pops pushes : Nat}
    (h : ∀ {i}, x = .ok i → i.Moves pops pushes) (hpops : pops ≤ d)
    (he : e + pops = d + pushes) :
  (Gen.emitChecked x).Grades P d e
  := emitChecked fun _ hi g _ => (h hi).step g hpops he

theorem emitLabel {l : Label} (h : ∀ g, P g → g.depth l = d) :
  (Gen.emit (.label l)).Grades P d d
  := emit fun g hg => Grading.Step.label (h g hg)

theorem emitBranch {test : BranchTest} {target : Label} (h : Admits P target e)
    (hd : d = e + (Instruction.branch test target).pops) :
  (Gen.emit (.branch test target)).Grades P d e
  := emit fun g hg => h.step_branch g hg hd

/-- After a jump the depth may be any that is not greater. -/
theorem emitGoto {target : Label} (h : Admits P target d) (he : e ≤ d) :
  (Gen.emit (.goto target)).Grades P d e
  := by
  apply emit
  intro g hg
  apply Grading.Step.last rfl rfl (Nat.zero_le d) rfl _ he
  intro l hl
  obtain rfl := List.mem_singleton.mp hl
  apply h g hg

/-- One generator after another, where the second may depend on what is known of the value of
the first. -/
theorem bindValue {x : Gen α} {k : α → Gen β} {V : α → Prop} (hx : x.Grades P d e)
    (hV : ∀ index labels out, x index labels = .ok out → V out.value)
    (hk : ∀ a, V a → (k a).Grades P e f) :
  (x >>= k).Grades P d f
  := by
  intro index labels out hout
  obtain ⟨a, b, ha, hb, rfl⟩ := bind_eq_ok.mp hout
  obtain ⟨hle, depths, hrun⟩ := hx _ _ _ ha
  obtain ⟨hle', depths', hrun'⟩ := hk a.value (hV _ _ _ ha) _ _ _ hb
  use Nat.le_trans hle hle', fun n => if n < a.labels then depths n else depths' n
  intro g hg hdepths
  apply Grading.Run.append
  · apply hrun g hg
    intro n hn hlt
    apply (hdepths n hn (Nat.lt_of_lt_of_le hlt hle')).trans (if_pos hlt)
  · apply hrun' g hg
    intro n hn hlt
    apply (hdepths n (Nat.le_trans hle hn) hlt).trans (if_neg (Nat.not_lt_of_le hn))

theorem bind {x : Gen α} {k : α → Gen β} (hx : x.Grades P d e) (hk : ∀ a, (k a).Grades P e f) :
  (x >>= k).Grades P d f
  := bindValue (V := fun _ => True) hx (fun _ _ _ _ => trivial) fun a _ => hk a

theorem bindYields {x : Gen α} {k : α → Gen β} {a : α} (hx : x.Grades P d e) (ha : x.Yields a)
    (hk : (k a).Grades P e f) :
  (x >>= k).Grades P d f
  := bindValue (V := fun b => b = a) hx ha fun _ hb => hb ▸ hk

theorem requireThen {x : Except Unsupported α} {k : α → Gen β}
    (hk : ∀ a, x = .ok a → (k a).Grades P d e) :
  (Gen.require x >>= k).Grades P d e
  := by
  apply (require x).bindValue _ hk
  intro index labels out hout
  obtain ⟨a, ha, rfl⟩ := require_eq_ok.mp hout
  apply ha

theorem checkThen {x : Except InstructionError α} {k : α → Gen β}
    (hk : ∀ a, x = .ok a → (k a).Grades P d e) :
  (Gen.check x >>= k).Grades P d e
  := by
  apply (check x).bindValue _ hk
  intro index labels out hout
  obtain ⟨a, ha, rfl⟩ := check_eq_ok.mp hout
  apply ha

theorem thenPure {x : Gen α} (hx : x.Grades P d e) (b : β) :
  (x >>= fun _ => Gen.pure b).Grades P d e
  := hx.bind fun _ => pure b

/-- A label that is made up may be given any depth. -/
theorem fresh {k : Label → Gen β} (depth : Nat)
    (hk : ∀ l, (k l).Grades (fun g => P g ∧ g.depth l = depth) d e) :
  (Gen.fresh >>= k).Grades P d e
  := by
  intro index labels out hout
  obtain ⟨a, b, ha, hb, rfl⟩ := bind_eq_ok.mp hout
  obtain rfl := fresh_eq_ok.mp ha
  obtain ⟨hle, depths, hrun⟩ := hk _ _ _ _ hb
  use Nat.le_of_succ_le hle, fun n => if n = labels then depth else depths n
  intro g hg hdepths
  apply hrun g
  · use hg
    apply (hdepths labels (Nat.le_refl _) hle).trans (if_pos rfl)
  · intro n hn hlt
    apply (hdepths n (Nat.le_of_succ_le hn) hlt).trans (if_neg (Nat.ne_of_gt hn))

end Grades

end Gen

/-! ### Code of expressions -/

open Gen (Grades Admits)

/-- The code of an expression whose value takes so many slots. If `caught`, the thrown value is
on the stack before and the expression picks it up. -/
structure ExprCode.Grades (code : ExprCode) (caught : Bool) (slots : Nat) : Prop where
  value : ∀ P base, code.value.Grades P (base + caught.toNat) (base + slots)
  jump : slots = 1 → ∀ P base target onTrue, Admits P target base →
    (code.jump target onTrue).Grades P (base + caught.toNat) base

namespace ExprCode.Grades

variable {left right : ExprCode} {caught : Bool} {slots : Nat}

/-- An expression with a value leaves its slots, and none after a jump. -/
theorem ofValue {value : Gen Ty}
    (h : ∀ P base, value.Grades P (base + caught.toNat) (base + slots)) :
  (ExprCode.ofValue value).Grades caught slots
  := by
  constructor
  · apply h
  · rintro rfl P base target onTrue htarget
    apply (h P base).bind
    intro type
    split
    · apply Gen.Grades.emitBranch htarget rfl
    · apply Gen.Grades.fail

/-- A jump leaves one slot when it is made a value. What comes after the jump is entered by a branch
from before the value was made. -/
theorem ofJump {jump : Label → Bool → Gen Unit}
    (h : ∀ P base target onTrue, Admits P target base →
      (jump target onTrue).Grades P (base + caught.toNat) base) :
  (ExprCode.ofJump jump).Grades caught 1
  := by
  constructor
  · intro P base
    apply Gen.Grades.fresh base
    intro onFalse
    apply Gen.Grades.fresh (base + 1)
    intro done
    apply (h _ base onFalse false fun g hg _ => hg.1.2).bind
    intro _
    have hint (value : Int32) : (Instruction.int value).Moves 0 1 := ⟨rfl, rfl, rfl, rfl⟩
    apply (Gen.Grades.emit fun g _ => (hint 1).step g (Nat.zero_le base) rfl).bind
    intro _
    apply (Gen.Grades.emitGoto (fun g hg _ => hg.2) (Nat.le_succ base)).bind
    intro _
    apply (Gen.Grades.emitLabel fun g hg => hg.1.2).bind
    intro _
    apply (Gen.Grades.emit fun g _ => (hint 0).step g (Nat.zero_le base) rfl).bind
    intro _
    apply (Gen.Grades.emitLabel fun g hg => hg.2).thenPure
  · intro _
    apply h

/-- The jump for a conjunction leaves the depth at which its operands start. -/
theorem jumpAnd (hleft : left.Grades caught 1) (hright : right.Grades false 1)
    {P : Grading → Prop} {base : Nat} {target : Label} (onTrue : Bool)
    (htarget : Admits P target base) :
  (left.jumpAnd right target onTrue).Grades P (base + caught.toNat) base
  := by
  cases onTrue with
  | true =>
      apply Gen.Grades.fresh base
      intro skip
      apply (hleft.jump rfl _ base skip false fun g hg _ => hg.2).bind
      intro _
      apply (hright.jump rfl _ base target true fun g hg => htarget g hg.1).bind
      intro _
      apply Gen.Grades.emitLabel fun g hg => hg.2
  | false =>
      apply (hleft.jump rfl P base target false htarget).bind
      intro _
      apply hright.jump rfl P base target false htarget

/-- The jump for a disjunction leaves the depth at which its operands start. -/
theorem jumpOr (hleft : left.Grades caught 1) (hright : right.Grades false 1)
    {P : Grading → Prop} {base : Nat} {target : Label} (onTrue : Bool)
    (htarget : Admits P target base) :
  (left.jumpOr right target onTrue).Grades P (base + caught.toNat) base
  := by
  cases onTrue with
  | true =>
      apply (hleft.jump rfl P base target true htarget).bind
      intro _
      apply hright.jump rfl P base target true htarget
  | false =>
      apply Gen.Grades.fresh base
      intro skip
      apply (hleft.jump rfl _ base skip true fun g hg _ => hg.2).bind
      intro _
      apply (hright.jump rfl _ base target false fun g hg => htarget g hg.1).bind
      intro _
      apply Gen.Grades.emitLabel fun g hg => hg.2

/-- The jump for a comparison takes both operands from the stack. -/
theorem jumpCompare (condition : Condition) {type : Ty} (hleft : left.Grades caught type.slots)
    (hright : right.Grades false type.slots) {P : Grading → Prop} {base : Nat} {target : Label}
    (onTrue : Bool) (htarget : Admits P target base) :
  (ExprCode.jumpCompare condition left right type target onTrue).Grades P (base + caught.toNat) base
  := by
  apply (hleft.value P base).bind
  intro _
  apply (hright.value P (base + type.slots)).bind
  intro _
  apply Gen.Grades.checkThen
  intro kind hkind
  have hslots := Kind.slots_of hkind
  have hbranch (hone : kind.slots = 1) : (Gen.emitChecked (Checked.branchIf type
      (if onTrue then condition else condition.negate) target)).Grades P
        (base + type.slots + type.slots) base := by
    apply Gen.Grades.emitChecked
    intro i hi g hg
    obtain ⟨-, rfl⟩ := Checked.branchIf_eq_ok hkind hi
    apply htarget.step_branch g hg
    rw [← hslots, hone]
    rfl
  have htest : (Gen.emitChecked (Checked.compare type condition) >>= fun _ =>
      Gen.emit (.ifZero (if onTrue then condition else condition.negate) target)).Grades P
        (base + type.slots + type.slots) base := by
    apply (Gen.Grades.emitMoves Checked.compare_moves (e := base + 1) (by omega) (by omega)).bind
    intro _
    apply Gen.Grades.emitBranch htarget rfl
  cases kind with
  | int | reference => apply hbranch rfl
  | long | float | double => apply htest

end ExprCode.Grades

end ClassForge
