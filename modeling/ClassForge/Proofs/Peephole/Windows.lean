import ClassForge.Proofs.Machine.Block
import ClassForge.Proofs.Peephole.Rewriting

/-!
# Windows do what their replacements do

Every window that a rule replaces does to the stack, the locals and the heap what its
replacement does, unless the window is stuck. Reading a static field twice is the one case
that depends on the world: the first read must leave the heap as it is, so that the second
one gives the same.
-/

namespace ClassForge

namespace Machine

variable {H A : Type}

/-- Reading a static field leaves the heap as it is. -/
def World.KeepsStatics (w : World H A) : Prop :=
  ∀ field heap v heap', w.perform (.getField field true) [] heap = .done v heap' → heap' = heap

/-- Reading a static field leaves the heap as it is. -/
theorem World.KeepsStatics.call {w : World H A} (hstatics : w.KeepsStatics) {field : FieldRef}
    {heap heap' : H} {v : Option (Value A)}
    (h : w.call (.getField field true) [] heap = .done v heap') :
  heap' = heap
  := by
  unfold World.call at h
  split at h
  · contradiction
  · split at h
    · split at h
      · next v' heap'' hperform =>
        split at h
        · obtain ⟨-, rfl⟩ := Ends.done.inj h
          apply hstatics _ _ _ _ hperform
        · contradiction
      · contradiction
    · contradiction

end Machine

namespace Peephole

open Machine

variable {H A : Type}

/-- The replacement does what the window does, unless the window is stuck. -/
def Refines [DecidableEq A] (w : World H A) (window replacement : List Instruction) : Prop :=
  ∀ stack frame heap, w.actAll window stack frame heap ≠ .stuck →
    w.actAll replacement stack frame heap = w.actAll window stack frame heap

/-- An increment adds what the operation with the constant adds. -/
theorem intArith_of_delta? {op : ArithOp} {value : Int32} {delta : Int16}
    (h : delta? op value = some delta) (n : Int32) :
  divides op = false ∧ intArith op n value = n + delta.toInt32
  := by
  obtain ⟨change, hchange, hdelta⟩ := Option.bind_eq_some_iff.mp h
  split at hdelta
  · next hrange =>
    obtain rfl := Option.some.inj hdelta
    have hwiden : (Int16.ofInt change).toInt32 = Int32.ofInt change := by
      rw [← Int32.ofInt_toInt (Int16.ofInt change).toInt32, Int16.toInt_toInt32,
        Int16.toInt_ofInt_of_le (by omega) (by omega)]
    split at hchange
    · obtain rfl := Option.some.inj hchange
      constructor
      · rfl
      · rw [hwiden, Int32.ofInt_toInt]
        rfl
    · obtain rfl := Option.some.inj hchange
      constructor
      · rfl
      · rw [hwiden, Int32.ofInt_neg, Int32.ofInt_toInt, ← Int32.sub_eq_add_neg]
        rfl
    · contradiction
  · contradiction

theorem arith_of_delta? (w : World H A) {op : ArithOp} {value : Int32} {delta : Int16}
    (h : delta? op value = some delta) (n : Int32) (heap : H) :
  w.arith op .int (.int n) (.int value) heap = .done (.int (n + delta.toInt32)) heap
  := by
  obtain ⟨hdivides, hsum⟩ := intArith_of_delta? h n
  simp only [World.arith, hdivides, hsum, Bool.false_and, Bool.false_eq_true, ↓reduceIte]
  rfl

/-- The literal with the opposite sign has the value with the opposite sign. -/
theorem negate?_constant (w : World H A) {c negated : Constant} (h : c.negated? = some negated) :
  (w.constant c).negate? c.kind = some (w.constant negated)
  := by
  cases c with
  | int value =>
      simp only [Constant.negated?] at h
      split at h
      · contradiction
      · obtain rfl := Option.some.inj h
        rfl
  | long value =>
      simp only [Constant.negated?] at h
      split at h
      · contradiction
      · obtain rfl := Option.some.inj h
        rfl
  | float bits =>
      obtain rfl := Option.some.inj h
      rfl
  | double bits =>
      obtain rfl := Option.some.inj h
      rfl
  | string text => contradiction
  | classOf type => contradiction
  | null => contradiction

/-! ### The rules -/

variable [DecidableEq A]

/-- A load whose value is popped does nothing. -/
theorem refines_dropLoad (w : World H A) (slot : UInt16) (kind : Kind) :
  Refines w [.load slot kind, .pop kind.slots] []
  := by
  intro stack frame heap hsafe
  cases hload : frame.load? slot.toNat kind with
  | none => simp [World.actAll, hload, Action.ofStack?] at hsafe
  | some v =>
      have hpop := pop?_slots v stack
      rw [Value.slots, kind_of_load? hload] at hpop
      simp [World.actAll, hload, hpop, Action.ofStack?]

theorem refines_dropConstant (w : World H A) (c : Constant) :
  Refines w [.constant c, .pop c.kind.slots] []
  := by
  intro stack frame heap hsafe
  have hpop := pop?_slots (w.constant c) stack
  rw [Value.slots, World.kind_constant] at hpop
  simp [World.actAll, hpop, Action.ofStack?]

/-- An increment does what the load, the arithmetic operation and the store do. -/
theorem refines_incrementInPlace (w : World H A) (slot : UInt16) {op : ArithOp} {value : Int32}
    {delta : Int16} (h : delta? op value = some delta) :
  Refines w [.load slot .int, .constant (.int value), .arith op .int, .store slot .int]
    [.increment slot delta]
  := by
  intro stack frame heap hsafe
  cases hload : frame.load? slot.toNat .int with
  | none => simp [World.actAll, hload, Action.ofStack?] at hsafe
  | some v =>
      obtain ⟨n, rfl⟩ := Value.eq_int_of_kind (kind_of_load? hload)
      simp [World.actAll, hload, Action.ofStack?, Action.ofEnds, World.constant,
        arith_of_delta? w h n heap, Value.kind]

/-- A store and an increment do what the arithmetic operation and the store do. -/
theorem refines_storeThenIncrement (w : World H A) (slot : UInt16) {op : ArithOp}
    {value : Int32} {delta : Int16} (h : delta? op value = some delta) :
  Refines w [.constant (.int value), .arith op .int, .store slot .int]
    [.store slot .int, .increment slot delta]
  := by
  intro stack frame heap hsafe
  cases stack with
  | nil => simp [World.actAll] at hsafe
  | cons v stack =>
      cases v with
      | int n =>
          have hload : (frame.store slot.toNat (.int n)).load? slot.toNat .int = some (.int n) :=
            load?_store frame slot.toNat (.int n)
          have hstore : (frame.store slot.toNat (.int n)).store slot.toNat
                (.int (n + delta.toInt32))
              = frame.store slot.toNat (.int (n + delta.toInt32)) :=
            store_store frame slot.toNat rfl
          simp [World.actAll, Action.ofEnds, World.constant,
            arith_of_delta? w h n heap, Value.kind, hload, hstore]
      | _ => simp [World.actAll, World.constant, World.arith, Comp.stuck,
          Action.ofEnds] at hsafe

/-- A comparison with null is a test of one reference that is decided alike. -/
theorem refines_compareWithNull (w : World H A) {condition : Condition} {test : BranchTest}
    (htest : ∀ (r : Option A) stack, branch? w test (.ref r :: stack)
      = (Value.test? w.floating condition .reference (.ref r) (.ref none)).map (·, stack))
    (target : Label) :
  Refines w [.constant .null, .branch (.compare .reference condition) target]
    [.branch test target]
  := by
  intro stack frame heap hsafe
  cases stack with
  | nil => simp [World.actAll, branch?] at hsafe
  | cons v stack =>
      cases v with
      | ref r =>
          have hcompare : branch? w (.compare .reference condition) (.ref none :: .ref r :: stack)
              = branch? w test (.ref r :: stack) := by
            rw [htest, branch?, if_pos (.inr rfl)]
          simp [World.actAll, World.constant, hcompare]
      | _ => simp [World.actAll, World.constant, branch?, Value.test?,
          Value.compare?] at hsafe

theorem refines_foldNegation (w : World H A) {c negated : Constant}
    (h : c.negated? = some negated) :
  Refines w [.constant c, .neg c.kind] [.constant negated]
  := by
  intro stack frame heap hsafe
  simp [World.actAll, negate?_constant w h, Action.ofStack?]

/-- An instruction that only pushes is stuck, throws, or pushes a value of the given size and
would push the same value again. -/
theorem act_of_pushed? (w : World H A) (hstatics : w.KeepsStatics) {i : Instruction} {slots : Nat}
    (h : pushed? i = some slots) (frame : Frame A) (heap : H) :
  (∀ stack, w.act i stack frame heap = .stuck)
    ∨ (∃ thrown heap', ∀ stack, w.act i stack frame heap = .throws thrown frame heap')
    ∨ ∃ v : Value A, v.slots = slots ∧
        ∀ stack, w.act i stack frame heap = .next (v :: stack) frame heap
  := by
  unfold pushed? at h
  split at h
  · next slot kind =>
    obtain rfl := Option.some.inj h
    cases hload : frame.load? slot.toNat kind with
    | none =>
        left
        intro stack
        rw [World.act_load, hload]
        rfl
    | some v =>
        right
        right
        use v, by rw [Value.slots, kind_of_load? hload]
        intro stack
        rw [World.act_load, hload]
        rfl
  · next c =>
    obtain rfl := Option.some.inj h
    right
    right
    use w.constant c, by rw [Value.slots, World.kind_constant]
    intro stack
    rfl
  · next field =>
    obtain rfl := Option.some.inj h
    cases hkind : field.type.kind? with
    | none =>
        left
        intro stack
        rw [World.act_getField, World.operate, HeapOp.signature?, hkind]
        rfl
    | some kind =>
        have hsig : (HeapOp.getField field true).signature? = some ⟨[], some kind⟩ := by
          rw [HeapOp.signature?, hkind]
          rfl
        have hact : ∀ stack, w.act (.getField field true) stack frame heap
            = Action.ofEnds frame (fun v => v.toList ++ stack)
                (w.call (.getField field true) [] heap) := by
          intro stack
          rw [World.act_getField, World.operate, hsig]
          rfl
        cases hcall : w.call (.getField field true) [] heap with
        | stuck =>
            left
            intro stack
            rw [hact, hcall]
            rfl
        | throws thrown heap' =>
            right
            left
            use thrown, heap'
            intro stack
            rw [hact, hcall]
            rfl
        | done v heap' =>
            obtain ⟨x, rfl, hx⟩ := Option.map_eq_some_iff.mp
              ((w.gives_call hsig []).of_done hcall)
            obtain rfl := hstatics.call hcall
            right
            right
            use x, by rw [Value.slots, hx, Ty.slots_of_kind? hkind]
            intro stack
            rw [hact, hcall]
            rfl
  · contradiction

/-- A copy of a value that has been pushed does what pushing it again does. -/
theorem refines_duplicateRepeat (w : World H A) (hstatics : w.KeepsStatics) {i : Instruction}
    {slots : Nat} (h : pushed? i = some slots) :
  Refines w [i, i] [i, .dup slots]
  := by
  intro stack frame heap hsafe
  obtain hstuck | ⟨thrown, heap', hthrows⟩ | ⟨v, rfl, hnext⟩ :=
    act_of_pushed? w hstatics h frame heap
  · rw [World.actAll, hstuck] at hsafe
    contradiction
  · rw [World.actAll, World.actAll, hthrows]
  · have hdup : w.act (.dup v.slots) (v :: stack) frame heap
        = .next (v :: v :: stack) frame heap := by
      rw [World.act_dup, dup?_slots]
      rfl
    rw [actAll_cons_of_next _ (hnext stack), actAll_cons_of_next _ (hnext stack),
      actAll_cons_of_next _ hdup, actAll_cons_of_next _ (hnext (v :: stack))]

/-- The replacement of a window does what the window does, unless the window is stuck. -/
theorem Replaces.refines (w : World H A) (hstatics : w.KeepsStatics)
    {window replacement : List Instruction} (h : Replaces window replacement) :
  Refines w window replacement
  := by
  cases h with
  | dropLoad slot kind => apply refines_dropLoad
  | dropConstant c => apply refines_dropConstant
  | incrementInPlace slot h => apply refines_incrementInPlace w slot h
  | storeThenIncrement slot h => apply refines_storeThenIncrement w slot h
  | compareWithNull target | compareWithNonNull target =>
      apply refines_compareWithNull
      intro r stack
      cases r <;> rfl
  | foldNegation h => apply refines_foldNegation w h
  | duplicateRepeat h => apply refines_duplicateRepeat w hstatics h

end Peephole

end ClassForge
