import ClassForge.Proofs.Linking.Lowering
import ClassForge.Proofs.Lowering.Slots
import ClassForge.Proofs.Peephole.Rewriting

/-!
# Accesses to locals

The parameters of a method and then its other locals have slots one after another, after the
receiver if there is one. Whatever the code of a method reads or writes among the locals is the
receiver or one of them, at its first slot and with the kind of its type. The optimizer may put an
increment where a value was stored, but in the same local. So the declared number of locals covers
all of them.
-/

namespace ClassForge

/-! ### The number of locals -/

/-- A fold that takes maxima is not below its start and not below any of its elements. -/
theorem le_foldl_of_max {α : Type} {f : Nat → α → Nat} {g : α → Nat}
    (hf : ∀ n a, f n a = max n (g a)) (as : List α) (n : Nat) :
  n ≤ as.foldl f n ∧ ∀ a ∈ as, g a ≤ as.foldl f n
  := by
  induction as generalizing n with
  | nil =>
      constructor
      · apply Nat.le_refl
      · apply List.forall_mem_nil
  | cons a as ih =>
      obtain ⟨hle, hall⟩ := ih (f n a)
      rw [hf n a] at hle hall
      rw [List.foldl_cons, hf n a]
      constructor
      · apply Nat.le_trans (Nat.le_max_left n (g a)) hle
      · intro b hb
        obtain rfl | hb := List.mem_cons.mp hb
        · apply Nat.le_trans (Nat.le_max_right n (g b)) hle
        · apply hall b hb

/-- The slot after those of an access, as far as it is counted. -/
def accessEnd (access : UInt16 × Nat) : Nat :=
  min 65535 (access.1.toNat + access.2)

namespace MethodCode

variable {code : MethodCode}

theorem minLocals_le_maxLocals (code : MethodCode) :
  code.minLocals ≤ code.maxLocals
  := (le_foldl_of_max (g := accessEnd) (fun _ _ => rfl) _ _).1

/-- The number of locals covers every access that no bound cuts off. -/
theorem le_maxLocals {i : Instruction} (hi : i ∈ code.instructions) {slot : UInt16} {width : Nat}
    (haccess : i.localAccess? = some (slot, width)) (hle : slot.toNat + width ≤ 65535) :
  slot.toNat + width ≤ code.maxLocals
  := by
  have hmax : accessEnd (slot, width) ≤ code.maxLocals :=
    (le_foldl_of_max (fun _ _ => rfl) _ _).2 _ (List.mem_filterMap.mpr ⟨i, hi, haccess⟩)
  rwa [accessEnd, Nat.min_eq_right hle] at hmax

end MethodCode

/-! ### Optimized code -/

namespace Peephole

variable {window replacement : List Instruction}

/-- What a replacement does to locals the window does too, but for increments of what the window
stores. -/
theorem Replaces.mem_window_of_access (h : Replaces window replacement) {i : Instruction}
    (hi : i ∈ replacement) (haccess : i.localAccess? ≠ none) :
  i ∈ window ∨ ∃ slot delta, i = .increment slot delta ∧ .store slot .int ∈ window
  := by
  cases h with
  | dropLoad | dropConstant => contradiction
  | incrementInPlace slot hdelta =>
      obtain rfl := List.mem_singleton.mp hi
      right
      exact ⟨slot, _, rfl, by simp⟩
  | storeThenIncrement slot hdelta =>
      simp only [List.mem_cons, List.not_mem_nil, or_false] at hi
      obtain rfl | rfl := hi
      · left
        simp
      · right
        exact ⟨slot, _, rfl, by simp⟩
  | compareWithNull | compareWithNonNull | foldNegation =>
      obtain rfl := List.mem_singleton.mp hi
      contradiction
  | duplicateRepeat hpushed =>
      simp only [List.mem_cons, List.not_mem_nil, or_false] at hi
      obtain rfl | rfl := hi
      · left
        apply List.mem_cons_self
      · contradiction

/-- A property of accesses to locals that an increment has if a store has it is kept by the
optimizer. -/
theorem optimize_accesses {Q : Instruction → Prop} (hother : ∀ i, i.localAccess? = none → Q i)
    (hincrement : ∀ slot delta, Q (.store slot .int) → Q (.increment slot delta))
    (code : MethodCode) (h : ∀ i ∈ code.instructions, Q i) :
  ∀ i ∈ (optimize code).instructions, Q i
  := by
  apply optimize_forall _ code h
  intro window replacement hreplaces hwindow i hi
  by_cases haccess : i.localAccess? = none
  · apply hother i haccess
  · obtain hi | ⟨slot, delta, rfl, hstore⟩ := hreplaces.mem_window_of_access hi haccess
    · apply hwindow i hi
    · apply hincrement slot delta (hwindow _ hstore)

end Peephole

/-! ### Accesses -/

/-- The kind of the value that an instruction reads from a local or writes to it. -/
def Instruction.localKind? : Instruction → Option Kind
  | .load _ kind | .store _ kind => some kind
  | .increment _ _ => some .int
  | _ => none

theorem Instruction.localAccess?_eq_none_iff {i : Instruction} :
  i.localAccess? = none ↔ i.localKind? = none
  := by
  cases i <;> simp [localAccess?, localKind?]

/-- The instruction reads or writes the local: at its first slot, with the width and the kind of
its values. -/
structure Instruction.Addresses (i : Instruction) (l : LocalSlot) : Prop where
  access : i.localAccess? = some (l.slot, l.type.slots)
  kind : i.localKind? = l.type.kind?

theorem Instruction.addresses_of_kind {i : Instruction} {l : LocalSlot} {kind : Kind}
    (hkind : Kind.of l.type = .ok kind) (haccess : i.localAccess? = some (l.slot, kind.slots))
    (hlocal : i.localKind? = some kind) :
  i.Addresses l
  := by
  constructor
  · rw [haccess, Kind.slots_of hkind]
  · rw [hlocal, Ty.kind?_eq_some.mpr hkind]

/-- If the instruction reads or writes a local, then it reads the receiver, or it reads or writes
one of the locals. -/
def Instruction.StaysWithin (isStatic : Bool) (locals : Locals) (i : Instruction) : Prop :=
  i.localKind? ≠ none →
    isStatic = false ∧ i = .load 0 .reference ∨ ∃ l ∈ locals.slots, i.Addresses l

variable {isStatic : Bool} {locals : Locals}

theorem Instruction.staysWithin_of_none {i : Instruction} (h : i.localKind? = none) :
  i.StaysWithin isStatic locals
  := by
  intro haccess
  contradiction

/-- An increment stays where a store does. -/
theorem Instruction.StaysWithin.increment {slot : UInt16}
    (h : (Instruction.store slot .int).StaysWithin isStatic locals) (delta : Int16) :
  (Instruction.increment slot delta).StaysWithin isStatic locals
  := by
  intro _
  right
  obtain ⟨-, hload⟩ | ⟨l, hl, haddresses⟩ := h (Option.some_ne_none _)
  · contradiction
  · exact ⟨l, hl, haddresses.access, haddresses.kind⟩

/-- Accesses in a scope are to what has slots there. -/
theorem Scope.allows_staysWithin (scope : Scope) :
  scope.Allows (Instruction.StaysWithin scope.method.isStatic scope.locals)
  := by
  have hfound {name : String} {l : LocalSlot} (hl : scope.locals.find name = .ok l) :
      l ∈ scope.locals.slots := List.mem_of_find?_eq_some (Locals.find_eq_ok.mp hl)
  constructor
  · intro hstatic _
    left
    exact ⟨hstatic, rfl⟩
  · intro name l kind hl hkind _
    right
    use l, hfound hl
    apply Instruction.addresses_of_kind hkind rfl rfl
  · intro name l kind hl hkind _
    right
    use l, hfound hl
    apply Instruction.addresses_of_kind hkind rfl rfl

/-- What accesses no local stays within the locals. -/
theorem Gen.lenient_staysWithin (isStatic : Bool) (locals : Locals) :
  Gen.Lenient (Instruction.StaysWithin isStatic locals)
  := by
  constructor
  · intro i hplain
    apply Instruction.staysWithin_of_none
    cases i <;> first | rfl | contradiction
  · intro n
    apply Instruction.staysWithin_of_none rfl

variable {self : Ty} {m : Method} {body : Body} {code : MethodCode}

/-- Statements access only what has slots in their scope. -/
theorem Stmt.code_staysWithin (scope : Scope) (s : Stmt) :
  (s.code scope).Regular (Instruction.StaysWithin scope.method.isStatic scope.locals)
  := by
  apply Stmt.code_regular (Gen.lenient_staysWithin _ _) scope.allows_staysWithin
  · intro e _ elem length _
    apply Instruction.staysWithin_of_none rfl
  · intro l _
    apply Instruction.staysWithin_of_none rfl
  · intro switch _
    apply Instruction.staysWithin_of_none rfl

/-! ### Methods -/

/-- The local takes the slot. -/
def LocalSlot.Covers (l : LocalSlot) (slot : Nat) : Prop :=
  l.slot.toNat ≤ slot ∧ slot < l.slot.toNat + l.type.slots

/-- The parameters of a method have slots one after another, after the receiver if there is one,
up to `minLocals`, and from there on its other locals. No slot is taken twice. -/
structure Locals.Allotted (locals : Locals) (m : Method) (body : Body) (minLocals : Nat) :
    Prop where
  ranges : ∃ params own, locals.slots = params ++ own
    ∧ params.map LocalSlot.declaration = m.params ∧ own.map LocalSlot.declaration = body.locals
    ∧ LocalSlot.Consecutive minLocals (if m.isStatic then 0 else 1) params
    ∧ LocalSlot.Consecutive locals.next minLocals own
  apart : locals.slots.Pairwise fun l l' => ∀ slot, ¬ (l.Covers slot ∧ l'.Covers slot)

/-- What the code reads or writes among the locals is the receiver, read, or the one local that
starts there, and the declared number of locals covers it without being cut off. -/
structure MethodCode.KeepsTo (code : MethodCode) (isStatic : Bool) (locals : Locals) : Prop where
  addresses : ∀ i ∈ code.instructions, i.localKind? ≠ none →
    isStatic = false ∧ i = .load 0 .reference
      ∨ ∃ l ∈ locals.slots, i.Addresses l ∧ ∀ l' ∈ locals.slots, l'.slot = l.slot → l' = l
  covered : ∀ i ∈ code.instructions, i.localKind? ≠ none →
    ∃ slot width, i.localAccess? = some (slot, width) ∧ slot.toNat + width ≤ 65535
      ∧ slot.toNat + width ≤ code.maxLocals
  minLocals_le : code.minLocals ≤ code.maxLocals

/-- The locals of a method are allotted in the order of their declaration. -/
theorem Locals.allotted_ofMethod (h : Locals.ofMethod m body = .ok locals) :
  locals.Allotted m body ((if m.isStatic then 0 else 1) + slotsOf m.paramTypes)
  := by
  have hlaid := Locals.laid_ofMethod h
  obtain ⟨params, hparams, hown⟩ := Locals.ofMethod_eq_ok h
  obtain ⟨declared, hdeclared, hnames, hranges⟩ := Locals.addAll_eq_ok hparams
  obtain ⟨own, hslots, hownNames, hownRanges⟩ := Locals.addAll_eq_ok hown
  have hminLocals : params.next = (if m.isStatic then 0 else 1) + slotsOf m.paramTypes := by
    rw [hranges.stop_eq, Method.paramTypes, ← hnames, List.map_map]
    rfl
  constructor
  · use declared, own
    rw [← hminLocals]
    rw [hdeclared] at hslots
    exact ⟨hslots, hnames, hownNames, hranges, hownRanges⟩
  · apply hlaid.apart.imp
    rintro l l' ⟨-, hle⟩ slot ⟨⟨-, hlt⟩, hle', -⟩
    omega

/-- Locals that do not overlap start at different slots. -/
theorem Locals.Laid.eq_of_slot_eq {first : Nat} (hlaid : locals.Laid first) {l l' : LocalSlot}
    (hl : l ∈ locals.slots) (hl' : l' ∈ locals.slots) (hslot : l'.slot = l.slot) :
  l' = l
  := by
  obtain heq | ⟨-, hapart⟩ := hlaid.eq_or_apart hl hl'
  · apply heq
  · have hpos := hlaid.slots_pos l hl
    have hpos' := hlaid.slots_pos l' hl'
    rw [hslot] at hapart
    omega

/-- Code that stays within the locals keeps to them. -/
theorem MethodCode.keepsTo_of_staysWithin
    (hlaid : locals.Laid (if isStatic then 0 else 1))
    (hreceiver : isStatic = false → 1 ≤ code.minLocals)
    (h : ∀ i ∈ code.instructions, i.StaysWithin isStatic locals) :
  code.KeepsTo isStatic locals
  := by
  constructor
  · intro i hi haccess
    obtain hload | ⟨l, hl, haddresses⟩ := h i hi haccess
    · left
      apply hload
    · right
      use l, hl, haddresses
      intro l' hl' hslot
      apply hlaid.eq_of_slot_eq hl hl' hslot
  · intro i hi haccess
    obtain ⟨hstatic, rfl⟩ | ⟨l, hl, haddresses⟩ := h i hi haccess
    · use 0, 1, rfl
      constructor
      · decide
      · apply Nat.le_trans (hreceiver hstatic) code.minLocals_le_maxLocals
    · have hle := Nat.le_trans (hlaid.below l hl) hlaid.next_le
      use l.slot, l.type.slots, haddresses.access, hle
      apply MethodCode.le_maxLocals hi haddresses.access hle
  · apply code.minLocals_le_maxLocals

/-- The code of a method stays within its locals. -/
theorem Method.staysWithin_of_lower (hbody : m.body = some body)
    (hlower : (m.lower self).outcome = .ok code) :
  ∃ locals, Locals.ofMethod m body = .ok locals
    ∧ code.minLocals = (if m.isStatic then 0 else 1) + slotsOf m.paramTypes
    ∧ ∀ i ∈ code.instructions, i.StaysWithin m.isStatic locals
  := by
  obtain ⟨body', locals, out, handlers, hbody', hlocals, hout, -, rfl⟩ :=
    Method.lowerBody_eq_ok (Method.lower_eq_ok.mp hlower)
  obtain rfl := Option.some.inj (hbody.symm.trans hbody')
  have hstmts : (Gen.forEach (Stmt.code ⟨self, m, locals⟩) body.stmts).Regular
      (Instruction.StaysWithin m.isStatic locals) :=
    Gen.Regular.forEach fun s _ => s.code_staysWithin ⟨self, m, locals⟩
  use locals, hlocals
  constructor
  · apply Nat.mod_eq_of_lt
    obtain ⟨params, own, -, -, -, -, hown⟩ := (Locals.allotted_ofMethod hlocals).ranges
    have hnext := (Locals.laid_ofMethod hlocals).next_le
    rw [hown.stop_eq] at hnext
    omega
  · intro i hi
    obtain hi | rfl := mem_withReturn hi
    · apply hstmts.emits hout i hi
    · apply Instruction.staysWithin_of_none rfl

/-- The optimizer keeps code within the locals. -/
theorem Peephole.optimize_staysWithin (h : ∀ i ∈ code.instructions, i.StaysWithin isStatic locals) :
  ∀ i ∈ (optimize code).instructions, i.StaysWithin isStatic locals
  := by
  refine optimize_accesses ?_ ?_ code h
  · intro i hnone
    apply Instruction.staysWithin_of_none (Instruction.localAccess?_eq_none_iff.mp hnone)
  · intro slot delta hstore
    apply hstore.increment delta

/-- The parameters of a method and then its other locals have slots of their own one after
another. The code of the method, and the code that the optimizer makes of it, reads and writes
nothing but these and the receiver, and the declared number of locals covers them. -/
theorem lower_keepsTo_locals (hbody : m.body = some body)
    (hlower : (m.lower self).outcome = .ok code) :
  ∃ locals, Locals.ofMethod m body = .ok locals ∧ locals.Allotted m body code.minLocals
    ∧ code.KeepsTo m.isStatic locals ∧ (Peephole.optimize code).KeepsTo m.isStatic locals
  := by
  obtain ⟨locals, hlocals, hminLocals, hstays⟩ := Method.staysWithin_of_lower hbody hlower
  have hlaid := Locals.laid_ofMethod hlocals
  have hreceiver : m.isStatic = false → 1 ≤ code.minLocals := by
    intro hstatic
    rw [hminLocals, hstatic]
    apply Nat.le_add_right
  use locals, hlocals
  refine ⟨?_, ?_, ?_⟩
  · rw [hminLocals]
    apply Locals.allotted_ofMethod hlocals
  · apply MethodCode.keepsTo_of_staysWithin hlaid hreceiver hstays
  · exact MethodCode.keepsTo_of_staysWithin hlaid hreceiver (Peephole.optimize_staysWithin hstays)

/-- Counts one more than nothing, beside a parameter of two slots. -/
def tally : Body :=
  ⟨[⟨"count", .int⟩],
    [.assign (.var "count") (.literal (.int 0)),
      .assign (.var "count") (.arith .add (.var "count") (.literal (.int 1)) .int),
      .eval .self,
      .ret (some (.var "count"))],
    []⟩

/-- The method of an object that counts. -/
def tallyMethod : Method :=
  ⟨"tally", 0, [], [⟨"start", .primitive .long⟩], .int, [], some tally⟩

/-- The code of that method. -/
def tallyCode : MethodCode :=
  ⟨[.int 0, .store 3 .int, .load 3 .int, .int 1, .arith .add .int, .store 3 .int,
      .load 0 .reference, .pop 1, .load 3 .int, .ret (some .int)], [], 3⟩

theorem lower_tally :
  (tallyMethod.lower (.object ⟨[], ["Counter"]⟩ [])).outcome = .ok tallyCode
  := rfl

theorem lower_tally_keepsTo_locals :
  ∃ locals, Locals.ofMethod tallyMethod tally = .ok locals
    ∧ locals.Allotted tallyMethod tally 3 ∧ tallyCode.KeepsTo false locals
    ∧ (Peephole.optimize tallyCode).KeepsTo false locals
  := lower_keepsTo_locals rfl lower_tally

end ClassForge
