import ClassForge.Proofs.Machine.Step
import Mathlib.Tactic.Common

/-!
# Depths of the stack

A path through the code of a method comes to each of its places with some number of slots on
the stack. A grading gives a depth to every label, and code that can be graded from first to
last has a depth at every place. Every path comes to a place at the depth that the grading
gives it, whichever way it takes, and the depth found by reading the code from first to last
is never below.
-/

namespace ClassForge

/-- Values of one type take its slots as often as there are values. -/
theorem slotsOf_replicate (n : Nat) (t : Ty) :
  slotsOf (List.replicate n t) = n * t.slots
  := by
  induction n with
  | zero => rw [Nat.zero_mul, List.replicate_zero, slotsOf, List.foldr_nil]
  | succ n ih =>
      change t.slots + slotsOf (List.replicate n t) = (n + 1) * t.slots
      rw [ih, Nat.succ_mul, Nat.add_comm]

namespace Instruction

/-- The slots that an instruction takes from the stack. -/
def pops : Instruction → Nat
  | .label _ | .nop | .load .. | .increment .. | .constant _ | .new _ | .ret none => 0
  | .store _ kind | .neg kind | .ret (some kind) => kind.slots
  | .arith op kind => kind.slots + if op.isShift then 1 else kind.slots
  | .convert source _ => source.kind.slots
  | .compare kind _ => 2 * kind.slots
  | .branch test _ =>
    match test with
    | .always => 0
    | .compare .. => 2
    | .zero _ | .null | .nonNull => 1
  | .dup slots | .pop slots => slots
  | .newArrays _ dims => dims.toNat
  | .switch _ | .newArray _ | .arrayLength | .checkCast _ | .instanceOf _ | .throw
  | .monitorEnter | .monitorExit => 1
  | .arrayLoad _ => 2
  | .arrayStore elem => 2 + elem.slots
  | .getField _ isStatic => if isStatic then 0 else 1
  | .putField field isStatic => field.type.slots + if isStatic then 0 else 1
  | .invoke method mode => slotsOf method.type.params + if mode = .static then 0 else 1

/-- The slots that an instruction puts on the stack. -/
def pushes : Instruction → Nat
  | .load _ kind | .arith _ kind | .neg kind => kind.slots
  | .constant c => c.kind.slots
  | .convert _ target => target.kind.slots
  | .compare .. | .new _ | .newArray _ | .newArrays .. | .arrayLength | .checkCast _
  | .instanceOf _ => 1
  | .dup slots => 2 * slots
  | .arrayLoad elem => elem.slots
  | .getField field _ => field.type.slots
  | .invoke method _ => method.type.result.slots
  | _ => 0

/-- The change of the depth by an instruction. -/
def effect (i : Instruction) : Int :=
  (i.pushes : Int) - i.pops

/-- The slots of the arguments that an instruction passes on. -/
def arguments : Instruction → Nat
  | .invoke method _ => slotsOf method.type.params
  | _ => 0

/-- The declared change of the depth is the change, but for arguments that 16 bits do not count. -/
theorem stackDiff_eq (i : Instruction) :
  i.stackDiff = i.effect + 65536 * (i.arguments / 65536 : Nat)
  := by
  cases i with
  | branch test target => cases test <;> simp [stackDiff, effect, arguments, pushes, pops]
  | ret kind => cases kind <;> simp [stackDiff, effect, arguments, pushes, pops]
  | invoke method mode =>
      have hslots : method.type.argSlots.toNat = slotsOf method.type.params % 65536 :=
        UInt16.toNat_ofNat'
      simp only [stackDiff, effect, arguments, pushes, pops, hslots]
      split <;> omega
  | _ => grind [stackDiff, effect, arguments, pushes, pops]

theorem effect_le_stackDiff (i : Instruction) :
  i.effect ≤ i.stackDiff
  := by
  rw [stackDiff_eq]
  omega

/-- Whether the instruction after it may come next. -/
def falls : Instruction → Bool
  | .branch .always _ | .switch _ | .ret _ | .throw => false
  | _ => true

end Instruction

namespace MethodCode

/-! ### Paths -/

/-- The instruction at a place may be followed by the one at another: by the next one, or by a
label that it jumps to. -/
inductive Leads (code : MethodCode) (place : Nat) : Nat → Prop
  | next {i : Instruction} (hi : code.instructions[place]? = some i) (hfalls : i.falls = true) :
      Leads code place (place + 1)
  | jump {i : Instruction} {l : Label} {target : Nat} (hi : code.instructions[place]? = some i)
      (hl : l ∈ i.targets) (htarget : code.instructions[target]? = some (.label l)) :
      Leads code place target

/-- What is thrown at a place may be caught at another. -/
def Catches (code : MethodCode) (place target : Nat) : Prop :=
  ∃ h ∈ code.handlers, Machine.covers place h = true
    ∧ code.instructions[target]? = some (.label h.target)

/-- A path from the start of the code comes to a place with so many slots on the stack. A
handler is entered with the thrown value alone. -/
inductive Visits (code : MethodCode) : Nat → Int → Prop
  | start : Visits code 0 0
  | step {place next : Nat} {depth : Int} {i : Instruction} (h : Visits code place depth)
      (hi : code.instructions[place]? = some i) (hnext : code.Leads place next) :
      Visits code next (depth + i.effect)
  | thrown {place target : Nat} {depth : Int} (h : Visits code place depth)
      (hcatches : code.Catches place target) :
      Visits code target 1

/-- No path comes to a handler but by a throw: it does not start there, and nothing that it
comes to leads there. -/
def EnteredByThrows (code : MethodCode) : Prop :=
  ∀ h ∈ code.handlers, ∀ target, code.instructions[target]? = some (.label h.target) →
    target ≠ 0 ∧ ∀ place depth, code.Visits place depth → ¬ code.Leads place target

/-- A handler that stands after something that never goes on to it, and that nothing jumps to,
is entered by throws only. -/
theorem enteredByThrows_of {code : MethodCode}
    (hfalls : ∀ h ∈ code.handlers, ∀ target, code.instructions[target]? = some (.label h.target) →
      ∃ place i, target = place + 1 ∧ code.instructions[place]? = some i ∧ i.falls = false)
    (hjumps : ∀ h ∈ code.handlers, ∀ i ∈ code.instructions, h.target ∉ i.targets) :
  code.EnteredByThrows
  := by
  intro h hmem target htarget
  obtain ⟨place, i, rfl, hi, hends⟩ := hfalls h hmem target htarget
  use Nat.succ_ne_zero place
  intro place' depth _ hleads
  cases hleads with
  | next hi' hfalls' =>
      obtain rfl := Option.some.inj (hi.symm.trans hi')
      rw [hends] at hfalls'
      contradiction
  | jump hi' hl htarget' =>
      obtain ⟨rfl⟩ := Option.some.inj (htarget.symm.trans htarget')
      apply hjumps h hmem _ (List.mem_of_getElem? hi') hl

/-- Paths agree on the depth at every place, no instruction takes more than is there, the stack
is empty at the given labels, and the declared size of the stack is never exceeded unless it is
the greatest that can be declared. -/
structure Disciplined (code : MethodCode) (isEmpty : Label → Prop) : Prop where
  unique : ∀ {place depth depth'}, code.Visits place depth → code.Visits place depth' →
    depth = depth'
  pops_le : ∀ {place depth i}, code.Visits place depth → code.instructions[place]? = some i →
    i.pops ≤ depth
  empty : ∀ {place depth l}, code.Visits place depth →
    code.instructions[place]? = some (.label l) → isEmpty l → depth = 0
  le_maxStack : ∀ {place depth i}, code.Visits place depth → code.instructions[place]? = some i →
    depth + i.effect ≤ 65535 → depth + i.effect ≤ code.maxStack

end MethodCode

/-! ### Gradings -/

/-- Depths for labels, some of which are entered by a throw. -/
structure Grading where
  caught : Label → Prop
  depth : Label → Nat

namespace Grading

variable {g : Grading} {d e f : Nat} {i : Instruction}

/-- An instruction goes from one depth to another. After one that is never followed by the next
instruction the depth may be any that is not greater, since only a label can stand there that
paths come to. -/
inductive Step (g : Grading) (d : Nat) : Instruction → Nat → Prop
  | label {l : Label} (h : g.depth l = d) : Step g d (.label l) d
  | handler {l : Label} (hcaught : g.caught l) (h : g.depth l ≤ d + 1) :
      Step g d (.label l) (g.depth l)
  | plain {i : Instruction} {e : Nat} (hlabel : i.isLabel = false) (hpops : i.pops ≤ d)
      (he : e + i.pops = d + i.pushes) (htargets : ∀ l ∈ i.targets, ¬ g.caught l → g.depth l = e) :
      Step g d i e
  | last {i : Instruction} {e f : Nat} (hlabel : i.isLabel = false) (hfalls : i.falls = false)
      (hpops : i.pops ≤ d) (he : e + i.pops = d + i.pushes)
      (htargets : ∀ l ∈ i.targets, ¬ g.caught l → g.depth l = e) (hf : f ≤ e) :
      Step g d i f

/-- An instruction that goes on to the next one and nowhere else. -/
theorem Step.straight (hlabel : i.isLabel = false) (htargets : i.targets = []) (hpops : i.pops ≤ d)
    (he : e + i.pops = d + i.pushes) :
  g.Step d i e
  := by
  apply Step.plain hlabel hpops he
  rw [htargets]
  apply List.forall_mem_nil

/-- What a step takes and puts, and at which depth its targets are entered, if the next instruction
may follow. -/
theorem Step.of_falls (h : g.Step d i e) (hlabel : i.isLabel = false) (hfalls : i.falls = true) :
  i.pops ≤ d ∧ e + i.pops = d + i.pushes ∧ ∀ l ∈ i.targets, ¬ g.caught l → g.depth l = e
  := by
  cases h with
  | label h => contradiction
  | handler hcaught h => contradiction
  | plain _ hpops he htargets => use hpops, he
  | last _ hends =>
      rw [hfalls] at hends
      contradiction

/-- Instructions go from one depth to another, one after the other. -/
inductive Run (g : Grading) : Nat → List Instruction → Nat → Prop
  | nil {d : Nat} : Run g d [] d
  | cons {d e f : Nat} {i : Instruction} {rest : List Instruction} (hi : g.Step d i e)
      (hrest : g.Run e rest f) : Run g d (i :: rest) f

theorem Run.append {first second : List Instruction} (hfirst : g.Run d first e)
    (hsecond : g.Run e second f) :
  g.Run d (first ++ second) f
  := by
  induction hfirst with
  | nil => apply hsecond
  | cons hi _ ih => apply Run.cons hi (ih hsecond)

theorem run_cons_iff {rest : List Instruction} :
  g.Run d (i :: rest) f ↔ ∃ e, g.Step d i e ∧ g.Run e rest f
  := by
  constructor
  · rintro (_ | ⟨hi, hrest⟩)
    exact ⟨_, hi, hrest⟩
  · rintro ⟨e, hi, hrest⟩
    apply Run.cons hi hrest

theorem run_nil_iff :
  g.Run d [] f ↔ d = f
  := by
  constructor
  · rintro ⟨⟩
    rfl
  · rintro rfl
    apply Run.nil

/-- A run through two pieces of code is a run through the first and then through the second. -/
theorem run_append_iff {first second : List Instruction} :
  g.Run d (first ++ second) f ↔ ∃ e, g.Run d first e ∧ g.Run e second f
  := by
  constructor
  · intro h
    induction first generalizing d with
    | nil => exact ⟨d, Run.nil, h⟩
    | cons i first ih =>
        obtain ⟨d', hi, hrest⟩ := run_cons_iff.mp h
        obtain ⟨e, hfirst, hsecond⟩ := ih hrest
        use e, Run.cons hi hfirst
  · rintro ⟨e, hfirst, hsecond⟩
    apply hfirst.append hsecond

theorem run_singleton (h : g.Step d i e) :
  g.Run d [i] e
  := Run.cons h Run.nil

/-- Graded code has a depth at every place and at its end. -/
theorem Run.exists_depths {code : List Instruction} (h : g.Run d code e) :
  ∃ depths : Nat → Nat, depths 0 = d ∧ depths code.length = e
    ∧ ∀ n i, code[n]? = some i → g.Step (depths n) i (depths (n + 1))
  := by
  induction h with
  | @nil d =>
      use fun _ => d, rfl, rfl
      intro n i hi
      contradiction
  | @cons d e f i rest hi _ ih =>
      obtain ⟨depths, rfl, hend, hsteps⟩ := ih
      use fun n => n.casesOn d depths, rfl, hend
      intro n j hj
      cases n with
      | zero =>
          obtain rfl := Option.some.inj hj
          apply hi
      | succ n => apply hsteps n j hj

/-- The depth on coming to an instruction. Labels are entered at the depth that they have. -/
def entry (g : Grading) (d : Nat) : Instruction → Nat
  | .label l => g.depth l
  | _ => d

theorem entry_of_isLabel (h : i.isLabel = false) :
  g.entry d i = d
  := by
  cases i <;> first | rfl | contradiction

/-- An instruction takes no more from the stack than there is. -/
theorem Step.pops_le (h : g.Step d i e) :
  i.pops ≤ g.entry d i
  := by
  cases h with
  | label h => apply Nat.zero_le
  | handler hcaught h => apply Nat.zero_le
  | plain hlabel hpops he htargets => rwa [entry_of_isLabel hlabel]
  | last hlabel hfalls hpops he htargets hf => rwa [entry_of_isLabel hlabel]

/-- The depth after an instruction is at least the one that goes on. -/
theorem Step.le (h : g.Step d i e) :
  (e : Int) ≤ g.entry d i + i.effect
  := by
  rw [Instruction.effect]
  cases h with
  | label h => simp [entry, h, Instruction.pushes, Instruction.pops]
  | handler hcaught h => simp [entry, Instruction.pushes, Instruction.pops]
  | plain hlabel hpops he htargets =>
      rw [entry_of_isLabel hlabel]
      omega
  | last hlabel hfalls hpops he htargets hf =>
      rw [entry_of_isLabel hlabel]
      omega

/-- The depth after a step is that before it, changed by the instruction. -/
theorem Step.eq_of_falls (h : g.Step d i e) (hfalls : i.falls = true) :
  (e : Int) = g.entry d i + i.effect
  := by
  rw [Instruction.effect]
  cases h with
  | label h => simp [entry, h, Instruction.pushes, Instruction.pops]
  | handler hcaught h => simp [entry, Instruction.pushes, Instruction.pops]
  | plain hlabel hpops he htargets =>
      rw [entry_of_isLabel hlabel]
      omega
  | last hlabel hends =>
      rw [hfalls] at hends
      contradiction

/-- The target of a jump has the depth that is left by it, unless it is entered by throws. -/
theorem Step.depth_of_target {l : Label} (h : g.Step d i e) (hl : l ∈ i.targets)
    (hcaught : ¬ g.caught l) :
  (g.depth l : Int) = g.entry d i + i.effect
  := by
  rw [Instruction.effect]
  cases h with
  | label h => contradiction
  | handler _ h => contradiction
  | plain hlabel hpops he htargets =>
      rw [entry_of_isLabel hlabel, htargets l hl hcaught]
      omega
  | last hlabel hfalls hpops he htargets hf =>
      rw [entry_of_isLabel hlabel, htargets l hl hcaught]
      omega

theorem Step.depth_of_label {l : Label} (h : g.Step d (.label l) e) (hcaught : ¬ g.caught l) :
  g.depth l = d
  := by
  cases h with
  | label h => apply h
  | handler hcaught' h => contradiction
  | plain hlabel => contradiction
  | last hlabel => contradiction

/-! ### Graded code -/

/-- The grading is one of the code of a method: what is caught at its handlers is caught at
depth one, and its instructions can be graded. -/
structure Fits (g : Grading) (code : MethodCode) : Prop where
  caught_iff : ∀ l, g.caught l ↔ ∃ h ∈ code.handlers, h.target = l
  depth_caught : ∀ l, g.caught l → g.depth l = 1
  run : ∃ e, g.Run 0 code.instructions e

variable {code : MethodCode} {depths : Nat → Nat}

theorem Fits.entersHandler_iff (h : g.Fits code) (l : Label) :
  code.entersHandler (.label l) = true ↔ g.caught l
  := by
  rw [h.caught_iff, MethodCode.entersHandler, List.any_eq_true]
  simp only [decide_eq_true_eq]

/-- No path falls or jumps to a label where something thrown is caught. -/
theorem Fits.not_caught (h : g.Fits code) (henters : code.EnteredByThrows) {place target : Nat}
    {depth : Int} {l : Label} (hvisits : code.Visits place depth) (hleads : code.Leads place target)
    (hl : code.instructions[target]? = some (.label l)) :
  ¬ g.caught l
  := by
  intro hcaught
  obtain ⟨handler, hmem, rfl⟩ := (h.caught_iff l).mp hcaught
  apply (henters handler hmem target hl).2 place depth hvisits hleads

/-- The depth on coming to a place. -/
def depthAt (g : Grading) (code : MethodCode) (depths : Nat → Nat) (place : Nat) : Nat :=
  match code.instructions[place]? with
  | some i => g.entry (depths place) i
  | none => depths place

theorem depthAt_of_getElem? {place : Nat} (hi : code.instructions[place]? = some i) :
  g.depthAt code depths place = g.entry (depths place) i
  := by
  rw [depthAt, hi]

/-- Where a label is not entered by a throw, a path comes to it at the depth of its place. -/
theorem depthAt_of_not_caught
    (hsteps : ∀ n i, code.instructions[n]? = some i → g.Step (depths n) i (depths (n + 1)))
    {place : Nat} (h : ∀ l, code.instructions[place]? = some (.label l) → ¬ g.caught l) :
  g.depthAt code depths place = depths place
  := by
  cases hi : code.instructions[place]? with
  | none => rw [depthAt, hi]
  | some i =>
      rw [depthAt_of_getElem? hi]
      cases hlabel : i.isLabel with
      | false => apply entry_of_isLabel hlabel
      | true =>
          obtain ⟨l, rfl⟩ : ∃ l, i = .label l := by
            cases i <;> first | contradiction | exact ⟨_, rfl⟩
          apply (hsteps place _ hi).depth_of_label (h l hi)

/-- Every path comes to a place at the depth that the grading gives it. -/
theorem Fits.depth_of_visits (h : g.Fits code) (henters : code.EnteredByThrows)
    (hstart : depths 0 = 0)
    (hsteps : ∀ n i, code.instructions[n]? = some i → g.Step (depths n) i (depths (n + 1)))
    {place : Nat} {depth : Int} (hvisits : code.Visits place depth) :
  depth = g.depthAt code depths place
  := by
  induction hvisits with
  | start =>
      rw [depthAt_of_not_caught hsteps, hstart]
      · rfl
      · intro l hl hcaught
        obtain ⟨handler, hmem, rfl⟩ := (h.caught_iff l).mp hcaught
        apply (henters handler hmem 0 hl).1 rfl
  | @step place next depth i hvisits hi hnext ih =>
      have hfree : ∀ l, code.instructions[next]? = some (.label l) → ¬ g.caught l :=
        fun l hl => h.not_caught henters hvisits hnext hl
      rw [ih, depthAt_of_getElem? hi, depthAt_of_not_caught hsteps hfree]
      cases hnext with
      | next hi' hfalls =>
          obtain rfl := Option.some.inj (hi.symm.trans hi')
          apply ((hsteps place i hi).eq_of_falls hfalls).symm
      | @jump i' l target hi' hl htarget =>
          obtain rfl := Option.some.inj (hi.symm.trans hi')
          rw [← (hsteps place i hi).depth_of_target hl (hfree l htarget),
            (hsteps next _ htarget).depth_of_label (hfree l htarget)]
  | @thrown place target depth hvisits hcatches ih =>
      obtain ⟨handler, hmem, -, htarget⟩ := hcatches
      rw [depthAt_of_getElem? htarget, entry,
        h.depth_caught _ ((h.caught_iff _).mpr ⟨handler, hmem, rfl⟩)]
      rfl

/-! ### Reading code from first to last -/

open MethodCode (Depth)

theorem greatest_le_foldl (code : MethodCode) (instructions : List Instruction) (depth : Depth) :
  depth.greatest ≤ (instructions.foldl (Depth.step code) depth).greatest
  := by
  induction instructions generalizing depth with
  | nil => apply Int.le_refl
  | cons i rest ih => apply Int.le_trans (Int.le_max_left _ _) (ih (Depth.step code depth i))

/-- Reading one instruction, the depth does not fall below that of the grading. -/
theorem Fits.le_step (h : g.Fits code) (hi : g.Step d i e) {depth : Depth}
    (hle : d ≤ depth.current) :
  e ≤ (Depth.step code depth i).current
    ∧ g.entry d i + i.effect ≤ (Depth.step code depth i).greatest
  := by
  have hentry : (g.entry d i : Int) ≤ depth.current + if code.entersHandler i then 1 else 0 := by
    cases hi with
    | label hl =>
        rw [entry, hl]
        split <;> omega
    | handler hcaught hl =>
        rw [entry, if_pos ((h.entersHandler_iff _).mpr hcaught)]
        omega
    | plain hlabel =>
        rw [entry_of_isLabel hlabel]
        split <;> omega
    | last hlabel =>
        rw [entry_of_isLabel hlabel]
        split <;> omega
  have hstep := hi.le
  have heffect := i.effect_le_stackDiff
  simp only [Depth.step]
  omega

/-- No step of a grading goes beyond the greatest depth that is found by reading the code. -/
theorem Fits.le_greatest (h : g.Fits code) {instructions : List Instruction}
    (hsteps : ∀ n i, instructions[n]? = some i → g.Step (depths n) i (depths (n + 1)))
    {depth : Depth} (hle : depths 0 ≤ depth.current) {n : Nat}
    (hi : instructions[n]? = some i) :
  g.entry (depths n) i + i.effect ≤ (instructions.foldl (Depth.step code) depth).greatest
  := by
  induction instructions generalizing depths depth n with
  | nil => contradiction
  | cons j rest ih =>
      obtain ⟨hcurrent, hgreatest⟩ := h.le_step (hsteps 0 j rfl) hle
      cases n with
      | zero =>
          obtain rfl := Option.some.inj hi
          apply Int.le_trans hgreatest (greatest_le_foldl _ _ _)
      | succ n => exact ih (fun m => hsteps (m + 1)) hcurrent hi

/-- Graded code whose handlers are entered by throws only keeps the discipline of the stack. -/
theorem Fits.disciplined (h : g.Fits code) (henters : code.EnteredByThrows)
    {isEmpty : Label → Prop} (hempty : ∀ l, isEmpty l → g.depth l = 0) :
  code.Disciplined isEmpty
  := by
  obtain ⟨e, hrun⟩ := h.run
  obtain ⟨depths, hstart, -, hsteps⟩ := hrun.exists_depths
  have hdepth {place : Nat} {depth : Int} {i : Instruction} (hvisits : code.Visits place depth)
      (hi : code.instructions[place]? = some i) : depth = g.entry (depths place) i := by
    rw [h.depth_of_visits henters hstart hsteps hvisits, depthAt_of_getElem? hi]
  constructor
  · intro place depth depth' hvisits hvisits'
    rw [h.depth_of_visits henters hstart hsteps hvisits,
      h.depth_of_visits henters hstart hsteps hvisits']
  · intro place depth i hvisits hi
    rw [hdepth hvisits hi]
    exact_mod_cast (hsteps place i hi).pops_le
  · intro place depth l hvisits hl hl'
    rw [hdepth hvisits hl, entry, hempty l hl']
    rfl
  · intro place depth i hvisits hi hle
    have hgreatest : g.entry (depths place) i + i.effect
        ≤ (code.instructions.foldl (Depth.step code) ⟨0, 0⟩).greatest :=
      h.le_greatest hsteps (by simp [hstart]) hi
    rw [← hdepth hvisits hi] at hgreatest
    unfold MethodCode.maxStack
    omega

end Grading

end ClassForge
