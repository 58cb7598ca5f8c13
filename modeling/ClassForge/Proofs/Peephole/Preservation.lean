import ClassForge.Proofs.Peephole.Windows

/-!
# Peephole rewriting preserves what code does

Code with one window replaced keeps up with the code before: outside of the window both do
the same at corresponding places, and a run that comes to the window goes through it in both.
A window may be replaced by nothing, in which case the rewritten code stands still while the
code before goes through the window.
-/

namespace ClassForge

namespace Peephole

open Machine Execution

variable {H A : Type} {p : Site}

namespace Site

/-! ### Corresponding places -/

/-- The place in the rewritten code that corresponds to a place outside of the window. -/
def moved (p : Site) (place : Nat) : Nat :=
  shiftPlace p.stop p.window.length p.replacement.length place

/-- The place is not strictly within the window. -/
def Outside (p : Site) (place : Nat) : Prop :=
  place ≤ p.start ∨ p.stop ≤ place

theorem start_lt_stop (p : Site) :
  p.start < p.stop
  := Nat.lt_add_of_pos_right (List.length_pos_iff.mpr p.replaces.ne_nil)

theorem moved_of_lt {place : Nat} (h : place < p.stop) :
  p.moved place = place
  := if_neg (Nat.not_le_of_lt h)

theorem moved_add (p : Site) (n : Nat) :
  p.moved (p.stop + n) = p.start + p.replacement.length + n
  := by
  rw [moved, shiftPlace, if_pos (Nat.le_add_right _ _), stop, start]
  omega

theorem moved_start (p : Site) :
  p.moved p.start = p.start
  := moved_of_lt p.start_lt_stop

theorem moved_stop (p : Site) :
  p.moved p.stop = p.start + p.replacement.length
  := p.moved_add 0

/-- Outside of the window the next place moves with the place before it. -/
theorem moved_succ {place : Nat} (h : place < p.start ∨ p.stop ≤ place) :
  p.moved (place + 1) = p.moved place + 1
  := by
  obtain hlt | hle := h
  · have hlt' := p.start_lt_stop
    rw [moved_of_lt (by omega), moved_of_lt (by omega)]
  · obtain ⟨n, rfl⟩ := Nat.exists_eq_add_of_le hle
    rw [Nat.add_assoc, moved_add, moved_add]
    omega

/-- Outside of the window the same instructions stand at corresponding places. -/
theorem getElem?_moved {place : Nat} (h : place < p.start ∨ p.stop ≤ place) :
  p.target.instructions[p.moved place]? = p.source.instructions[place]?
  := by
  rw [target, source]
  obtain hlt | hle := h
  · rw [moved_of_lt (Nat.lt_trans hlt p.start_lt_stop), List.append_assoc, List.append_assoc,
      List.getElem?_append_left hlt, List.getElem?_append_left hlt]
  · obtain ⟨n, rfl⟩ := Nat.exists_eq_add_of_le hle
    rw [moved_add, start, stop, ← List.length_append, ← List.length_append,
      List.getElem?_append_right (Nat.le_add_right _ _),
      List.getElem?_append_right (Nat.le_add_right _ _), Nat.add_sub_cancel_left,
      Nat.add_sub_cancel_left]

end Site

/-- Code without labels places none. -/
theorem placeOf?_eq_none {block : List Instruction} (h : ∀ i ∈ block, i.isLabel = false)
    (l : Label) :
  placeOf? block l = none
  := by
  rw [placeOf?, List.findIdx?_eq_none_iff]
  intro i hi
  have hlabel := h i hi
  cases i <;> first | contradiction | rfl

namespace Site

/-- Labels stand at corresponding places. -/
theorem placeOf?_moved (p : Site) (l : Label) :
  placeOf? p.target.instructions l = (placeOf? p.source.instructions l).map p.moved
  := by
  have hw := placeOf?_eq_none p.replaces.isLabel_window l
  have hr := placeOf?_eq_none p.replaces.isLabel_replacement l
  rw [target, source]
  unfold placeOf? at hw hr ⊢
  rw [List.findIdx?_append, List.findIdx?_append, List.findIdx?_append, List.findIdx?_append,
    hw, hr]
  cases hbefore : p.before.findIdx? (· = .label l) with
  | some place =>
      obtain ⟨hlt, -⟩ := List.findIdx?_eq_some_iff_getElem.mp hbefore
      have hmoved := moved_of_lt (Nat.lt_trans hlt p.start_lt_stop)
      simp [hmoved]
  | none =>
      cases hafter : p.after.findIdx? (· = .label l) with
      | none => simp
      | some n =>
          have hmoved := p.moved_add n
          rw [stop] at hmoved
          simp only [Option.map_none, Option.none_or, Option.map_some, List.length_append,
            Nat.add_comm n, hmoved, start]

/-- Labels stand outside of the window. -/
theorem outside_of_placeOf? {l : Label} {place : Nat}
    (h : placeOf? p.source.instructions l = some place) :
  p.Outside place
  := by
  rw [source] at h
  obtain ⟨hlt, hlabel, -⟩ := List.findIdx?_eq_some_iff_getElem.mp h
  by_contra hinside
  rw [Outside, not_or, Nat.not_le, Nat.not_le, start, stop] at hinside
  have hmem : (p.before ++ p.window ++ p.after)[place] ∈ p.window := by
    rw [List.getElem_append_left (by rw [List.length_append]; omega),
      List.getElem_append_right (by omega)]
    apply List.getElem_mem
  have hfree := p.replaces.isLabel_window _ hmem
  rw [of_decide_eq_true hlabel] at hfree
  contradiction

/-- Handlers start and end outside of the window. -/
theorem outside_of_mem (p : Site) {h : Handler} (hmem : h ∈ p.handlers) :
  p.Outside h.start ∧ p.Outside h.stop
  := by
  have hfree := List.any_eq_false.mp p.free h hmem
  simp only [Handler.straddles, Bool.or_eq_true, Bool.and_eq_true, decide_eq_true_eq] at hfree
  unfold Outside start stop
  omega

/-- Corresponding places stand in the same order. The start of the window corresponds to the
start of its replacement unless that is empty. -/
theorem moved_le_moved_iff {place bound : Nat} (hbound : p.Outside bound)
    (hplace : place < p.start ∨ p.stop ≤ place ∨ place = p.start ∧ p.replacement ≠ []) :
  p.moved bound ≤ p.moved place ↔ bound ≤ place
  := by
  have hlt := p.start_lt_stop
  obtain hbound | hbound := hbound
  · rw [moved_of_lt (by omega)]
    obtain hplace | hplace | ⟨rfl, -⟩ := hplace
    · rw [moved_of_lt (by omega)]
    · obtain ⟨n, rfl⟩ := Nat.exists_eq_add_of_le hplace
      rw [moved_add]
      omega
    · rw [moved_start]
  · obtain ⟨m, rfl⟩ := Nat.exists_eq_add_of_le hbound
    rw [moved_add]
    obtain hplace | hplace | ⟨rfl, hne⟩ := hplace
    · rw [moved_of_lt (by omega)]
      omega
    · obtain ⟨n, rfl⟩ := Nat.exists_eq_add_of_le hplace
      rw [moved_add]
      omega
    · have hadded := List.length_pos_iff.mpr hne
      rw [moved_start]
      omega

/-- A handler of the code protects corresponding places. -/
theorem covers_moved {h : Handler} {place : Nat} (hmem : h ∈ p.handlers)
    (hplace : place < p.start ∨ p.stop ≤ place ∨ place = p.start ∧ p.replacement ≠ []) :
  covers (p.moved place) (h.shift p.stop p.window.length p.replacement.length)
    = covers place h
  := by
  obtain ⟨hstart, hstop⟩ := p.outside_of_mem hmem
  have hle := moved_le_moved_iff hstart hplace
  have hlt := moved_le_moved_iff hstop hplace
  rw [← not_iff_not, Nat.not_le, Nat.not_le] at hlt
  rw [covers, covers, decide_eq_decide.mpr hle.symm, decide_eq_decide.mpr hlt.symm]
  rfl

end Site

/-- All places from `first` up to `last` are protected by the handlers that protect `first`,
if they start and end elsewhere. -/
theorem covers_of_outside {h : Handler} {first last place : Nat}
    (hstart : h.start ≤ first ∨ last ≤ h.start) (hstop : h.stop ≤ first ∨ last ≤ h.stop)
    (hle : first ≤ place) (hlt : place < last) :
  covers place h = covers first h
  := by
  have hstart' : h.start ≤ place ↔ h.start ≤ first := by omega
  have hstop' : place < h.stop ↔ first < h.stop := by omega
  rw [covers, covers, decide_eq_decide.mpr hstart', decide_eq_decide.mpr hstop']

namespace Site

theorem outside_moved {place : Nat} (h : p.Outside place) :
  p.moved place ≤ p.start ∨ p.start + p.replacement.length ≤ p.moved place
  := by
  rw [moved, shiftPlace]
  unfold Outside start stop at *
  split <;> omega

/-! ### Corresponding runs -/

/-- The state at the corresponding place. -/
def movedState (p : Site) (s : State H A) : State H A :=
  { s with place := p.moved s.place }

/-- Entering a label of the rewritten code is entering it in the code and moving on. -/
theorem enter_moved (p : Site) (l : Label) (stack : List (Value A)) (frame : Frame A) (heap : H) :
  enter p.target.instructions l stack frame heap
    = (enter p.source.instructions l stack frame heap).map p.movedState id
  := by
  rw [enter, enter, placeOf?_moved]
  cases placeOf? p.source.instructions l with
  | none => rfl
  | some place => rfl

/-- A label leads to a place outside of the window. -/
theorem outside_of_enter {l : Label} {stack : List (Value A)} {frame : Frame A} {heap : H}
    {s : State H A} (h : enter p.source.instructions l stack frame heap = .inl s) :
  p.Outside s.place
  := by
  unfold enter at h
  split at h
  · next place hplace =>
    obtain rfl := Sum.inl.inj h
    apply outside_of_placeOf? hplace
  · contradiction

/-- What is done at corresponding places leads to corresponding states. -/
theorem settle_moved (p : Site) (w : World H A) {place : Nat} (next : Nat) (action : Action H A)
    (hplace : place < p.start ∨ p.stop ≤ place ∨ place = p.start ∧ p.replacement ≠ []) :
  settle w p.target (p.moved place) (p.moved next) action
    = (settle w p.source place next action).map p.movedState id
  := by
  cases action with
  | next stack frame heap => rfl
  | jump target stack frame heap => apply enter_moved
  | ret value heap => rfl
  | throws thrown frame heap =>
      have hcatcher := catcher?_map w
        (Handler.shift p.stop p.window.length p.replacement.length) (fun h => rfl)
        (fun h hmem => covers_moved hmem hplace) thrown heap
      have hhandlers : p.target.handlers = p.source.handlers.map
          (Handler.shift p.stop p.window.length p.replacement.length) := rfl
      rw [settle, settle, dispatch, dispatch, hhandlers]
      unfold source at *
      rw [hcatcher]
      cases w.catcher? p.handlers place thrown heap with
      | none => rfl
      | some h => apply enter_moved
  | stuck => rfl

/-- From outside of the window an action leads to a place outside of it. -/
theorem outside_of_settle {w : World H A} {place next : Nat} {action : Action H A}
    {s : State H A} (hnext : p.Outside next)
    (h : settle w p.source place next action = .inl s) :
  p.Outside s.place
  := by
  cases action with
  | next stack frame heap =>
      obtain rfl := Sum.inl.inj h
      apply hnext
  | jump target stack frame heap => apply outside_of_enter h
  | ret value heap => contradiction
  | throws thrown frame heap =>
      rw [settle, dispatch] at h
      split at h
      · apply outside_of_enter h
      · contradiction
  | stuck => contradiction

variable [DecidableEq A]

/-- States of the code before and of the rewritten code from which both do the same: they
stand at corresponding places, and the code before does not get stuck. -/
structure Corresponds (p : Site) (w : World H A) (s t : State H A) : Prop where
  moved : t = p.movedState s
  outside : p.Outside s.place
  safe : ¬ Halts (step w p.source) s .stuck

/-- Only at the start of the window may the rewritten code stand still. -/
def rankAt (p : Site) (s : State H A) : Nat :=
  if s.place = p.start then 1 else 0

/-- Wherever a safe run comes outside of the window, the states correspond. -/
theorem Corresponds.of_reaches {w : World H A} {s s' : State H A}
    (hsafe : ¬ Halts (step w p.source) s .stuck) (hreaches : Reaches (step w p.source) s s')
    (houtside : p.Outside s'.place) :
  p.Corresponds w s' (p.movedState s')
  := by
  constructor
  · rfl
  · apply houtside
  · intro hstuck
    apply hsafe (hreaches.halts hstuck)

/-- Both codes go on to corresponding states or come to the same end, if what the code before
does from a state, in one step at least, is what the rewritten code does too. -/
theorem keeps_of_runFor {w : World H A} {s t : State H A} {n m : Nat}
    {next : State H A ⊕ Outcome H A} (hsafe : ¬ Halts (step w p.source) s .stuck)
    (hn : 0 < n) (hm : 0 < m) (hrun : runFor (step w p.source) n s = next)
    (hrun' : runFor (step w p.target) m t = next.map p.movedState id)
    (houtside : ∀ s', next = .inl s' → p.Outside s'.place) :
  Keeps (step w p.source) (step w p.target) (p.Corresponds w) p.rankAt s t
  := by
  cases next with
  | inl s' =>
      right
      use s', p.movedState s'
      constructor
      · apply Advances.of_runFor hn hrun
      · constructor
        · left
          apply Advances.of_runFor hm hrun'
        · apply Corresponds.of_reaches hsafe ⟨n, hrun⟩ (houtside s' rfl)
  | inr o =>
      left
      use o
      constructor
      · use n
      · use m
        apply hrun'

/-- Away from the window both codes make one step to corresponding states. -/
theorem keeps_outside (p : Site) (w : World H A) {s : State H A}
    (hplace : s.place < p.start ∨ p.stop ≤ s.place)
    (hsafe : ¬ Halts (step w p.source) s .stuck) :
  Keeps (step w p.source) (step w p.target) (p.Corresponds w) p.rankAt s (p.movedState s)
  := by
  have hstep : step w p.target (p.movedState s) = (step w p.source s).map p.movedState id := by
    unfold step
    simp only [movedState, getElem?_moved hplace]
    cases p.source.instructions[s.place]? with
    | none => rfl
    | some i =>
        have hsettle := p.settle_moved w (s.place + 1) (w.act i s.stack s.frame s.heap)
          (hplace.elim Or.inl fun hle => Or.inr (Or.inl hle))
        rw [moved_succ hplace] at hsettle
        apply hsettle
  apply keeps_of_runFor hsafe Nat.one_pos Nat.one_pos (runFor_one s)
  · rw [runFor_one, hstep]
  · intro s' hs'
    unfold step at hs'
    split at hs'
    · apply outside_of_settle _ hs'
      unfold Outside
      omega
    · contradiction

/-- The window runs as it does by itself: no handler starts or ends within it. -/
theorem runFor_window (p : Site) (w : World H A) (stack : List (Value A)) (frame : Frame A)
    (heap : H) :
  ∃ n, 0 < n ∧ runFor (step w p.source) n ⟨p.start, stack, frame, heap⟩
    = settle w p.source p.start p.stop (w.actAll p.window stack frame heap)
  := by
  have hcovers : ∀ place, p.start ≤ place → place < p.stop →
      ∀ h ∈ p.source.handlers, covers place h = covers p.start h := by
    intro place hle hlt h hmem
    obtain ⟨hstart, hstop⟩ := p.outside_of_mem hmem
    apply covers_of_outside hstart hstop hle hlt
  obtain ⟨n, hn, hrun⟩ := runFor_block (standsAt_middle p.before p.window p.after) hcovers
    stack frame heap
  use n, hn p.replaces.ne_nil, hrun

/-- The replacement acts as a whole, in some steps of the rewritten code. -/
theorem runFor_replacement (p : Site) (w : World H A) (stack : List (Value A)) (frame : Frame A)
    (heap : H) :
  ∃ m, (p.replacement ≠ [] → 0 < m) ∧ runFor (step w p.target) m ⟨p.start, stack, frame, heap⟩
    = settle w p.target p.start (p.start + p.replacement.length)
        (w.actAll p.replacement stack frame heap)
  := by
  apply runFor_block (standsAt_middle p.before p.replacement p.after)
  intro place hle hlt h hmem
  obtain ⟨h', hmem', rfl⟩ := List.mem_map.mp hmem
  obtain ⟨hstart, hstop⟩ := p.outside_of_mem hmem'
  apply covers_of_outside (outside_moved hstart) (outside_moved hstop) hle hlt

/-- From the start of the window both codes come to corresponding states after it, or leave
it in the same way. -/
theorem keeps_window (p : Site) (w : World H A) (hstatics : w.KeepsStatics) {s : State H A}
    (hplace : s.place = p.start) (hsafe : ¬ Halts (step w p.source) s .stuck) :
  Keeps (step w p.source) (step w p.target) (p.Corresponds w) p.rankAt s (p.movedState s)
  := by
  obtain ⟨place, stack, frame, heap⟩ := s
  obtain rfl : place = p.start := hplace
  obtain ⟨n, hn, hrun⟩ := p.runFor_window w stack frame heap
  obtain ⟨m, hm, hrun'⟩ := p.runFor_replacement w stack frame heap
  have hact := p.replaces.refines w hstatics stack frame heap fun hstuck => by
    apply hsafe
    use n
    rw [hrun, hstuck]
    rfl
  rw [hact] at hrun'
  have hstate : p.movedState ⟨p.start, stack, frame, heap⟩ = ⟨p.start, stack, frame, heap⟩ :=
    congrArg (State.mk · stack frame heap) p.moved_start
  rw [hstate]
  have hstop : p.Outside p.stop := Or.inr (Nat.le_refl p.stop)
  by_cases hempty : p.replacement = []
  · rw [hempty, actAll_nil] at hact
    rw [← hact] at hrun
    have hmoved : p.movedState ⟨p.stop, stack, frame, heap⟩ = ⟨p.start, stack, frame, heap⟩ := by
      apply congrArg (State.mk · stack frame heap)
      rw [moved_stop, hempty, List.length_nil, Nat.add_zero]
    right
    use ⟨p.stop, stack, frame, heap⟩, ⟨p.start, stack, frame, heap⟩
    constructor
    · apply Advances.of_runFor hn hrun
    · constructor
      · right
        use rfl
        rw [rankAt, rankAt, if_neg (Nat.ne_of_gt p.start_lt_stop), if_pos rfl]
        apply Nat.one_pos
      · rw [← hmoved]
        apply Corresponds.of_reaches hsafe ⟨n, hrun⟩ hstop
  · apply keeps_of_runFor hsafe hn (hm hempty) hrun
    · have hsettle := p.settle_moved w p.stop (w.actAll p.window stack frame heap)
        (Or.inr (Or.inr ⟨rfl, hempty⟩))
      rw [moved_start, moved_stop] at hsettle
      rw [hrun', hsettle]
    · intro s' hs'
      apply outside_of_settle hstop hs'

/-- Corresponding states lead to the same end. -/
theorem keeps (p : Site) (w : World H A) (hstatics : w.KeepsStatics) (s t : State H A)
    (h : p.Corresponds w s t) :
  Keeps (step w p.source) (step w p.target) (p.Corresponds w) p.rankAt s t
  := by
  obtain ⟨rfl, houtside, hsafe⟩ := h
  by_cases hplace : s.place = p.start
  · apply p.keeps_window w hstatics hplace hsafe
  · apply p.keeps_outside w _ hsafe
    unfold Outside at houtside
    omega

/-- One rewrite keeps what runs end with. -/
theorem runsTo_iff (p : Site) (w : World H A) (hstatics : w.KeepsStatics) {frame : Frame A}
    {heap : H} (hsafe : ¬ RunsTo w p.source frame heap .stuck) (o : Outcome H A) :
  RunsTo w p.source frame heap o ↔ RunsTo w p.target frame heap o
  := by
  apply halts_iff_of_keeps (p.keeps w hstatics)
  constructor
  · have hentry := moved_of_lt (Nat.lt_of_le_of_lt (Nat.zero_le _) p.start_lt_stop)
    apply congrArg (State.mk · [] frame heap) hentry.symm
  · apply Or.inl (Nat.zero_le _)
  · apply hsafe

end Site

/-- The optimizer preserves what code does. Code that does not get stuck when it starts with
some locals and heap returns, throws or runs on after optimization as it did before, provided
that reading a static field leaves the heap as it is. -/
theorem optimize_runsTo_iff [DecidableEq A] (w : World H A) (hstatics : w.KeepsStatics)
    (code : MethodCode) (frame : Frame A) (heap : H)
    (hsafe : ¬ RunsTo w code frame heap .stuck) (o : Outcome H A) :
  RunsTo w (optimize code) frame heap o ↔ RunsTo w code frame heap o
  := by
  apply optimize_preserves
    (fun code' => ∀ o, RunsTo w code' frame heap o ↔ RunsTo w code frame heap o)
  · rintro _ _ ⟨p, rfl, rfl⟩ hsame o
    rw [← hsame o]
    apply Iff.symm
    apply p.runsTo_iff w hstatics
    rwa [hsame]
  · intro o
    apply Iff.rfl

/-- Increments a local and adds a static field to it twice, all of it protected. -/
def addTwice : MethodCode :=
  let field : FieldRef := ⟨.object ⟨[], ["Counter"]⟩ [], "step", .primitive .int⟩
  ⟨[.load 0 .int, .constant (.int 1), .arith .add .int, .store 0 .int, .getField field true,
      .getField field true, .arith .add .int, .load 0 .int, .arith .add .int, .ret (some .int),
      .label (⟨"caught"⟩), .pop 1, .constant (.int 0), .ret (some .int)],
    [⟨0, 10, ⟨"caught"⟩, none⟩], 1⟩

/-- The code is not stuck, and optimized it gives the same result. -/
theorem optimize_addTwice_runsTo :
  ¬ RunsTo constantWorld addTwice
      (Frame.store (fun _ => none) 0 (.int 1)) () .stuck
    ∧ RunsTo constantWorld (optimize addTwice)
      (Frame.store (fun _ => none) 0 (.int 1)) () (.returned (some (.int 42)) ())
  := by
  have hruns : RunsTo constantWorld addTwice
      (Frame.store (fun _ => none) 0 (.int 1)) () (.returned (some (.int 42)) ()) := by
    use 10
    rfl
  have hsafe : ¬ RunsTo constantWorld addTwice
      (Frame.store (fun _ => none) 0 (.int 1)) () .stuck := by
    intro hstuck
    have h := hruns.unique hstuck
    contradiction
  use hsafe
  apply (optimize_runsTo_iff constantWorld _ _ _ _ hsafe _).mpr hruns
  intro field heap v heap' h
  obtain ⟨-, rfl⟩ := Reply.done.inj h
  rfl

end Peephole

end ClassForge
