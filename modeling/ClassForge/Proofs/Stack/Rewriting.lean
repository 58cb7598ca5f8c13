import ClassForge.Proofs.Peephole.Preservation
import ClassForge.Proofs.Stack.Depth

/-!
# Depths of rewritten code

Peephole rewriting keeps the depths of the stack. A window and its replacement go from the same
depths to the same depths, so a grading of the code is one of the rewritten code. Paths through
the rewritten code come to places that correspond to those which paths through the code come
to, so handlers that are entered by throws only stay so.
-/

namespace ClassForge

namespace Peephole

open Grading MethodCode

/-! ### Windows -/

variable {g : Grading} {d e : Nat} {window replacement : List Instruction}

theorem kind_of_negated? {c negated : Constant} (h : c.negated? = some negated) :
  negated.kind = c.kind
  := by
  cases c <;> simp only [Constant.negated?] at h <;> grind [Constant.kind]

theorem pops_arith_int (op : ArithOp) :
  (Instruction.arith op .int).pops = 2
  := by
  cases op <;> rfl

/-- An instruction that pushes a value by itself takes nothing from the stack. -/
theorem depth_of_pushed? {i : Instruction} {slots : Nat} (h : pushed? i = some slots)
    (hstep : g.Step d i e) :
  e = d + slots
  := by
  have heffect : i.pops = 0 ∧ i.pushes = slots ∧ i.falls = true := by
    unfold pushed? at h
    split at h <;> cases h <;> exact ⟨rfl, rfl, rfl⟩
  obtain ⟨hpops, hpushes, hfalls⟩ := heffect
  obtain ⟨-, he, -⟩ := hstep.of_falls (isLabel_of_pushed? h) hfalls
  rwa [hpops, hpushes] at he

/-- What is pushed and popped leaves the depth as it was. -/
theorem depth_of_drop {i : Instruction} {slots : Nat} (h : pushed? i = some slots)
    (hrun : g.Run d [i, .pop slots] e) :
  d = e
  := by
  rcases hrun with _ | ⟨hpush, _ | ⟨hpop, ⟨⟩⟩⟩
  have hpush := depth_of_pushed? h hpush
  obtain ⟨-, hpop, -⟩ := hpop.of_falls rfl rfl
  simp only [Instruction.pops, Instruction.pushes] at hpop
  omega

/-- A test for null goes from the same depth to the same depth as a comparison with null. -/
theorem run_of_compareNull {condition : Condition} {target : Label} {test : BranchTest}
    (htest : (Instruction.branch test target).pops = 1)
    (hrun : g.Run d [.constant .null, .branch (.compare .reference condition) target] e) :
  g.Run d [.branch test target] e
  := by
  rcases hrun with _ | ⟨hconstant, _ | ⟨hbranch, ⟨⟩⟩⟩
  have hconstant : _ = d + 1 := depth_of_pushed? rfl hconstant
  obtain ⟨htwo, hbranch, htargets⟩ := hbranch.of_falls rfl rfl
  simp only [Instruction.pops, Instruction.pushes] at htwo hbranch
  apply run_singleton
  apply Step.plain rfl
  · rw [htest]
    omega
  · simp only [htest, Instruction.pushes]
    omega
  · apply htargets

/-- A replacement goes from the same depth to the same depth as its window. -/
theorem Replaces.run (h : Replaces window replacement) (hrun : g.Run d window e) :
  g.Run d replacement e
  := by
  cases h with
  | dropLoad slot kind =>
      apply run_nil_iff.mpr
      apply depth_of_drop _ hrun
      rfl
  | dropConstant c =>
      apply run_nil_iff.mpr
      apply depth_of_drop _ hrun
      rfl
  | @incrementInPlace slot op value delta h =>
      rcases hrun with _ | ⟨hload, _ | ⟨hconstant, _ | ⟨harith, _ | ⟨hstore, ⟨⟩⟩⟩⟩⟩
      have hload : _ = d + 1 := depth_of_pushed? rfl hload
      have hconstant : _ = _ + 1 := depth_of_pushed? rfl hconstant
      obtain ⟨-, harith, -⟩ := harith.of_falls rfl rfl
      obtain ⟨-, hstore, -⟩ := hstore.of_falls rfl rfl
      rw [pops_arith_int] at harith
      simp only [Instruction.pops, Instruction.pushes, Kind.slots] at harith hstore
      apply run_singleton (Step.straight rfl rfl (Nat.zero_le d) _)
      simp only [Instruction.pops, Instruction.pushes]
      omega
  | @storeThenIncrement slot op value delta h =>
      rcases hrun with _ | ⟨hconstant, _ | ⟨harith, _ | ⟨hstore, ⟨⟩⟩⟩⟩
      have hconstant : _ = d + 1 := depth_of_pushed? rfl hconstant
      obtain ⟨htwo, harith, -⟩ := harith.of_falls rfl rfl
      obtain ⟨-, hstore, -⟩ := hstore.of_falls rfl rfl
      rw [pops_arith_int] at htwo harith
      simp only [Instruction.pops, Instruction.pushes, Kind.slots] at harith hstore
      have hfirst : g.Step d (.store slot .int) e := by
        apply Step.straight rfl rfl <;>
        · simp only [Instruction.pops, Instruction.pushes, Kind.slots]
          omega
      apply Run.cons hfirst
      apply run_singleton (Step.straight rfl rfl (Nat.zero_le e) rfl)
  | compareWithNull target => apply run_of_compareNull rfl hrun
  | compareWithNonNull target => apply run_of_compareNull rfl hrun
  | foldNegation h =>
      rcases hrun with _ | ⟨hconstant, _ | ⟨hneg, ⟨⟩⟩⟩
      have hconstant := depth_of_pushed? rfl hconstant
      obtain ⟨-, hneg, -⟩ := hneg.of_falls rfl rfl
      simp only [Instruction.pops, Instruction.pushes] at hneg
      apply run_singleton (Step.straight rfl rfl (Nat.zero_le d) _)
      simp only [Instruction.pops, Instruction.pushes, kind_of_negated? h]
      omega
  | @duplicateRepeat i slots h =>
      rcases hrun with _ | ⟨hfirst, _ | ⟨hsecond, ⟨⟩⟩⟩
      apply Run.cons hfirst
      have hfirst := depth_of_pushed? h hfirst
      have hsecond := depth_of_pushed? h hsecond
      apply run_singleton
      apply Step.straight rfl rfl <;>
      · simp only [Instruction.pops, Instruction.pushes]
        omega

/-- A grading of the code is one of the rewritten code. -/
theorem Site.fits_target {p : Site} (h : g.Fits p.source) :
  g.Fits p.target
  := by
  constructor
  · intro l
    rw [h.caught_iff, Site.target, Site.source, shiftAll]
    simp [Handler.shift]
  · apply h.depth_caught
  · obtain ⟨e, hrun⟩ := h.run
    obtain ⟨e₂, hrun, hafter⟩ := run_append_iff.mp hrun
    obtain ⟨e₁, hbefore, hwindow⟩ := run_append_iff.mp hrun
    use e
    apply (hbefore.append (p.replaces.run hwindow)).append hafter

/-! ### Paths -/

/-- Every instruction of a window may be followed by the next one. -/
theorem Replaces.falls_window (h : Replaces window replacement) :
  ∀ i ∈ window, i.falls = true
  := by
  cases h with
  | duplicateRepeat h =>
      unfold pushed? at h
      split at h <;> cases h <;> simp [Instruction.falls]
  | _ => simp [Instruction.falls]

/-- A replacement jumps only where its window does. -/
theorem Replaces.targets_replacement (h : Replaces window replacement) {i : Instruction}
    (hi : i ∈ replacement) {l : Label} (hl : l ∈ i.targets) :
  ∃ j ∈ window, l ∈ j.targets
  := by
  cases h with
  | compareWithNull target | compareWithNonNull target =>
      obtain rfl := List.mem_singleton.mp hi
      exact ⟨_, List.mem_cons_of_mem _ List.mem_cons_self, hl⟩
  | _ => grind [Instruction.targets]

namespace Site

variable {p : Site} {place next : Nat} {depth : Int}

theorem getElem?_between (p : Site) {part : List Instruction} {n : Nat} (hn : n < part.length) :
  (p.before ++ part ++ p.after)[p.start + n]? = part[n]?
  := by
  rw [start, List.append_assoc, List.getElem?_append_right (Nat.le_add_right _ _),
    Nat.add_sub_cancel_left, List.getElem?_append_left hn]

theorem getElem?_window {n : Nat} (hn : n < p.window.length) :
  p.source.instructions[p.start + n]? = some p.window[n]
  := by
  rw [source, p.getElem?_between hn, List.getElem?_eq_getElem hn]

/-- The place is not in the window. -/
def Apart (p : Site) (place : Nat) : Prop :=
  place < p.start ∨ p.stop ≤ place

/-- What stands in the rewritten code stands in the code at the corresponding place, or in the
replacement. -/
theorem exists_moved_or_inside (p : Site) (place : Nat) :
  (∃ place', p.Apart place' ∧ p.moved place' = place)
    ∨ p.start ≤ place ∧ place < p.start + p.replacement.length
  := by
  by_cases hlt : place < p.start
  · left
    use place, Or.inl hlt
    apply moved_of_lt (Nat.lt_trans hlt p.start_lt_stop)
  · by_cases hle : p.start + p.replacement.length ≤ place
    · left
      obtain ⟨n, rfl⟩ := Nat.exists_eq_add_of_le hle
      use p.stop + n, Or.inr (Nat.le_add_right _ _), p.moved_add n
    · right
      omega

/-- What stands apart from the window does not move into the replacement. -/
theorem not_inside_moved (h : p.Apart place) :
  ¬ (p.start ≤ p.moved place ∧ p.moved place < p.start + p.replacement.length)
  := by
  obtain h | h := h
  · rw [moved_of_lt (Nat.lt_trans h p.start_lt_stop)]
    omega
  · obtain ⟨n, rfl⟩ := Nat.exists_eq_add_of_le h
    rw [moved_add]
    omega

/-- Places apart from the window move to different places. -/
theorem moved_injective {place' : Nat} (h : p.Apart place) (h' : p.Apart place')
    (heq : p.moved place = p.moved place') :
  place = place'
  := by
  have hlt := p.start_lt_stop
  obtain h | h := h <;> obtain h' | h' := h'
  · rwa [moved_of_lt (by omega), moved_of_lt (by omega)] at heq
  · obtain ⟨n, rfl⟩ := Nat.exists_eq_add_of_le h'
    rw [moved_of_lt (by omega), moved_add] at heq
    omega
  · obtain ⟨n, rfl⟩ := Nat.exists_eq_add_of_le h
    rw [moved_add, moved_of_lt (by omega)] at heq
    omega
  · obtain ⟨n, rfl⟩ := Nat.exists_eq_add_of_le h
    obtain ⟨n', rfl⟩ := Nat.exists_eq_add_of_le h'
    rw [moved_add, moved_add] at heq
    omega

/-- Labels of the rewritten code stand at places that correspond to their places in the
code. -/
theorem exists_label_moved {l : Label} (h : p.target.instructions[place]? = some (.label l)) :
  ∃ place', p.Apart place' ∧ p.moved place' = place
    ∧ p.source.instructions[place']? = some (.label l)
  := by
  obtain ⟨place', hapart, rfl⟩ | ⟨hle, hlt⟩ := p.exists_moved_or_inside place
  · rw [getElem?_moved hapart] at h
    use place', hapart, rfl
  · obtain ⟨n, rfl⟩ := Nat.exists_eq_add_of_le hle
    rw [target, p.getElem?_between (by omega)] at h
    have hfree := p.replaces.isLabel_replacement _ (List.mem_of_getElem? h)
    contradiction

/-! A path that comes to the window goes through it. -/

/-- A path that comes to the window may go through all of it. -/
theorem visits_window (h : p.source.Visits p.start depth) {n : Nat} (hn : n ≤ p.window.length) :
  ∃ depth', p.source.Visits (p.start + n) depth'
  := by
  induction n with
  | zero => use depth, h
  | succ n ih =>
      obtain ⟨depth', hvisits⟩ := ih (Nat.le_of_lt hn)
      have hi := getElem?_window hn
      use depth' + p.window[n].effect
      apply hvisits.step hi
      apply Leads.next hi (p.replaces.falls_window _ (List.getElem_mem hn))

/-- A path that comes to the window leads to its end. -/
theorem leads_stop (h : p.source.Visits p.start depth) :
  ∃ place depth', p.source.Visits place depth' ∧ p.source.Leads place p.stop
  := by
  have hpos := List.length_pos_iff.mpr p.replaces.ne_nil
  obtain ⟨n, hn⟩ := Nat.exists_eq_add_of_lt hpos
  have hlt : n < p.window.length := by omega
  obtain ⟨depth', hvisits⟩ := visits_window h (Nat.le_of_lt hlt)
  have hstop : p.start + n + 1 = p.stop := by
    rw [start, stop]
    omega
  use p.start + n, depth', hvisits
  rw [← hstop]
  apply Leads.next (getElem?_window hlt) (p.replaces.falls_window _ (List.getElem_mem hlt))

/-- Something that paths come to in the code leads to the corresponding place, or paths come to
the window and the place is in its replacement. -/
def Arrives (p : Site) (place : Nat) : Prop :=
  (∃ first second depth, p.source.Visits first depth ∧ p.source.Leads first second
      ∧ p.Apart second ∧ p.moved second = place)
    ∨ (∃ depth, p.source.Visits p.start depth)
      ∧ p.start ≤ place ∧ place < p.start + p.replacement.length

/-- Paths come to the corresponding place in the code, or they come to the window and the place
is in its replacement. -/
def Follows (p : Site) (place : Nat) : Prop :=
  (∃ place' depth, p.source.Visits place' depth ∧ p.Apart place' ∧ p.moved place' = place)
    ∨ (∃ depth, p.source.Visits p.start depth)
      ∧ p.start ≤ place ∧ place < p.start + p.replacement.length

/-- What is arrived at in the rewritten code corresponds to what is in the code. -/
theorem Arrives.follows (h : p.Arrives place) :
  p.Follows place
  := by
  obtain ⟨first, second, depth, hvisits, hleads, hapart, hmoved⟩ | hinside := h
  · left
    obtain ⟨i, hi⟩ : ∃ i, p.source.instructions[first]? = some i := by
      cases hleads with
      | next hi => exact ⟨_, hi⟩
      | jump hi => exact ⟨_, hi⟩
    use second, depth + i.effect, hvisits.step hi hleads
  · right
    apply hinside

/-- Where paths come to the window, those of the rewritten code come to the replacement or, if
it is empty, to what stands after it. -/
theorem arrives_start (h : p.source.Visits p.start depth) :
  p.Arrives p.start
  := by
  by_cases hnil : p.replacement = []
  · obtain ⟨place, depth', hvisits, hleads⟩ := leads_stop h
    left
    use place, p.stop, depth', hvisits, hleads, Or.inr (Nat.le_refl _)
    rw [moved_stop, hnil, List.length_nil, Nat.add_zero]
  · right
    use ⟨depth, h⟩, Nat.le_refl _
    have hpos := List.length_pos_iff.mpr hnil
    omega

theorem arrives_zero (h : p.start = 0) :
  p.Arrives 0
  := by
  have hvisits : p.source.Visits p.start 0 := by
    rw [h]
    apply Visits.start
  have harrives := arrives_start hvisits
  rwa [h] at harrives

/-- What leads somewhere in the rewritten code corresponds to what does in the code. -/
theorem Follows.arrives (h : p.Follows place) (hleads : p.target.Leads place next) :
  p.Arrives next
  := by
  obtain ⟨place, depth, hvisits, hapart, rfl⟩ | ⟨⟨depth, hvisits⟩, hle, hlt⟩ := h
  · cases hleads with
    | @next i hi hfalls =>
        rw [getElem?_moved hapart] at hi
        rw [← moved_succ hapart]
        by_cases hstart : place + 1 = p.start
        · have hvisits := hvisits.step hi (Leads.next hi hfalls)
          rw [hstart] at hvisits
          rw [hstart, moved_start]
          apply arrives_start hvisits
        · left
          use place, place + 1, depth, hvisits, Leads.next hi hfalls, ?_
          unfold Apart at *
          omega
    | jump hi hl htarget =>
        rw [getElem?_moved hapart] at hi
        obtain ⟨target, hapart', rfl, htarget'⟩ := exists_label_moved htarget
        left
        use place, target, depth, hvisits, Leads.jump hi hl htarget'
  · obtain ⟨n, rfl⟩ := Nat.exists_eq_add_of_le hle
    cases hleads with
    | next hi hfalls =>
        by_cases hlast : n + 1 = p.replacement.length
        · obtain ⟨place, depth', hvisits, hleads⟩ := leads_stop hvisits
          left
          use place, p.stop, depth', hvisits, hleads, Or.inr (Nat.le_refl _)
          rw [moved_stop, ← hlast, Nat.add_assoc]
        · right
          use ⟨depth, hvisits⟩
          omega
    | @jump i l _ hi hl htarget =>
        rw [target, p.getElem?_between (by omega)] at hi
        obtain ⟨j, hj, hl⟩ := p.replaces.targets_replacement (List.mem_of_getElem? hi) hl
        obtain ⟨m, hm, rfl⟩ := List.mem_iff_getElem.mp hj
        obtain ⟨depth', hvisits⟩ := visits_window hvisits (Nat.le_of_lt hm)
        obtain ⟨target, hapart, rfl, htarget'⟩ := exists_label_moved htarget
        left
        use p.start + m, target, depth', hvisits, Leads.jump (getElem?_window hm) hl htarget'

/-- What is caught somewhere in the rewritten code corresponds to what is in the code: handlers
start and end outside of the window, so they protect its start too. -/
theorem Follows.caught (h : p.Follows place) (hcatches : p.target.Catches place next) :
  p.Follows next
  := by
  obtain ⟨_, hshifted, hcovers, hnext⟩ := hcatches
  obtain ⟨handler, hmem, rfl⟩ := List.mem_map.mp hshifted
  obtain ⟨target, hapart', rfl, htarget⟩ := exists_label_moved hnext
  have hfollows {place : Nat} {depth : Int} (hvisits : p.source.Visits place depth)
      (hcovers : Machine.covers place handler = true) : p.Follows (p.moved target) := by
    left
    use target, 1, hvisits.thrown ⟨handler, hmem, hcovers, htarget⟩, hapart'
  obtain ⟨place, depth, hvisits, hapart, rfl⟩ | ⟨⟨depth, hvisits⟩, hle, hlt⟩ := h
  · rw [covers_moved hmem (by unfold Apart at hapart; omega)] at hcovers
    apply hfollows hvisits hcovers
  · obtain ⟨hstart, hstop⟩ := p.outside_of_mem hmem
    have hne : p.replacement ≠ [] := by
      apply List.length_pos_iff.mp
      omega
    rw [covers_of_outside (outside_moved hstart) (outside_moved hstop) hle hlt, ← moved_start,
      covers_moved hmem (Or.inr (Or.inr ⟨rfl, hne⟩))] at hcovers
    apply hfollows hvisits hcovers

/-- Paths through the rewritten code follow those through the code. -/
theorem follows_of_visits (h : p.target.Visits place depth) :
  p.Follows place
  := by
  induction h with
  | start =>
      by_cases hstart : p.start = 0
      · apply (arrives_zero hstart).follows
      · left
        use 0, 0, Visits.start, Or.inl (by omega)
        apply moved_of_lt
        have hlt := p.start_lt_stop
        omega
  | step _ _ hnext ih => apply (ih.arrives hnext).follows
  | thrown _ hcatches ih => apply ih.caught hcatches

/-- Handlers that are entered by throws only are so in the rewritten code. -/
theorem enteredByThrows_target (h : p.source.EnteredByThrows) :
  p.target.EnteredByThrows
  := by
  intro _ hshifted _ hlabel
  obtain ⟨handler, hmem, rfl⟩ := List.mem_map.mp hshifted
  obtain ⟨target, hapart, rfl, htarget⟩ := exists_label_moved hlabel
  obtain ⟨hzero, hleads⟩ := h handler hmem target htarget
  have harrives : ¬ p.Arrives (p.moved target) := by
    rintro (⟨first, second, depth, hvisits, hfirst, hapart', hmoved⟩ | ⟨-, hinside⟩)
    · obtain rfl := moved_injective hapart' hapart hmoved
      apply hleads first depth hvisits hfirst
    · apply not_inside_moved hapart hinside
  constructor
  · intro hmoved
    apply harrives
    by_cases hstart : p.start = 0
    · rw [hmoved]
      apply arrives_zero hstart
    · exfalso
      apply hzero
      apply moved_injective hapart (Or.inl (Nat.pos_of_ne_zero hstart))
      rw [hmoved, moved_of_lt (Nat.lt_trans (Nat.pos_of_ne_zero hstart) p.start_lt_stop)]
  · intro place depth hvisits hleads'
    apply harrives ((follows_of_visits hvisits).arrives hleads')

end Site

/-- The optimizer keeps gradings, and handlers that are entered by throws only. -/
theorem optimize_fits {code : MethodCode} (h : g.Fits code) (henters : code.EnteredByThrows) :
  g.Fits (optimize code) ∧ (optimize code).EnteredByThrows
  := by
  apply optimize_preserves (fun code => g.Fits code ∧ code.EnteredByThrows) _ code ⟨h, henters⟩
  rintro _ _ ⟨p, rfl, rfl⟩ ⟨h, henters⟩
  use Site.fits_target h, Site.enteredByThrows_target henters

end Peephole

end ClassForge
