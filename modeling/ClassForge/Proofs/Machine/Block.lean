import ClassForge.Proofs.Machine.Step

/-!
# Blocks of instructions

A block of instructions that stands somewhere in the code of a method does there what it does
by itself, up to its first instruction that does not simply go on. If something is thrown, it
matters only which handlers protect the place; a block of which all places are protected by
the same handlers may be taken as one place.
-/

namespace ClassForge

namespace Machine

open Execution

variable {H A : Type}

/-! ### Blocks within code -/

/-- The block stands within the instructions from `place` on. -/
def StandsAt (instructions : List Instruction) : Nat → List Instruction → Prop
  | _, [] => True
  | place, i :: block =>
    instructions[place]? = some i ∧ StandsAt instructions (place + 1) block

/-- Two blocks stand in a row if the second one stands where the first one ends. -/
theorem standsAt_append {instructions block block' : List Instruction} {place : Nat} :
  StandsAt instructions place (block ++ block')
    ↔ StandsAt instructions place block ∧ StandsAt instructions (place + block.length) block'
  := by
  induction block generalizing place with
  | nil => simp [StandsAt]
  | cons i block ih =>
      rw [List.cons_append, StandsAt, StandsAt, ih, List.length_cons, and_assoc,
        Nat.add_right_comm, Nat.add_assoc]

/-- A block stands after what comes before it. -/
theorem standsAt_middle (before block after : List Instruction) :
  StandsAt (before ++ block ++ after) before.length block
  := by
  induction block generalizing before with
  | nil => apply True.intro
  | cons i block ih =>
      constructor
      · simp
      · have h := ih (before ++ [i])
        rw [List.append_assoc before, List.singleton_append, List.length_append] at h
        apply h

/-- The instructions of a block are found from its place on. -/
theorem getElem?_of_standsAt {instructions block : List Instruction} {place n : Nat}
    (h : StandsAt instructions place block) (hn : n < block.length) :
  instructions[place + n]? = block[n]?
  := by
  induction block generalizing place n with
  | nil => contradiction
  | cons i block ih =>
      obtain ⟨hi, h⟩ := h
      cases n with
      | zero => apply hi
      | succ n =>
          rw [List.getElem?_cons_succ, Nat.add_comm n, ← Nat.add_assoc]
          apply ih h (Nat.lt_of_succ_lt_succ hn)

/-! ### What a block does -/

/-- What a block of instructions does to the stack, the locals and the heap. -/
def World.actAll [DecidableEq A] (w : World H A) :
    List Instruction → List (Value A) → Frame A → H → Action H A
  | [], stack, frame, heap => .next stack frame heap
  | i :: block, stack, frame, heap =>
    match w.act i stack frame heap with
    | .next stack frame heap => w.actAll block stack frame heap
    | other => other

@[simp]
theorem actAll_nil [DecidableEq A] (w : World H A) (stack : List (Value A)) (frame : Frame A)
    (heap : H) :
  w.actAll [] stack frame heap = .next stack frame heap
  := rfl

theorem actAll_cons_of_next [DecidableEq A] {w : World H A} {i : Instruction}
    {stack stack' : List (Value A)} {frame frame' : Frame A} {heap heap' : H}
    (block : List Instruction) (h : w.act i stack frame heap = .next stack' frame' heap') :
  w.actAll (i :: block) stack frame heap = w.actAll block stack' frame' heap'
  := by
  rw [World.actAll, h]

/-- Handlers that are changed without touching what they catch are found as before at a place
that they protect as before. -/
theorem catcher?_map (w : World H A) {handlers : List Handler} (f : Handler → Handler)
    {place place' : Nat} (hcatch : ∀ h, (f h).catchType = h.catchType)
    (hcovers : ∀ h ∈ handlers, covers place' (f h) = covers place h) (thrown : A) (heap : H) :
  w.catcher? (handlers.map f) place' thrown heap = (w.catcher? handlers place thrown heap).map f
  := by
  induction handlers with
  | nil => rfl
  | cons h handlers ih =>
      have hhead : (covers place' (f h) && w.caughtBy heap thrown (f h))
          = (covers place h && w.caughtBy heap thrown h) := by
        rw [hcovers h List.mem_cons_self, World.caughtBy, World.caughtBy, hcatch]
      have htail := ih fun h' hmem => hcovers h' (List.mem_cons_of_mem h hmem)
      unfold World.catcher? at htail ⊢
      rw [List.map_cons, List.find?_cons, List.find?_cons, hhead]
      split
      · rfl
      · apply htail

/-- What comes of an action is the same at places that are protected alike. -/
theorem settle_congr {w : World H A} {code : MethodCode} {place place' : Nat}
    (h : ∀ h ∈ code.handlers, covers place h = covers place' h) (next : Nat)
    (action : Action H A) :
  settle w code place next action = settle w code place' next action
  := by
  cases action with
  | throws thrown frame heap =>
      have hcatcher := catcher?_map w id (fun _ => rfl)
        (fun handler hmem => h handler hmem) thrown heap
      rw [List.map_id, Option.map_id_apply] at hcatcher
      rw [settle, settle, dispatch, dispatch, hcatcher]
  | next stack frame heap => rfl
  | jump target stack frame heap => rfl
  | ret value heap => rfl
  | stuck => rfl

theorem step_of_getElem? [DecidableEq A] {w : World H A} {code : MethodCode} {place : Nat}
    {i : Instruction} (h : code.instructions[place]? = some i) (stack : List (Value A))
    (frame : Frame A) (heap : H) :
  step w code ⟨place, stack, frame, heap⟩
    = settle w code place (place + 1) (w.act i stack frame heap)
  := by
  rw [step, h]

/-- A block that stands at `place` and of which all places are protected by the handlers that
protect `base` runs as the block does by itself, in one step at least unless it is empty. -/
theorem runFor_block [DecidableEq A] {w : World H A} {code : MethodCode} {base place : Nat}
    {block : List Instruction} (hstands : StandsAt code.instructions place block)
    (hcovers : ∀ p, place ≤ p → p < place + block.length →
      ∀ h ∈ code.handlers, covers p h = covers base h)
    (stack : List (Value A)) (frame : Frame A) (heap : H) :
  ∃ n, (block ≠ [] → 0 < n) ∧
    runFor (step w code) n ⟨place, stack, frame, heap⟩
      = settle w code base (place + block.length) (w.actAll block stack frame heap)
  := by
  induction block generalizing place stack frame heap with
  | nil =>
      use 0
      constructor
      · intro h
        contradiction
      · rfl
  | cons i block ih =>
      obtain ⟨hi, hstands⟩ := hstands
      have hcovers' : ∀ h ∈ code.handlers, covers place h = covers base h := by
        apply hcovers place (Nat.le_refl place)
        rw [List.length_cons]
        omega
      have hstep := step_of_getElem? (w := w) hi stack frame heap
      rw [settle_congr hcovers'] at hstep
      cases hact : w.act i stack frame heap with
      | next stack' frame' heap' =>
          rw [hact] at hstep
          obtain ⟨n, -, hn⟩ := ih hstands
            (fun p hle hlt => hcovers p (by omega) (by rw [List.length_cons]; omega))
            stack' frame' heap'
          use n + 1
          constructor
          · intro _
            apply Nat.succ_pos
          · rw [runFor_succ_of_step n hstep, hn, actAll_cons_of_next block hact, List.length_cons,
              Nat.add_right_comm, Nat.add_assoc]
      | _ =>
          use 1
          constructor
          · intro _
            apply Nat.one_pos
          · rw [runFor_one, hstep, World.actAll, hact]
            rfl

end Machine

end ClassForge
