import ClassForge.Method.Code
import ClassForge.Peephole.Rule

/-!
# Passes over the code

A pass goes over the code once, from first to last. Where a rule applies, its replacement is
put in and the pass goes on after it, unless a handler starts or ends strictly within the
instructions that the rule replaces. The ranges of handlers move along with the instructions.

Passes are repeated until one changes nothing. Every change makes the code lighter, so this
comes to an end.
-/

namespace ClassForge

/-- Whether the handler starts or ends strictly between two places. -/
def Handler.straddles (start stop : Nat) (h : Handler) : Bool :=
  (start < h.start && h.start < stop) || (start < h.stop && h.stop < stop)

/-- A place in the code after `removed` instructions that end at `stop` have become
`added`. -/
def shiftPlace (stop removed added place : Nat) : Nat :=
  if stop ≤ place then place - removed + added else place

/-- The handler after `removed` instructions that end at `stop` have become `added`. -/
def Handler.shift (stop removed added : Nat) (h : Handler) : Handler :=
  { h with
    start := shiftPlace stop removed added h.start
    stop := shiftPlace stop removed added h.stop }

/-- Whether one of the handlers starts or ends strictly between two places. -/
def anyStraddles (handlers : List Handler) (start stop : Nat) : Bool :=
  handlers.any (Handler.straddles start stop)

/-- The handlers after `removed` instructions that end at `stop` have become `added`. -/
def shiftAll (handlers : List Handler) (stop removed added : Nat) : List Handler :=
  handlers.map (Handler.shift stop removed added)

/-- The result of a pass. -/
structure Pass where
  instructions : List Instruction
  handlers : List Handler
  /-- The rules that were used, each with the place where it was. -/
  applied : List (Rule × Nat)

namespace Peephole

/-- A pass over `rest`, which comes after the finished code `done` in reverse, of length
`index`. -/
def scan (done : List Instruction) (index : Nat) (handlers : List Handler)
    (applied : List (Rule × Nat)) (rest : List Instruction) : Pass :=
  match rest with
  | [] => ⟨done.reverse, handlers, applied.reverse⟩
  | i :: tail =>
    match step? (i :: tail) with
    | none => scan (i :: done) (index + 1) handlers applied tail
    | some r =>
      if anyStraddles handlers index (index + r.length) then
        scan (i :: done) (index + 1) handlers applied tail
      else
        scan (r.replacement.reverse ++ done) (index + r.replacement.length)
          (shiftAll handlers (index + r.length) r.length r.replacement.length)
          ((r.rule, index) :: applied) (tail.drop (r.length - 1))
termination_by rest.length
decreasing_by
  · simp
  · simp
  · simp only [List.length_drop, List.length_cons]
    omega

/-- One pass over the code. -/
def pass (instructions : List Instruction) (handlers : List Handler) : Pass :=
  scan [] 0 handlers [] instructions

/-- Every rewrite of a pass has taken some of the weight of the code. -/
theorem weight_scan (done : List Instruction) (index : Nat) (handlers : List Handler)
    (applied : List (Rule × Nat)) (rest : List Instruction) :
  weight (scan done index handlers applied rest).instructions
      + (scan done index handlers applied rest).applied.length
    ≤ weight done + weight rest + applied.length
  := by
  fun_induction scan done index handlers applied rest with
  | case1 => simp
  | case2 done index handlers applied i tail hnone ih =>
    simp only [weight_cons] at ih ⊢
    omega
  | case3 done index handlers applied i tail r hsome hstraddles ih =>
    simp only [weight_cons] at ih ⊢
    omega
  | case4 done index handlers applied i tail r hsome hstraddles ih =>
    obtain ⟨hpos, hlt⟩ := step?_lightens hsome
    obtain ⟨n, hn⟩ := Nat.exists_eq_add_of_lt hpos
    rw [show r.length = n + 1 by omega] at hlt ih ⊢
    simp only [List.drop_succ_cons, weight_cons, weight_append, weight_reverse,
      List.length_cons, Nat.add_sub_cancel] at hlt ih ⊢
    omega

theorem weight_pass (instructions : List Instruction) (handlers : List Handler) :
  weight (pass instructions handlers).instructions + (pass instructions handlers).applied.length
    ≤ weight instructions
  := by
  have h := weight_scan [] 0 handlers [] instructions
  simpa [pass] using h

/-- The passes over the code, up to the first that changes nothing. -/
def passes (instructions : List Instruction) (handlers : List Handler) : List Pass :=
  if (pass instructions handlers).applied = [] then
    [pass instructions handlers]
  else
    pass instructions handlers
      :: passes (pass instructions handlers).instructions (pass instructions handlers).handlers
termination_by weight instructions
decreasing_by
  next h =>
  have hle := weight_pass instructions handlers
  have hpos := List.length_pos_iff.2 h
  omega

/-- The code that the last pass leaves. -/
def optimize (code : MethodCode) : MethodCode :=
  let last := (passes code.instructions code.handlers).getLastD ⟨code.instructions, code.handlers, []⟩
  { code with instructions := last.instructions, handlers := last.handlers }

end Peephole

end ClassForge
