import ClassForge.Proofs.Lowering.Generation
import ClassForge.Proofs.Machine.Block
import ClassForge.Proofs.Source.Typing

/-!
# Generators that realize computations

The code that a generator emits realizes a computation if, wherever it stands, a run of it
does to the heap what the computation does, ends as the computation does if that throws or is
stuck, and otherwise comes to the place after the code with the result on the stack. The code
has no handlers here: whatever is thrown ends the run.
-/

namespace ClassForge

open Machine Execution

variable {H A α β γ : Type}

/-! ### Runs -/

/-- One computation after another ends where the first one does or where the second one does. -/
theorem Machine.Comp.bind_cases {c : Comp H A β} {d : β → Comp H A γ} {heap : H} {e : Ends H A γ}
    (h : (c >>= d) heap = e) :
  (∃ b heap', c heap = .done b heap' ∧ d b heap' = e)
    ∨ (∃ thrown heap', c heap = .throws thrown heap' ∧ .throws thrown heap' = e)
    ∨ c heap = .stuck ∧ .stuck = e
  := by
  rw [Comp.bind_eq, Comp.bind] at h
  cases hheap : c heap with
  | done b heap' =>
      rw [hheap] at h
      left
      use b, heap'
  | throws thrown heap' =>
      rw [hheap] at h
      right; left
      use thrown, heap'
  | stuck =>
      rw [hheap] at h
      right; right
      use rfl

variable [DecidableEq A]

/-- From `start` the code does what the computation does and comes to `finish` if that gives
a result. -/
structure Performs (w : World H A) (code : MethodCode) (start : H → State H A)
    (c : Comp H A β) (finish : β → H → State H A) : Prop where
  done : ∀ {heap b heap'}, c heap = .done b heap' →
    Reaches (step w code) (start heap) (finish b heap')
  throws : ∀ {heap thrown heap'}, c heap = .throws thrown heap' →
    Halts (step w code) (start heap) (.thrown thrown heap')
  stuck : ∀ {heap}, c heap = .stuck → Halts (step w code) (start heap) .stuck

variable {w : World H A} {code : MethodCode}

namespace Performs

/-- Running on without touching the heap performs nothing. -/
theorem of_reaches {start : H → State H A} {finish : β → H → State H A} {b : β}
    (h : ∀ heap, Reaches (step w code) (start heap) (finish b heap)) :
  Performs w code start (Pure.pure b) finish
  := by
  constructor
  · intro heap b' heap' heq
    obtain ⟨rfl, rfl⟩ := Ends.done.inj heq
    apply h
  · intro heap thrown heap' heq
    contradiction
  · intro heap heq
    contradiction

theorem pure {start : H → State H A} {finish : β → H → State H A} {b : β}
    (h : start = finish b) :
  Performs w code start (Pure.pure b) finish
  := by
  apply of_reaches
  intro heap
  rw [h]
  apply Reaches.refl

/-- What is performed one after the other is performed together. -/
theorem bind {start : H → State H A} {mid : β → H → State H A} {finish : γ → H → State H A}
    {c : Comp H A β} {d : β → Comp H A γ} {P : β → Prop} (hc : Performs w code start c mid)
    (hP : c.Gives P) (hd : ∀ b, P b → Performs w code (mid b) (d b) finish) :
  Performs w code start (c >>= d) finish
  := by
  constructor
  · intro heap e heap' heq
    obtain ⟨b, heap'', hb, he⟩ | ⟨_, _, _, he⟩ | ⟨_, he⟩ := Comp.bind_cases heq
    · apply (hc.done hb).trans ((hd b (hP.of_done hb)).done he)
    · contradiction
    · contradiction
  · intro heap thrown heap' heq
    obtain ⟨b, heap'', hb, he⟩ | ⟨_, _, hc', he⟩ | ⟨_, he⟩ := Comp.bind_cases heq
    · apply (hc.done hb).halts ((hd b (hP.of_done hb)).throws he)
    · obtain ⟨rfl, rfl⟩ := Ends.throws.inj he
      apply hc.throws hc'
    · contradiction
  · intro heap heq
    obtain ⟨b, heap'', hb, he⟩ | ⟨_, _, _, he⟩ | ⟨hc', _⟩ := Comp.bind_cases heq
    · apply (hc.done hb).halts ((hd b (hP.of_done hb)).stuck he)
    · contradiction
    · apply hc.stuck hc'

/-- A run may go on after a computation. -/
theorem extend {start : H → State H A} {mid finish : β → H → State H A} {c : Comp H A β}
    (hc : Performs w code start c mid)
    (h : ∀ b heap, Reaches (step w code) (mid b heap) (finish b heap)) :
  Performs w code start c finish
  := by
  constructor
  · intro heap b heap' heq
    apply (hc.done heq).trans
    apply h
  · intro heap thrown heap' heq
    apply hc.throws heq
  · intro heap heq
    apply hc.stuck heq

end Performs

/-- An instruction that goes on with the result of a computation performs it. -/
theorem performs_of_getElem? {c : Comp H A β} {i : Instruction} {place : Nat}
    {stack : List (Value A)} {stack' : β → List (Value A)} {frame : Frame A}
    (hhandlers : code.handlers = []) (hi : code.instructions[place]? = some i)
    (hact : ∀ heap, w.act i stack frame heap = Action.ofEnds frame stack' (c heap)) :
  Performs w code (State.mk place stack frame) c
    (fun b => State.mk (place + 1) (stack' b) frame)
  := by
  have hstep := fun heap => step_of_getElem? (w := w) hi stack frame heap
  constructor
  · intro heap b heap' heq
    apply Reaches.of_step
    rw [hstep, hact, heq]
    rfl
  · intro heap thrown heap' heq
    apply Halts.of_step
    rw [hstep, hact, heq, Action.ofEnds, settle, dispatch, hhandlers]
    rfl
  · intro heap heq
    apply Halts.of_step
    rw [hstep, hact, heq]
    rfl

/-! ### Generators -/

/-- Wherever the code of the generator stands, it performs the computation. -/
structure Realizes (w : World H A) (code : MethodCode) (start : Nat → H → State H A)
    (g : Gen α) (c : Comp H A β) (finish : Nat → β → H → State H A) : Prop where
  performs : ∀ {index labels out}, g index labels = .ok out →
    StandsAt code.instructions index out.code →
    Performs w code (start index) c (finish (index + out.code.length))

namespace Realizes

variable {start : Nat → H → State H A} {finish : Nat → γ → H → State H A}
  {mid : Nat → β → H → State H A} {δ : Type}

/-- Generators one after the other realize computations one after the other, if what the second one
needs is known of both values. -/
theorem bind_of {g : Gen α} {f : α → Gen δ} {c : Comp H A β} {d : β → Comp H A γ}
    {Q : α → Prop} {P : β → Prop} (hg : Realizes w code start g c mid)
    (hQ : ∀ {index labels out}, g index labels = .ok out → Q out.value) (hP : c.Gives P)
    (hf : ∀ a b, Q a → P b → Realizes w code (fun place => mid place b) (f a) (d b) finish) :
  Realizes w code start (g >>= f) (c >>= d) finish
  := by
  constructor
  intro index labels out hout hstands
  obtain ⟨x, y, hx, hy, rfl⟩ := Gen.bind_eq_ok.mp hout
  obtain ⟨hstands, hstands'⟩ := standsAt_append.mp hstands
  apply (hg.performs hx hstands).bind hP
  intro b hb
  rw [List.length_append, ← Nat.add_assoc]
  apply (hf x.value b (hQ hx) hb).performs hy hstands'

/-- One generator after another realizes one computation after another. -/
theorem bind {g : Gen α} {f : α → Gen δ} {c : Comp H A β} {d : β → Comp H A γ} {P : β → Prop}
    (hg : Realizes w code start g c mid) (hP : c.Gives P)
    (hf : ∀ a b, P b → Realizes w code (fun place => mid place b) (f a) (d b) finish) :
  Realizes w code start (g >>= f) (c >>= d) finish
  := by
  apply hg.bind_of (Q := fun _ => True) (fun _ => True.intro) hP
  intro a b _
  apply hf

/-- A generator that emits nothing realizes what is there already. -/
theorem pure {a : α} {b : γ} (h : ∀ place, start place = finish place b) :
  Realizes w code start (Gen.pure a) (Pure.pure b) finish
  := by
  constructor
  intro index labels out hout hstands
  obtain rfl := Gen.pure_eq_ok.mp hout
  apply Performs.pure
  apply h

theorem fail {reason : Unsupported} {c : Comp H A γ} :
  Realizes w code start (Gen.fail reason : Gen α) c finish
  := ⟨fun hout => absurd hout Gen.fail_ne_ok⟩

/-- The value that a generator gives at the end does not matter. -/
theorem then_pure {g : Gen α} {c : Comp H A γ} {b : δ} (h : Realizes w code start g c finish) :
  Realizes w code start (do let _ ← g; Pure.pure b) c finish
  := by
  constructor
  intro index labels out hout hstands
  obtain ⟨x, y, hx, hy, rfl⟩ := Gen.bind_eq_ok.mp hout
  obtain rfl := Gen.pure_eq_ok.mp hy
  rw [List.append_nil] at hstands ⊢
  apply h.performs hx hstands

/-- The result of a computation may be put differently. -/
theorem map_of {g : Gen α} {c : Comp H A β} {k : β → γ} {P : β → Prop}
    (h : Realizes w code start g c mid) (hP : c.Gives P)
    (hk : ∀ place b, P b → mid place b = finish place (k b)) :
  Realizes w code start g (do return k (← c)) finish
  := by
  constructor
  intro index labels out hout hstands
  apply (h.performs hout hstands).bind hP
  intro b hb
  apply Performs.pure
  apply hk _ b hb

theorem map {g : Gen α} {c : Comp H A β} {k : β → γ} (h : Realizes w code start g c mid)
    (hk : ∀ place b, mid place b = finish place (k b)) :
  Realizes w code start g (do return k (← c)) finish
  := by
  apply h.map_of (P := fun _ => True) ⟨fun _ => True.intro⟩
  intro place b _
  apply hk

/-- What is required of the operands emits nothing. -/
theorem require {x : Except Unsupported α} {f : α → Gen δ} {c : Comp H A γ}
    (h : ∀ a, x = .ok a → Realizes w code start (f a) c finish) :
  Realizes w code start (Gen.require x >>= f) c finish
  := by
  constructor
  intro index labels out hout hstands
  obtain ⟨_, y, hx, hy, rfl⟩ := Gen.bind_eq_ok.mp hout
  obtain ⟨a, ha, rfl⟩ := Gen.require_eq_ok.mp hx
  apply (h a ha).performs hy hstands

theorem check {x : Except InstructionError α} {f : α → Gen δ} {c : Comp H A γ}
    (h : ∀ a, x = .ok a → Realizes w code start (f a) c finish) :
  Realizes w code start (Gen.check x >>= f) c finish
  := by
  constructor
  intro index labels out hout hstands
  obtain ⟨_, y, hx, hy, rfl⟩ := Gen.bind_eq_ok.mp hout
  obtain ⟨a, ha, rfl⟩ := Gen.check_eq_ok.mp hx
  apply (h a ha).performs hy hstands

variable {stack : List (Value A)} {stack' : β → List (Value A)} {frame : Frame A}

/-- An instruction that goes on with the result of a computation. -/
theorem emitChecked {x : Except InstructionError Instruction} {c : Comp H A β}
    (hhandlers : code.handlers = [])
    (hact : ∀ i, x = .ok i → ∀ heap,
      w.act i stack frame heap = Action.ofEnds frame stack' (c heap)) :
  Realizes w code (fun place => State.mk place stack frame) (Gen.emitChecked x) c
    (fun place b => State.mk place (stack' b) frame)
  := by
  constructor
  intro index labels out hout hstands
  obtain ⟨i, hi, rfl⟩ := Gen.emitChecked_eq_ok.mp hout
  apply performs_of_getElem? hhandlers hstands.1 (hact i hi)

/-- A result that must be there is left on top of the stack. -/
theorem value {g : Gen α} {c : Comp H A (Option (Value A))} {kind : Kind}
    (h : Realizes w code start g c fun p v => State.mk p (v.toList ++ stack) frame)
    (hgives : c.Gives fun v => v.map Value.kind = some kind) :
  Realizes w code start g c.value fun p v => State.mk p (v :: stack) frame
  := by
  constructor
  intro index labels out hout hstands
  apply (h.performs hout hstands).bind hgives
  intro v hv
  obtain ⟨v, rfl, -⟩ := Option.map_eq_some_iff.mp hv
  apply Performs.pure
  rfl

/-- A generator that is not run realizes what is there already. -/
theorem skip {g : Gen α} {b : γ} (h : ∀ place place', start place = finish place' b) :
  Realizes w code start g (Pure.pure b) finish
  := by
  constructor
  intro index labels out hout hstands
  apply Performs.pure
  apply h

/-- An instruction that only moves operands does not show in the computation. -/
theorem silent {x : Except InstructionError Instruction} {g : Unit → Gen δ} {c : Comp H A γ}
    {stack' : List (Value A)} (hhandlers : code.handlers = [])
    (hact : ∀ i, x = .ok i → ∀ heap, w.act i stack frame heap = .next stack' frame heap)
    (h : Realizes w code (fun place => State.mk place stack' frame) (g ()) c finish) :
  Realizes w code (fun place => State.mk place stack frame) (Gen.emitChecked x >>= g) c finish
  := by
  have hi : Realizes w code (fun place => State.mk place stack frame) (Gen.emitChecked x)
      (Pure.pure () : Comp H A Unit) (fun place _ => State.mk place stack' frame) := by
    apply emitChecked hhandlers
    apply hact
  change Realizes w code _ _ ((Pure.pure () : Comp H A Unit) >>= fun _ => c) finish
  apply hi.bind (P := fun _ => True) (Comp.Gives.pure True.intro)
  intro _ _ _
  apply h

/-- An operation on the heap, with its operands on the stack. -/
theorem operate {x : Except InstructionError Instruction} {op : HeapOp} {sig : Signature}
    (hhandlers : code.handlers = [])
    (hact : ∀ i, x = .ok i → ∀ stack frame heap,
      w.act i stack frame heap = w.operate op stack frame heap)
    (hsig : op.signature? = some sig) (args stack : List (Value A))
    (hargs : args.length = sig.operands.length) :
  Realizes w code (fun place => State.mk place (args.reverse ++ stack) frame) (Gen.emitChecked x)
    (w.call op args) (fun place v => State.mk place (v.toList ++ stack) frame)
  := by
  apply emitChecked hhandlers
  intro i hi heap
  rw [← List.length_reverse] at hargs
  rw [hact i hi, World.operate, hsig]
  simp only [← hargs, List.take_left, List.drop_left, List.reverse_reverse]

/-- A branch, taken when the truth value is the given one. -/
theorem branch {test : BranchTest} {target : Label} {place : Nat} {stack' : List (Value A)}
    {b onTrue : Bool} (hplace : placeOf? code.instructions target = some place)
    (htest : branch? w test stack = some (decide (b = onTrue), stack')) :
  Realizes w code (fun p => State.mk p stack frame) (Gen.emit (.branch test target))
    (Pure.pure b : Comp H A Bool)
    (fun p b => State.mk (if b = onTrue then place else p) stack' frame)
  := by
  constructor
  intro index labels out hout hstands
  obtain rfl := Gen.emit_eq_ok.mp hout
  have hstep := fun heap => step_of_getElem? (w := w) hstands.1 stack frame heap
  constructor
  · intro heap b' heap' heq
    obtain ⟨rfl, rfl⟩ := Ends.done.inj heq
    apply Reaches.of_step
    rw [hstep, World.act_branch, htest]
    by_cases hb : b = onTrue
    · rw [decide_eq_true hb, if_pos hb, settle, enter, hplace]
    · rw [decide_eq_false hb, if_neg hb, settle, List.length_singleton]
  · intro heap thrown heap' heq
    contradiction
  · intro heap heq
    contradiction

end Realizes

end ClassForge
