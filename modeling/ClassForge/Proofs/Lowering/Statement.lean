import ClassForge.Lowering.Method
import ClassForge.Proofs.Lowering.Expression
import ClassForge.Proofs.Switch

/-!
# Lowered statements

The code of a well-typed statement does what the statement does: it comes to the place after
the code with the locals as the statement leaves them, or to the place of the label that the
statement jumps to, or it ends the run. The stack is empty before and after a statement.
-/

namespace ClassForge

open Machine Execution

variable {H A α β : Type}

/-! ### Where a statement leads -/

/-- What an instruction does is what a statement does at its end. -/
inductive Settles (code : MethodCode) (scope : Scope) (frame : Frame A) (targets : List Label) :
    Action H A → Ends H A (Flow A) → Prop
  | next {frame' env heap} : frame'.Holds scope env →
      Settles code scope frame targets (.next [] frame' heap) (.done (.next env) heap)
  | jump {target place heap} : target ∈ targets →
      placeOf? code.instructions target = some place →
      Settles code scope frame targets (.jump target [] frame heap) (.done (.jump target) heap)
  | ret {value heap} : Settles code scope frame targets (.ret value heap) (.done (.ret value) heap)
  | throws {thrown frame' heap} :
      Settles code scope frame targets (.throws thrown frame' heap) (.throws thrown heap)
  | stuck : Settles code scope frame targets .stuck .stuck

variable [DecidableEq A]

/-- From the state the code runs to where a statement ends, with `next` as the place after the
statement. -/
def Leads (w : World H A) (code : MethodCode) (scope : Scope) (frame : Frame A)
    (targets : List Label) (next : Nat) (s : State H A) : Ends H A (Flow A) → Prop
  | .done (.next env) heap => ∃ frame', frame'.Holds scope env
    ∧ Reaches (step w code) s ⟨next, [], frame', heap⟩
  | .done (.jump target) heap => ∃ place, target ∈ targets
    ∧ placeOf? code.instructions target = some place
    ∧ Reaches (step w code) s ⟨place, [], frame, heap⟩
  | .done (.ret value) heap => Halts (step w code) s (.returned value heap)
  | .throws thrown heap => Halts (step w code) s (.thrown thrown heap)
  | .stuck => Halts (step w code) s .stuck

variable {w : World H A} {code : MethodCode} {scope : Scope} {frame : Frame A} {env : Env A}
  {targets : List Label}

/-- A run may come first to where it leads on. -/
theorem Leads.of_reaches {next : Nat} {s s' : State H A} {e : Ends H A (Flow A)}
    (hreaches : Reaches (step w code) s s') (h : Leads w code scope frame targets next s' e) :
  Leads w code scope frame targets next s e
  := by
  cases e with
  | done flow heap =>
      cases flow with
      | next env =>
          obtain ⟨frame', hholds, hnext⟩ := h
          use frame', hholds
          apply hreaches.trans hnext
      | jump target =>
          obtain ⟨place, htarget, hplace, hjump⟩ := h
          use place, htarget, hplace
          apply hreaches.trans hjump
      | ret value => apply hreaches.halts h
  | throws thrown heap => apply hreaches.halts h
  | stuck => apply hreaches.halts h

/-- An instruction that ends as the statement leads where the statement does. -/
theorem Leads.of_settles {place : Nat} {i : Instruction} {stack : List (Value A)} {heap : H}
    {e : Ends H A (Flow A)} (hhandlers : code.handlers = [])
    (hi : code.instructions[place]? = some i)
    (h : Settles code scope frame targets (w.act i stack frame heap) e) :
  Leads w code scope frame targets (place + 1) ⟨place, stack, frame, heap⟩ e
  := by
  have hstep := step_of_getElem? (w := w) hi stack frame heap
  generalize w.act i stack frame heap = action at hstep h
  cases h with
  | @next frame' _ _ hholds =>
      use frame', hholds
      apply Reaches.of_step hstep
  | @jump target place' _ htarget hplace =>
      use place', htarget, hplace
      apply Reaches.of_step
      rw [hstep, settle, enter, hplace]
  | ret => apply Halts.of_step hstep
  | throws =>
      apply Halts.of_step
      rw [hstep, settle, dispatch, hhandlers]
      rfl
  | stuck => apply Halts.of_step hstep

/-- Wherever the code of the generator stands, it does what the statement does. -/
structure Flows (w : World H A) (code : MethodCode) (scope : Scope) (frame : Frame A)
    (targets : List Label) (start : Nat → H → State H A) (g : Gen α) (c : Comp H A (Flow A)) :
    Prop where
  leads : ∀ {index labels out}, g index labels = .ok out →
    StandsAt code.instructions index out.code →
    ∀ heap, Leads w code scope frame targets (index + out.code.length) (start index heap) (c heap)

namespace Flows

variable {start : Nat → H → State H A}

/-- What is evaluated for a statement comes before the statement. -/
theorem of_realizes {δ : Type} {g : Gen α} {f : α → Gen δ} {c : Comp H A β}
    {d : β → Comp H A (Flow A)} {mid : Nat → β → H → State H A} {Q : α → Prop} {P : β → Prop}
    (hg : Realizes w code start g c mid)
    (hQ : ∀ {index labels out}, g index labels = .ok out → Q out.value) (hP : c.Gives P)
    (hf : ∀ a b, Q a → P b →
      Flows w code scope frame targets (fun place => mid place b) (f a) (d b)) :
  Flows w code scope frame targets start (g >>= f) (c >>= d)
  := by
  constructor
  intro index labels out hout hstands heap
  obtain ⟨x, y, hx, hy, rfl⟩ := Gen.bind_eq_ok.mp hout
  obtain ⟨hstands, hstands'⟩ := standsAt_append.mp hstands
  have hperforms := hg.performs hx hstands
  rw [Comp.bind_eq, Comp.bind]
  cases hheap : c heap with
  | done b heap' =>
      apply Leads.of_reaches (hperforms.done hheap)
      rw [List.length_append, ← Nat.add_assoc]
      apply (hf x.value b (hQ hx) (hP.of_done hheap)).leads hy hstands'
  | throws thrown heap' => apply hperforms.throws hheap
  | stuck => apply hperforms.stuck hheap

/-- A statement that only evaluates goes on behind its code. -/
theorem of_realizes_next {g : Gen α} {c : Comp H A β} {stack : β → List (Value A)}
    (hg : Realizes w code start g c fun place b => State.mk place (stack b) frame)
    (hstack : c.Gives fun b => stack b = []) (hholds : frame.Holds scope env) :
  Flows w code scope frame targets start g (do let _ ← c; return .next env)
  := by
  constructor
  intro index labels out hout hstands heap
  have hperforms := hg.performs hout hstands
  rw [Comp.bind_eq, Comp.bind]
  cases hheap : c heap with
  | done b heap' =>
      have hdone := hperforms.done hheap
      rw [hstack.of_done hheap] at hdone
      use frame
  | throws thrown heap' => apply hperforms.throws hheap
  | stuck => apply hperforms.stuck hheap

/-- A statement that jumps if a truth value is true. -/
theorem of_realizes_jump {g : Gen α} {c : Comp H A Bool} {target : Label} {place : Nat}
    (htarget : target ∈ targets) (hplace : placeOf? code.instructions target = some place)
    (hg : Realizes w code start g c
      fun p b => State.mk (if b = true then place else p) [] frame)
    (hholds : frame.Holds scope env) :
  Flows w code scope frame targets start g (do return if ← c then .jump target else .next env)
  := by
  constructor
  intro index labels out hout hstands heap
  have hperforms := hg.performs hout hstands
  rw [Comp.bind_eq, Comp.bind]
  cases hheap : c heap with
  | done b heap' =>
      have hdone := hperforms.done hheap
      cases b with
      | true =>
          use place, htarget, hplace
          apply hdone
      | false =>
          use frame, hholds
          apply hdone
  | throws thrown heap' => apply hperforms.throws hheap
  | stuck => apply hperforms.stuck hheap

theorem fail {reason : Unsupported} {c : Comp H A (Flow A)} :
  Flows w code scope frame targets start (Gen.fail reason : Gen α) c
  := ⟨fun hout => absurd hout Gen.fail_ne_ok⟩

theorem require {δ : Type} {x : Except Unsupported α} {f : α → Gen δ} {c : Comp H A (Flow A)}
    (h : ∀ a, x = .ok a → Flows w code scope frame targets start (f a) c) :
  Flows w code scope frame targets start (Gen.require x >>= f) c
  := by
  constructor
  intro index labels out hout hstands
  obtain ⟨_, y, hx, hy, rfl⟩ := Gen.bind_eq_ok.mp hout
  obtain ⟨a, ha, rfl⟩ := Gen.require_eq_ok.mp hx
  apply (h a ha).leads hy hstands

/-- A statement that needs no code. -/
theorem pure {a : α} (hholds : frame.Holds scope env) :
  Flows w code scope frame targets (fun place => State.mk place [] frame) (Gen.pure a)
    (Pure.pure (.next env))
  := by
  constructor
  intro index labels out hout hstands heap
  obtain rfl := Gen.pure_eq_ok.mp hout
  use frame, hholds
  apply Reaches.refl

/-- The instruction at the end of a statement. -/
theorem emitChecked {x : Except InstructionError Instruction} {c : Comp H A (Flow A)}
    {stack : List (Value A)} (hhandlers : code.handlers = [])
    (h : ∀ i, x = .ok i → ∀ heap,
      Settles code scope frame targets (w.act i stack frame heap) (c heap)) :
  Flows w code scope frame targets (fun place => State.mk place stack frame) (Gen.emitChecked x) c
  := by
  constructor
  intro index labels out hout hstands heap
  obtain ⟨i, hi, rfl⟩ := Gen.emitChecked_eq_ok.mp hout
  apply Leads.of_settles hhandlers hstands.1 (h i hi heap)

theorem emit {i : Instruction} {c : Comp H A (Flow A)} {stack : List (Value A)}
    (hhandlers : code.handlers = [])
    (h : ∀ heap, Settles code scope frame targets (w.act i stack frame heap) (c heap)) :
  Flows w code scope frame targets (fun place => State.mk place stack frame) (Gen.emit i) c
  := by
  rw [← Gen.emitChecked_ok]
  apply emitChecked hhandlers
  intro i' hi'
  obtain rfl := Except.ok.inj hi'
  apply h

end Flows

/-! ### Statements -/

variable {ctx : Context}

/-- An expression whose value is taken by the rest of a statement. -/
theorem Expr.Pushes.flows (hset : Setting code scope ctx env frame) {e : Expr} {kind : Kind}
    (h : Expr.Pushes ctx e (some kind)) {f : Ty → Gen α} {d : Value A → Comp H A (Flow A)}
    {stack : List (Value A)}
    (hf : ∀ type v, v.kind = kind →
      Flows w code scope frame targets (fun p => State.mk p (v :: stack) frame) (f type) (d v)) :
  Flows w code scope frame targets (fun p => State.mk p stack frame) (e.value scope >>= f)
    ((e.eval w ctx env).value >>= d)
  := by
  have hsound := h.sound (w := w) hset
  apply Flows.of_realizes (Q := fun _ => True) ((hsound.value stack).value hsound.gives)
    (fun _ => True.intro) hsound.gives.value
  intro type v _ hv
  apply hf type v hv

/-- An operation without a result at the end of a statement. -/
theorem Flows.operate (hset : Setting code scope ctx env frame)
    {x : Except InstructionError Instruction} {op : HeapOp} {kinds : List Kind}
    (hact : ∀ i, x = .ok i → ∀ stack frame heap,
      w.act i stack frame heap = w.operate op stack frame heap)
    (hsig : op.signature? = some ⟨kinds, none⟩) (args : List (Value A))
    (hargs : args.length = kinds.length) :
  Flows w code scope frame targets (fun p => State.mk p args.reverse frame) (Gen.emitChecked x)
    (do let _ ← w.call op args; return .next env)
  := by
  have hrealizes : Realizes w code (fun p => State.mk p (args.reverse ++ []) frame)
      (Gen.emitChecked x) (w.call op args) (fun p v => State.mk p (v.toList ++ []) frame) :=
    Realizes.operate hset.placed.handlers hact hsig args [] hargs
  rw [List.append_nil] at hrealizes
  apply Flows.of_realizes_next hrealizes _ hset.holds
  constructor
  intro heap v heap' hdone
  rw [Option.map_eq_none_iff.mp ((w.gives_call hsig args).of_done hdone)]
  rfl

/-- The code of an assignment. -/
theorem flows_assignVar (hset : Setting code scope ctx env frame)
    (hlaid : scope.locals.Laid (if scope.method.isStatic then 0 else 1)) {name : String}
    {value : Expr} {type : Ty} {kind : Kind} (htype : ctx.typeOf? name = some type)
    (hkind : type.kind? = some kind) (hvalue : Expr.Pushes ctx value (some kind)) :
  Flows w code scope frame targets (fun p => State.mk p [] frame)
    (Place.assign scope value (.var name))
    (Place.exec w ctx env value (.var name))
  := by
  apply Flows.require
  intro l hl
  have hl' := hset.fits.typeOf? name
  rw [htype, Locals.find_eq_ok.mp hl] at hl'
  obtain rfl := Option.some.inj hl'
  apply hvalue.flows hset
  rintro _ v rfl
  apply Flows.emitChecked hset.placed.handlers
  intro i hi heap
  rw [Checked.store, Ty.kind?_eq_some.mp hkind] at hi
  obtain rfl := Except.ok.inj hi
  rw [World.act_store, if_pos rfl]
  apply Settles.next
  apply hset.holds.assign hlaid hl hkind

/-- The assignment to a field evaluates the object, then the value, and stores it. -/
theorem flows_assignField (hset : Setting code scope ctx env frame) {owner : Ty} {name : String}
    {type : Ty} {object : Option Expr} {value : Expr} {kind : Kind}
    (hkind : type.erasure.kind? = some kind)
    (hobject : Expr.PushesAll ctx object.toList (receiverKinds object.isNone))
    (hvalue : Expr.Pushes ctx value (some kind)) :
  Flows w code scope frame targets (fun p => State.mk p [] frame)
    (Place.assign scope value (.field owner name type object))
    (Place.exec w ctx env value (.field owner name type object))
  := by
  rw [Place.assign, Place.exec, Expr.valueIfAny_eq, Expr.evalIfAny_eq]
  apply Flows.of_realizes (Q := fun _ => True) (hobject.realizes hset []) (fun _ => True.intro)
    (hobject.gives hset.respects)
  intro _ receiver _ hreceiver
  apply hvalue.flows hset
  intro _ v _
  have hargs : (receiver ++ [v]).length = (receiverKinds object.isNone ++ [kind]).length := by
    rw [← hreceiver]
    simp
  have hstack : v :: (receiver.reverse ++ []) = (receiver ++ [v]).reverse := by simp
  rw [hstack]
  apply Flows.operate hset _ (signature_putField hkind _) _ hargs
  intro i hi
  obtain rfl := eq_of_checked hi
  intro _ _ _
  rfl

/-- The assignment to an element evaluates the array, the index and the value, and stores it. -/
theorem flows_assignElement (hset : Setting code scope ctx env frame) {array index : Expr}
    {elem : Ty} {value : Expr} {kind : Kind} (hkind : elem.erasure.kind? = some kind)
    (harray : Expr.Pushes ctx array (some .reference)) (hindex : Expr.Pushes ctx index (some .int))
    (hvalue : Expr.Pushes ctx value (some kind)) :
  Flows w code scope frame targets (fun p => State.mk p [] frame)
    (Place.assign scope value (.element array index elem))
    (Place.exec w ctx env value (.element array index elem))
  := by
  apply harray.flows hset
  intro _ a _
  apply hindex.flows hset
  intro _ i _
  apply hvalue.flows hset
  intro _ v _
  apply Flows.operate hset _ (signature_arrayStore hkind) [a, i, v] rfl
  intro i hi
  obtain rfl := eq_of_checked hi
  intro _ _ _
  rfl

/-- The evaluation of an expression drops its value, if there is one. -/
theorem flows_eval (hset : Setting code scope ctx env frame) {e : Expr} {r : Option Kind}
    (htype : resultKind? (e.type ctx) = some r) (h : Expr.Pushes ctx e r) :
  Flows w code scope frame targets (fun p => State.mk p [] frame) (Stmt.code scope (.eval e))
    (Stmt.exec w ctx env (.eval e))
  := by
  have hsound := h.sound (w := w) hset
  apply Flows.of_realizes (Q := fun type => type = e.type ctx) (hsound.value [])
    (Expr.yields_type hset.fits e _ _ _) hsound.gives
  rintro _ v rfl hv
  unfold resultKind? at htype
  split
  · next hvoid =>
    rw [if_pos hvoid] at htype
    obtain rfl := Option.some.inj htype
    obtain rfl := Option.map_eq_none_iff.mp hv
    apply Flows.pure hset.holds
  · next hvoid =>
    rw [if_neg hvoid] at htype
    obtain ⟨kind, hkind, rfl⟩ := Option.map_eq_some_iff.mp htype
    obtain ⟨v, rfl, rfl⟩ := Option.map_eq_some_iff.mp hv
    apply Flows.emitChecked hset.placed.handlers
    intro i hi heap
    rw [Checked.pop, Ty.kind?_eq_some.mp hkind] at hi
    obtain rfl := Except.ok.inj hi
    have hpop : pop? v.kind.slots [v] = some [] := pop?_slots v []
    rw [World.act_pop, Option.toList, List.append_nil, hpop]
    apply Settles.next hset.holds

/-- The code of a well-typed statement does what the statement does. -/
theorem Stmt.Typed.flows (hset : Setting code scope ctx env frame)
    (hlaid : scope.locals.Laid (if scope.method.isStatic then 0 else 1)) {s : Stmt}
    (h : s.Typed ctx)
    (htargets : ∀ l ∈ s.targets, ∃ place, placeOf? code.instructions l = some place) :
  Flows w code scope frame s.targets (fun p => State.mk p [] frame) (s.code scope)
    (s.exec w ctx env)
  := by
  cases h with
  | assignVar htype hkind hvalue => apply flows_assignVar hset hlaid htype hkind hvalue
  | assignField hkind hobject hvalue => apply flows_assignField hset hkind hobject hvalue
  | assignElement hkind harray hindex hvalue =>
      apply flows_assignElement hset hkind harray hindex hvalue
  | eval htype h => apply flows_eval hset htype h
  | ret =>
      rw [Stmt.code]
      split
      · apply Flows.emit hset.placed.handlers
        intro heap
        apply Settles.ret
      · apply Flows.fail
  | retValue hkind h =>
      rw [Stmt.code]
      split
      · apply Flows.fail
      · next hvoid =>
        apply h.flows hset
        rintro _ v rfl
        apply Flows.emitChecked hset.placed.handlers
        intro i hi heap
        rw [Checked.ret, if_neg hvoid, hset.fits.result, Ty.kind?_eq_some.mp hkind] at hi
        obtain rfl := Except.ok.inj hi
        rw [World.act_ret, if_pos rfl]
        apply Settles.ret
  | throw h =>
      apply h.flows hset
      intro _ v hv
      apply Flows.emit hset.placed.handlers
      intro heap
      cases v with
      | ref r => cases r <;> apply Settles.throws
      | _ => contradiction
  | @goto target =>
      obtain ⟨place, hplace⟩ := htargets target List.mem_cons_self
      apply Flows.emit hset.placed.handlers
      intro heap
      apply Settles.jump List.mem_cons_self hplace
  | @branch condition target h =>
      obtain ⟨place, hplace⟩ := htargets target List.mem_cons_self
      apply Flows.of_realizes_jump List.mem_cons_self hplace _ hset.holds
      apply (h.sound hset).jump rfl target place hplace
  | label =>
      rw [Stmt.code]
      split
      · apply Flows.fail
      · apply Flows.emit hset.placed.handlers
        intro heap
        apply Settles.next hset.holds
  | lock h =>
      have hsig : HeapOp.monitorEnter.signature? = some ⟨[.reference], none⟩ := rfl
      apply h.flows hset
      intro _ v _
      rw [← Gen.emitChecked_ok]
      apply Flows.operate hset _ hsig [v] rfl
      rintro i hi
      obtain rfl := Except.ok.inj hi
      intro _ _ _
      rfl
  | unlock h =>
      have hsig : HeapOp.monitorExit.signature? = some ⟨[.reference], none⟩ := rfl
      apply h.flows hset
      intro _ v _
      rw [← Gen.emitChecked_ok]
      apply Flows.operate hset _ hsig [v] rfl
      rintro i hi
      obtain rfl := Except.ok.inj hi
      intro _ _ _
      rfl
  | @switch _ cases fallback h =>
      apply h.flows hset
      intro type v hv
      obtain ⟨key, rfl⟩ := Value.eq_int_of_kind hv
      split
      · apply Flows.emitChecked hset.placed.handlers
        intro i hi heap
        obtain ⟨s, hs, rfl⟩ := Checked.switch_eq_ok hi
        have htarget := Switch.getD_lookup_mem cases fallback key
        obtain ⟨place, hplace⟩ := htargets _ htarget
        rw [World.act_switch, Switch.target_of_ofCases hs]
        apply Settles.jump htarget hplace
      · apply Flows.fail

end ClassForge
