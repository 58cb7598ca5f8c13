import ClassForge.Proofs.Lowering.Combinators
import ClassForge.Proofs.Lowering.Slots

/-!
# Lowered expressions

The code of a well-typed expression is sound: it leaves the value of the expression on the
stack, or branches by its truth value, wherever it stands and whatever is on the stack below.
The proof is by induction on the typing of the expression, with one case for each form of
expression, and at once for lists of operands.
-/

namespace ClassForge

open Machine Execution

variable {H A : Type}

variable {scope : Scope} {ctx : Context} {env : Env A} {frame : Frame A}

/-! ### Instructions for operands -/

/-- The instruction is made after a check of which only the outcome matters. -/
theorem eq_of_checked {α : Type} {x : Except InstructionError α} {i i' : Instruction}
    (h : (do let _ ← x; return i') = Except.ok i) :
  i' = i
  := by
  cases x with
  | error e => contradiction
  | ok a => apply Except.ok.inj h

theorem Expr.valueIfAny_eq (scope : Scope) (e : Option Expr) :
  Expr.valueIfAny scope e = Expr.valuesInOrder scope e.toList
  := by
  cases e <;> rfl

variable {code : MethodCode}

/-- Code without handlers runs a body: its slots hold the values of the body's locals. -/
structure Setting (code : MethodCode) (scope : Scope) (ctx : Context) (env : Env A)
    (frame : Frame A) : Prop where
  placed : Placed code
  fits : scope.Fits ctx
  holds : frame.Holds scope env

theorem Setting.respects (hset : Setting code scope ctx env frame) :
  env.Respects ctx
  := hset.holds.respects hset.fits

/-! ### Instructions and their results -/

theorem ofEnds_some (frame : Frame A) (stack : List (Value A)) (c : Comp H A (Value A)) (heap : H) :
  Action.ofEnds frame (fun v => v.toList ++ stack) ((do return some (← c) : Comp H A _) heap)
    = Action.ofEnds frame (· :: stack) (c heap)
  := by
  rw [Comp.bind_eq, Comp.bind]
  cases c heap <;> rfl

theorem ofEnds_require (frame : Frame A) (stack : List (Value A)) (v : Option (Value A))
    (heap : H) :
  Action.ofEnds frame (fun v => v.toList ++ stack)
      ((do return some (← Comp.require v) : Comp H A _) heap)
    = Action.ofStack? frame heap (v.map (· :: stack))
  := by
  rw [ofEnds_some]
  cases v <;> rfl

variable [DecidableEq A] {w : World H A}

theorem Expr.evalIfAny_eq (e : Option Expr) :
  Expr.evalIfAny w ctx env e = Expr.evalAll w ctx env e.toList
  := by
  cases e <;> rfl

/-- Well-typed operands give values of their kinds. -/
theorem Expr.PushesAll.gives (henv : env.Respects ctx) :
    ∀ {es : List Expr} {kinds : List Kind}, Expr.PushesAll ctx es kinds →
      (Expr.evalAll w ctx env es).Gives fun vs => vs.map Value.kind = kinds
  | _, _, .nil => Comp.Gives.pure rfl
  | _, _, .cons h hs => by
      apply (h.gives henv).value.bind
      intro v hv
      apply (Expr.PushesAll.gives henv hs).bind
      intro vs hvs
      apply Comp.Gives.pure
      rw [List.map_cons, hv, hvs]

/-- The instruction for a literal pushes its value. -/
theorem realizes_literal (hplaced : Placed code) (l : Literal) (stack : List (Value A)) :
  Realizes w code (fun p => State.mk p stack frame) (Gen.emitChecked l.instruction) (l.eval w)
    (fun p v => State.mk p (v.toList ++ stack) frame)
  := by
  have hconstant : ∀ c, Realizes w code (fun p => State.mk p stack frame)
      (Gen.emitChecked (.ok (.constant c))) (pure (some (w.constant c)) : Comp H A _)
      (fun p v => State.mk p (v.toList ++ stack) frame) := by
    intro c
    apply Realizes.emitChecked hplaced.handlers
    rintro i hi heap
    obtain rfl := Except.ok.inj hi
    rfl
  cases l with
  | classOf type =>
      cases type with
      | primitive p =>
          have hsig : ∀ owner name, (HeapOp.getField ⟨owner, name, .object .classObject []⟩
            true).signature? = some ⟨[], some .reference⟩ := fun _ _ => rfl
          rw [Literal.eval, Literal.instruction]
          apply Realizes.operate hplaced.handlers _ (hsig _ _) [] stack rfl
          intro i hi
          obtain rfl := eq_of_checked hi
          intro _ _ _
          rfl
      | _ => apply hconstant
  | _ => apply hconstant

/-- The code of a literal is sound. The jump of a truth value does not depend on the stack. -/
theorem Literal.sound (hplaced : Placed code) (l : Literal) {kind : Kind}
    (h : l.type.kind? = some kind) :
  l.code.Sound w code frame (l.eval w) (some kind)
  := by
  have hvalue : ValueSound w code frame
      (do Gen.emitChecked l.instruction; return l.type : Gen Ty) (l.eval w) := by
    intro stack
    apply Realizes.then_pure
    apply realizes_literal hplaced
  cases l with
  | boolean b =>
      constructor
      · apply hvalue
      · intro _ target place hplace onTrue stack
        have htruth : ((Literal.boolean b).eval w).truth = (pure b : Comp H A Bool) := by
          cases b <;> rfl
        rw [htruth]
        change Realizes w code _ (if b = onTrue then _ else _) _ _
        split
        · next hb =>
          apply Realizes.branch hplace
          rw [decide_eq_true hb]
          rfl
        · next hb =>
          apply Realizes.pure
          intro p
          rw [if_neg hb]
      · apply Literal.gives_eval h
  | _ => apply ExprCode.Sound.ofValue hvalue (Literal.gives_eval h)

/-- The creation of an array takes the lengths from the stack and leaves the array. -/
theorem realizes_newArrayCode (hplaced : Placed code) (elem : Ty) {sizes : List (Value A)}
    {count : Nat} (hsizes : sizes.length = count) (stack : List (Value A)) :
  Realizes w code (fun p => State.mk p (sizes.reverse ++ stack) frame)
    (newArrayCode (.array elem) elem count) (w.call (newArrayOp (.array elem) count) sizes)
    (fun p v => State.mk p (v.toList ++ stack) frame)
  := by
  obtain ⟨n, hsig, hn⟩ := signature_newArrayOp (.array elem) count
  by_cases hle : count ≤ 255
  · have hlength : sizes.length = (List.replicate n Kind.int).length := by
      rw [hsizes, List.length_replicate, hn hle]
    rcases count with _ | _ | count
    · apply Realizes.fail
    · apply Realizes.operate hplaced.handlers _ hsig sizes stack hlength
      intro i hi
      obtain rfl := eq_of_checked hi
      intro _ _ _
      rfl
    · apply Realizes.operate hplaced.handlers _ hsig sizes stack hlength
      intro i hi
      unfold Checked.newArrays at hi
      split at hi
      · contradiction
      · obtain rfl := Except.ok.inj hi
        intro _ _ _
        rfl
  · rcases count with _ | _ | count
    · contradiction
    · contradiction
    · have herror : Checked.newArrays (.array elem) (count + 2)
          = .error (.dimensions (.array elem) (count + 2)) :=
        if_pos (Or.inr (Or.inr (Nat.lt_of_not_le hle)))
      apply Realizes.emitChecked hplaced.handlers
      rw [herror]
      intro i hi
      contradiction

/-- The opcodes of a conversion convert the value on the stack. -/
theorem realizes_conversion (hplaced : Placed code) (source target : Ty) (v : Value A)
    (stack : List (Value A)) :
  Realizes w code (fun p => State.mk p (v :: stack) frame)
    (Gen.emitChecked (Checked.conversion source target))
    (do return some (← w.convert source target v))
    (fun p v => State.mk p (v.toList ++ stack) frame)
  := by
  apply Realizes.emitChecked hplaced.handlers
  intro i hi heap
  unfold Checked.conversion at hi
  split at hi
  · next p q hp hq =>
    split at hi
    · obtain rfl := Except.ok.inj hi
      rw [World.convert, hp, hq, ofEnds_require, World.act_convert]
    · contradiction
  · contradiction

/-- The instruction is made for types of references only. -/
theorem eq_of_reference {type : Ty} {i i' : Instruction}
    (h : (do if (← Kind.of type) = .reference then return i' else .error (.notAClass type))
      = Except.ok i) :
  i' = i
  := by
  cases hkind : Kind.of type with
  | error e =>
      rw [hkind] at h
      contradiction
  | ok kind =>
      rw [hkind] at h
      change (if _ then _ else _) = _ at h
      split at h
      · apply Except.ok.inj h
      · contradiction

/-- The code of a cast converts or checks the value on the stack. -/
theorem realizes_castCode (hplaced : Placed code) (source target : Ty) (v : Value A)
    (stack : List (Value A)) :
  Realizes w code (fun p => State.mk p (v :: stack) frame) (castCode source target)
    (w.cast source target v) (fun p v => State.mk p (v.toList ++ stack) frame)
  := by
  unfold castCode World.cast
  split
  · split
    · apply Realizes.pure
      intro place
      rfl
    · apply realizes_conversion hplaced
  · have hsig : (HeapOp.checkCast target.erasure).signature?
      = some ⟨[.reference], some .reference⟩ := rfl
    apply Realizes.operate hplaced.handlers _ hsig [v] stack rfl
    intro i hi
    obtain rfl := eq_of_reference hi
    intro _ _ _
    rfl

/-- The code of an expression gives its type. -/
theorem Expr.yields_type (hfits : scope.Fits ctx) (e : Expr) :
  (e.code scope).value.Yields (e.type ctx)
  := by
  cases e with
  | literal l =>
      cases l <;>
      · rw [Expr.code]
        apply Gen.Yields.bind
        intro _
        apply Gen.Yields.pure
  | var name =>
      rw [Expr.code]
      apply Gen.Yields.require
      intro l hl
      rw [Expr.type, hfits.typeOf?, Locals.find_eq_ok.mp hl]
      apply Gen.Yields.bind
      intro _
      apply Gen.Yields.pure
  | self =>
      rw [Expr.code, Expr.type, ← hfits.self]
      change Gen.Yields (if _ then _ else _) _
      split
      · apply Gen.Yields.fail
      · apply Gen.Yields.bind
        intro _
        apply Gen.Yields.pure
  | newArray type lengths =>
      cases type with
      | array elem =>
          rw [Expr.code]
          apply Gen.Yields.bind
          intro _
          apply Gen.Yields.bind
          intro _
          apply Gen.Yields.pure
      | _ =>
          rw [Expr.code]
          · apply Gen.Yields.fail
          · intro elem helem
            contradiction
  | caught type =>
      rw [Expr.code]
      apply Gen.Yields.pure
  | logic op left right =>
      cases op <;>
      · rw [Expr.code]
        iterate 8
          apply Gen.Yields.bind
          intro _
        apply Gen.Yields.pure
  | convert value source target =>
      rw [Expr.code]
      apply Gen.Yields.bind
      intro _
      change Gen.Yields (if _ then _ else _) _
      split <;>
      · apply Gen.Yields.bind
        intro _
        apply Gen.Yields.pure
  | _ =>
      rw [Expr.code]
      repeat
        apply Gen.Yields.bind
        intro _
      apply Gen.Yields.pure

theorem Checked.neg_eq_ok {type : Ty} {kind : Kind} {i : Instruction}
    (hkind : Kind.of type = .ok kind) (h : Checked.neg type = .ok i) :
  .neg kind = i
  := by
  rw [Checked.neg, hkind] at h
  change (if _ then _ else _) = _ at h
  split at h
  · contradiction
  · apply Except.ok.inj h

theorem Checked.arith_eq_ok {op : ArithOp} {type : Ty} {kind : Kind} {i : Instruction}
    (hkind : Kind.of type = .ok kind) (h : Checked.arith op type = .ok i) :
  .arith op kind = i
  := by
  rw [Checked.arith, hkind] at h
  change (if _ then _ else _) = _ at h
  split at h
  · contradiction
  · apply Except.ok.inj h

/-- A local is loaded from the slot that it has. -/
theorem realizes_load (hset : Setting code scope ctx env frame) {name : String} {l : LocalSlot}
    {kind : Kind} (hl : scope.locals.find name = .ok l) (hkind : l.type.kind? = some kind)
    (stack : List (Value A)) :
  Realizes w code (fun p => State.mk p stack frame) (Gen.emitChecked (Checked.load l.slot l.type))
    (do return some (← Comp.require (env.vars name)))
    (fun p v => State.mk p (v.toList ++ stack) frame)
  := by
  have hfind := Locals.find_eq_ok.mp hl
  obtain rfl : l.name = name := by simpa using List.find?_some hfind
  have hload := hset.holds.var l (List.mem_of_find?_eq_some hfind) kind hkind
  apply Realizes.emitChecked hset.placed.handlers
  intro i hi heap
  rw [Checked.load, Ty.kind?_eq_some.mp hkind] at hi
  obtain rfl := Except.ok.inj hi
  rw [ofEnds_require, World.act_load, hload]

/-- A call takes its arguments from the stack and leaves its result. -/
theorem realizes_call (hplaced : Placed code) (owner : Ty) (name : String) (type : MethodType)
    (mode : InvokeMode) {sig : Signature}
    (hsig : (callOp owner name type mode).signature? = some sig)
    {args : List (Value A)} (hargs : args.length = sig.operands.length) (stack : List (Value A)) :
  Realizes w code (fun p => State.mk p (args.reverse ++ stack) frame)
    (Gen.emit (Checked.invoke owner name type mode)) (w.call (callOp owner name type mode) args)
    (fun p v => State.mk p (v.toList ++ stack) frame)
  := by
  apply Realizes.operate (x := .ok _) hplaced.handlers _ hsig args stack hargs
  rintro i hi
  obtain rfl := Except.ok.inj hi
  intro _ _ _
  rfl

/-- A new object is left on the stack twice: one copy is the receiver of the constructor, and the
other is left after it. -/
theorem realizes_new (hplaced : Placed code) {type : Ty} {params : List Ty} {kinds : List Kind}
    {g : Gen Unit} {c : Comp H A (List (Value A))}
    (hargs : ∀ stack, Realizes w code (fun p => State.mk p stack frame) g c
      (fun p vs => State.mk p (vs.reverse ++ stack) frame))
    (hgives : c.Gives fun vs => vs.map Value.kind = kinds)
    (hparams : (params.map Ty.erasure).mapM Ty.kind? = some kinds) (stack : List (Value A)) :
  Realizes w code (fun p => State.mk p stack frame)
    (do
      Gen.emitChecked (Checked.new type)
      Gen.emit (.dup 1)
      g
      Gen.emit (Checked.invoke type "<init>" ⟨params, .void⟩ .special)
      return type : Gen Ty)
    (do
      let object ← (w.call (.new type.erasure) []).value
      let args ← c
      let _ ← w.call (callOp type "<init>" ⟨params, .void⟩ .special) (object :: args)
      return some object)
    (fun p v => State.mk p (v.toList ++ stack) frame)
  := by
  have hnew : (HeapOp.new type.erasure).signature? = some ⟨[], some .reference⟩ := rfl
  have hobject : Realizes w code (fun p => State.mk p stack frame)
      (Gen.emitChecked (Checked.new type)) (w.call (.new type.erasure) [])
      (fun p v => State.mk p (v.toList ++ stack) frame) := by
    apply Realizes.operate hplaced.handlers _ hnew [] stack rfl
    intro i hi
    unfold Checked.new at hi
    split at hi
    · obtain rfl := Except.ok.inj hi
      intro _ _ _
      rfl
    · contradiction
  have hkind := World.gives_call w hnew []
  apply (hobject.value hkind).bind hkind.value
  intro _ object hobject
  apply Realizes.silent (x := .ok _) hplaced.handlers
  · rintro i hi heap
    obtain rfl := Except.ok.inj hi
    have hslots : object.slots = 1 := by
      rw [Value.slots, hobject]
      rfl
    rw [World.act_dup, ← hslots, dup?_slots]
    rfl
  · apply (hargs _).bind hgives
    intro _ args hargs
    have hsig : (callOp type "<init>" ⟨params, .void⟩ .special).signature?
      = some ⟨.reference :: kinds, none⟩ := signature_callOp hparams rfl
    have hlength : (object :: args).length = (Kind.reference :: kinds).length := by
      rw [← hargs, List.length_cons, List.length_cons, List.length_map]
    have hstack : args.reverse ++ (object :: object :: stack)
        = (object :: args).reverse ++ (object :: stack) := by
      rw [List.reverse_cons, List.append_assoc, List.singleton_append]
    apply Realizes.then_pure
    rw [hstack]
    apply (realizes_call hplaced type "<init>" ⟨params, .void⟩ .special hsig hlength _).map_of
      (World.gives_call w hsig _)
    intro p v hv
    obtain rfl := Option.map_eq_none_iff.mp hv
    rfl

/-- The code of a cast is sound if that of its operand is. -/
theorem realizes_cast (hset : Setting code scope ctx env frame) {value : Expr} {type : Ty}
    {kind : Kind} {r : Option Kind}
    (hvalue : (value.code scope).Sound w code frame (value.eval w ctx env) (some kind))
    (hgives : ((Expr.cast value type).eval w ctx env).Gives fun v => v.map Value.kind = r) :
  ((Expr.cast value type).code scope).Sound w code frame ((Expr.cast value type).eval w ctx env) r
  := by
  rw [Expr.code]
  apply ExprCode.Sound.ofValue _ hgives
  intro stack
  rw [Expr.eval]
  apply ((hvalue.value stack).value hvalue.gives).bind_of (Q := fun type => type = value.type ctx)
    (Expr.yields_type hset.fits value _ _ _) hvalue.gives.value
  rintro _ v rfl hv
  apply Realizes.then_pure
  apply realizes_castCode hset.placed

/-- The code of a conversion is sound if that of its operand is. -/
theorem realizes_convert (hset : Setting code scope ctx env frame) {value : Expr}
    {source target : Ty} {kind : Kind} {r : Option Kind}
    (hvalue : (value.code scope).Sound w code frame (value.eval w ctx env) (some kind))
    (hgives : ((Expr.convert value source target).eval w ctx env).Gives
      fun v => v.map Value.kind = r) :
  ((Expr.convert value source target).code scope).Sound w code frame
    ((Expr.convert value source target).eval w ctx env) r
  := by
  rw [Expr.code]
  apply ExprCode.Sound.ofValue _ hgives
  intro stack
  rw [Expr.eval]
  apply hvalue.andThen
  intro _ v hv
  change Realizes w code _ (if _ then _ else _) _ _
  split
  · apply Realizes.then_pure
    apply Realizes.pure
    intro place
    rfl
  · apply Realizes.then_pure
    apply realizes_conversion hset.placed

/-! ### Expressions -/

mutual

/-- The code of a well-typed expression is sound. -/
theorem Expr.Pushes.sound (hset : Setting code scope ctx env frame) :
    ∀ {e : Expr} {r : Option Kind}, Expr.Pushes ctx e r →
      (e.code scope).Sound w code frame (e.eval w ctx env) r
  | _, _, .literal h => by
      rw [Expr.code, Expr.eval]
      apply Literal.sound hset.placed _ h
  | _, _, .var htype hkind => by
      rw [Expr.code]
      apply ExprCode.Sound.ofValue _ (Expr.Pushes.gives hset.respects (.var htype hkind))
      intro stack
      rw [Expr.eval]
      apply Realizes.require
      intro l hl
      apply Realizes.then_pure
      apply realizes_load hset hl
      rw [hset.fits.typeOf?, Locals.find_eq_ok.mp hl] at htype
      obtain rfl := Option.some.inj htype
      apply hkind
  | _, _, .self => by
      rw [Expr.code]
      apply ExprCode.Sound.ofValue _ (Expr.Pushes.gives hset.respects .self)
      intro stack
      rw [Expr.eval]
      split
      · apply Realizes.fail
      · next hstatic =>
        apply Realizes.then_pure
        apply Realizes.emitChecked (x := .ok _) hset.placed.handlers
        rintro i hi heap
        obtain rfl := Except.ok.inj hi
        change Action.ofStack? frame heap ((frame.load? 0 .reference).map _) = _
        rw [hset.holds.self (Bool.eq_false_iff.mpr hstatic)]
        rfl
  | _, _, .field hkind hobject => by
      rw [Expr.code]
      apply ExprCode.Sound.ofValue _ (Expr.Pushes.gives hset.respects (.field hkind hobject))
      intro stack
      rw [Expr.eval, Expr.valueIfAny_eq, Expr.evalIfAny_eq]
      apply (hobject.realizes hset stack).bind (hobject.gives hset.respects)
      intro _ args hargs
      apply Realizes.then_pure
      apply Realizes.operate hset.placed.handlers _ (signature_getField hkind _) args stack
      · rw [← hargs, List.length_map]
      · intro i hi
        obtain rfl := eq_of_checked hi
        intro _ _ _
        rfl
  | _, _, .element hkind harray hindex => by
      rw [Expr.code]
      apply ExprCode.Sound.ofValue _
        (Expr.Pushes.gives hset.respects (.element hkind harray hindex))
      intro stack
      rw [Expr.eval]
      apply (harray.sound hset).andThen
      intro _ a ha
      apply (hindex.sound hset).andThen
      intro _ n hn
      apply Realizes.then_pure
      apply Realizes.operate hset.placed.handlers _ (signature_arrayLoad hkind) [a, n] stack rfl
      intro i hi
      obtain rfl := eq_of_checked hi
      intro _ _ _
      rfl
  | _, _, .length harray => by
      rw [Expr.code]
      apply ExprCode.Sound.ofValue _ (Expr.Pushes.gives hset.respects (.length harray))
      intro stack
      rw [Expr.eval]
      apply (harray.sound hset).andThen
      intro _ a ha
      have hsig : HeapOp.arrayLength.signature? = some ⟨[.reference], some .int⟩ := rfl
      apply Realizes.then_pure
      apply Realizes.operate (x := .ok _) hset.placed.handlers _ hsig [a] stack rfl
      rintro i hi
      obtain rfl := Except.ok.inj hi
      intro _ _ _
      rfl
  | _, _, .invoke hparams hresult hreceiver hargs => by
      rw [Expr.code]
      apply ExprCode.Sound.ofValue _
        (Expr.Pushes.gives hset.respects (.invoke hparams hresult hreceiver hargs))
      intro stack
      rw [Expr.eval, Expr.valueIfAny_eq, Expr.evalIfAny_eq]
      apply Realizes.require
      intro _ _
      apply (hreceiver.realizes hset stack).bind (hreceiver.gives hset.respects)
      intro _ receiver hreceiver
      apply (hargs.realizes hset _).bind (hargs.gives hset.respects)
      intro _ args hargs
      apply Realizes.then_pure
      rw [← List.append_assoc, ← List.reverse_append]
      apply realizes_call hset.placed _ _ _ _ (signature_callOp hparams hresult)
      rw [← hargs, ← hreceiver, ← List.map_append, List.length_map]
  | _, _, .new hparams hargs => by
      rw [Expr.code]
      apply ExprCode.Sound.ofValue _ (Expr.Pushes.gives hset.respects (.new hparams hargs))
      intro stack
      rw [Expr.eval]
      apply realizes_new hset.placed (hargs.realizes hset) (hargs.gives hset.respects) hparams
  | _, _, @Expr.Pushes.newArray _ type _ hlengths => by
      cases type with
      | array elem =>
          rw [Expr.code]
          apply ExprCode.Sound.ofValue _ (Expr.Pushes.gives hset.respects (.newArray hlengths))
          intro stack
          rw [Expr.eval]
          apply (hlengths.realizes hset stack).bind (hlengths.gives hset.respects)
          intro _ sizes hsizes
          apply Realizes.then_pure
          apply realizes_newArrayCode hset.placed
          rw [← List.length_map Value.kind, hsizes, List.length_replicate]
      | _ =>
          rw [Expr.code]
          · apply ExprCode.Sound.ofValue _ (Expr.Pushes.gives hset.respects (.newArray hlengths))
            intro stack
            apply Realizes.fail
          · intro elem h
            contradiction
  | _, _, .neg hkind hoperand => by
      rw [Expr.code]
      apply ExprCode.Sound.ofValue _ (Expr.Pushes.gives hset.respects (.neg hkind hoperand))
      intro stack
      rw [Expr.eval, hkind]
      apply (hoperand.sound hset).andThen
      intro _ v hv
      apply Realizes.then_pure
      apply Realizes.emitChecked hset.placed.handlers
      intro i hi heap
      obtain rfl := Checked.neg_eq_ok (Ty.kind?_eq_some.mp hkind) hi
      apply (ofEnds_require frame stack _ heap).symm
  | _, _, .not hoperand => by
      rw [Expr.code, Expr.eval]
      apply ExprCode.Sound.ofJump hset.placed
      apply ((hoperand.sound hset).jump rfl).not
  | _, _, .arith hkind hleft hright => by
      rw [Expr.code]
      apply ExprCode.Sound.ofValue _ (Expr.Pushes.gives hset.respects (.arith hkind hleft hright))
      intro stack
      rw [Expr.eval, hkind]
      apply (hleft.sound hset).andThen
      intro _ x hx
      apply (hright.sound hset).andThen
      intro _ y hy
      apply Realizes.then_pure
      apply Realizes.emitChecked hset.placed.handlers
      intro i hi heap
      obtain rfl := Checked.arith_eq_ok (Ty.kind?_eq_some.mp hkind) hi
      apply (ofEnds_some frame stack _ heap).symm
  | _, _, @Expr.Pushes.logic _ op _ _ hleft hright => by
      rw [Expr.eval]
      cases op with
      | and =>
          rw [Expr.code]
          apply ExprCode.Sound.ofJump hset.placed
          apply ((hleft.sound hset).jump rfl).and hset.placed ((hright.sound hset).jump rfl)
      | or =>
          rw [Expr.code]
          apply ExprCode.Sound.ofJump hset.placed
          apply ((hleft.sound hset).jump rfl).or hset.placed ((hright.sound hset).jump rfl)
  | _, _, .compare hkind hleft hright => by
      rw [Expr.code, Expr.eval]
      apply ExprCode.Sound.ofJump hset.placed
      apply JumpSound.compare hset.placed _ hkind (hleft.sound hset) (hright.sound hset)
  | _, _, .instanceOf hvalue => by
      rw [Expr.code]
      apply ExprCode.Sound.ofValue _ (Expr.Pushes.gives hset.respects (.instanceOf hvalue))
      intro stack
      rw [Expr.eval]
      apply (hvalue.sound hset).andThen
      intro _ v hv
      have hsig : ∀ type, (HeapOp.instanceOf type).signature?
        = some ⟨[.reference], some .int⟩ := fun _ => rfl
      apply Realizes.then_pure
      apply Realizes.operate hset.placed.handlers _ (hsig _) [v] stack rfl
      intro i hi
      obtain rfl := eq_of_reference hi
      intro _ _ _
      rfl
  | _, _, .castSame htype hvalue =>
      realizes_cast hset (hvalue.sound hset)
        (Expr.Pushes.gives hset.respects (.castSame htype hvalue))
  | _, _, .castPrimitive htype hne hvalue =>
      realizes_cast hset (hvalue.sound hset)
        (Expr.Pushes.gives hset.respects (.castPrimitive htype hne hvalue))
  | _, _, .castReference htypes hvalue =>
      realizes_cast hset (hvalue.sound hset)
        (Expr.Pushes.gives hset.respects (.castReference htypes hvalue))
  | _, _, .convertSame hvalue =>
      realizes_convert hset (hvalue.sound hset)
        (Expr.Pushes.gives hset.respects (.convertSame hvalue))
  | _, _, .convert hne hvalue =>
      realizes_convert hset (hvalue.sound hset)
        (Expr.Pushes.gives hset.respects (.convert hne hvalue))

/-- Operands are left on the stack, the last one on top. -/
theorem Expr.PushesAll.realizes (hset : Setting code scope ctx env frame) :
    ∀ {es : List Expr} {kinds : List Kind}, Expr.PushesAll ctx es kinds → ∀ stack,
      Realizes w code (fun p => State.mk p stack frame) (Expr.valuesInOrder scope es)
        (Expr.evalAll w ctx env es) (fun p vs => State.mk p (vs.reverse ++ stack) frame)
  | _, _, .nil, stack => by
      apply Realizes.pure
      intro place
      rfl
  | _, _, .cons h hs, stack => by
      apply (h.sound hset).andThen
      intro _ v hv
      apply (hs.realizes hset (v :: stack)).map
      intro place vs
      rw [List.reverse_cons, List.append_assoc, List.singleton_append]

end

end ClassForge
