import ClassForge.Proofs.Source.Meaning

/-!
# Well-typed bodies

An expression is well typed if every operand in it is of the kind that its consumer takes.
What a well-typed expression gives is of the kind that it is said to have. The count of a
shift is an `int`, whatever is shifted.
-/

namespace ClassForge

open Machine

/-! ### Operations -/

theorem signature_getField {field : FieldRef} {kind : Kind} (h : field.type.kind? = some kind)
    (isStatic : Bool) :
  (HeapOp.getField field isStatic).signature? = some ⟨receiverKinds isStatic, some kind⟩
  := by
  rw [HeapOp.signature?, h]
  rfl

theorem signature_putField {field : FieldRef} {kind : Kind} (h : field.type.kind? = some kind)
    (isStatic : Bool) :
  (HeapOp.putField field isStatic).signature? = some ⟨receiverKinds isStatic ++ [kind], none⟩
  := by
  rw [HeapOp.signature?, h]
  rfl

theorem signature_arrayLoad {elem : Ty} {kind : Kind} (h : elem.kind? = some kind) :
  (HeapOp.arrayLoad elem).signature? = some ⟨[.reference, .int], some kind⟩
  := by
  rw [HeapOp.signature?, h]
  rfl

theorem signature_arrayStore {elem : Ty} {kind : Kind} (h : elem.kind? = some kind) :
  (HeapOp.arrayStore elem).signature? = some ⟨[.reference, .int, kind], none⟩
  := by
  rw [HeapOp.signature?, h]
  rfl

theorem signature_callOp {owner : Ty} {name : String} {type : MethodType} {mode : InvokeMode}
    {kinds : List Kind} {result : Option Kind}
    (hparams : type.erasure.params.mapM Ty.kind? = some kinds)
    (hresult : resultKind? type.erasure.result = some result) :
  (callOp owner name type mode).signature?
    = some ⟨receiverKinds (mode = .static) ++ kinds, result⟩
  := by
  rw [callOp, HeapOp.signature?, hparams, hresult]
  rfl

/-- An array is created from `int` lengths, as many as are given unless they are too many. -/
theorem signature_newArrayOp (type : Ty) (count : Nat) :
  ∃ n, (newArrayOp type count).signature? = some ⟨List.replicate n .int, some .reference⟩
    ∧ (count ≤ 255 → n = count)
  := by
  unfold newArrayOp
  split
  · use 1, rfl
    intro _
    rfl
  · use (UInt8.ofNat count).toNat, rfl
    intro hle
    apply UInt8.toNat_ofNat_of_lt (Nat.lt_succ_of_le hle)

/-! ### Expressions -/

mutual

/-- The expression is well typed and gives a value of the kind, or none. -/
inductive Expr.Pushes (ctx : Context) : Expr → Option Kind → Prop
  | literal {l kind} :
      l.type.kind? = some kind → Expr.Pushes ctx (.literal l) (some kind)
  | var {name type kind} :
      ctx.typeOf? name = some type → type.kind? = some kind →
      Expr.Pushes ctx (.var name) (some kind)
  | self :
      Expr.Pushes ctx .self (some .reference)
  | field {owner name type object kind} :
      type.erasure.kind? = some kind →
      Expr.PushesAll ctx object.toList (receiverKinds object.isNone) →
      Expr.Pushes ctx (.field owner name type object) (some kind)
  | element {array index elem kind} :
      elem.erasure.kind? = some kind → Expr.Pushes ctx array (some .reference) →
      Expr.Pushes ctx index (some .int) → Expr.Pushes ctx (.element array index elem) (some kind)
  | length {array} :
      Expr.Pushes ctx array (some .reference) → Expr.Pushes ctx (.length array) (some .int)
  | invoke {mode owner name type receiver args kinds result} :
      type.erasure.params.mapM Ty.kind? = some kinds →
      resultKind? type.erasure.result = some result →
      Expr.PushesAll ctx receiver.toList (receiverKinds (mode = .static)) →
      Expr.PushesAll ctx args kinds →
      Expr.Pushes ctx (.invoke mode owner name type receiver args) result
  | new {type params args kinds} :
      (params.map Ty.erasure).mapM Ty.kind? = some kinds → Expr.PushesAll ctx args kinds →
      Expr.Pushes ctx (.new type params args) (some .reference)
  | newArray {type lengths} :
      Expr.PushesAll ctx lengths (List.replicate lengths.length .int) →
      Expr.Pushes ctx (.newArray type lengths) (some .reference)
  | neg {operand type kind} :
      type.kind? = some kind → Expr.Pushes ctx operand (some kind) →
      Expr.Pushes ctx (.neg operand type) (some kind)
  | not {operand} :
      Expr.Pushes ctx operand (some .int) → Expr.Pushes ctx (.not operand) (some .int)
  | arith {op left right type kind} :
      type.kind? = some kind → Expr.Pushes ctx left (some kind) →
      Expr.Pushes ctx right (some (if op.isShift then .int else kind)) →
      Expr.Pushes ctx (.arith op left right type) (some kind)
  | logic {op left right} :
      Expr.Pushes ctx left (some .int) → Expr.Pushes ctx right (some .int) →
      Expr.Pushes ctx (.logic op left right) (some .int)
  | compare {condition left right type kind} :
      type.kind? = some kind → Expr.Pushes ctx left (some kind) →
      Expr.Pushes ctx right (some kind) →
      Expr.Pushes ctx (.compare condition left right type) (some .int)
  | instanceOf {value type} :
      Expr.Pushes ctx value (some .reference) → Expr.Pushes ctx (.instanceOf value type) (some .int)
  | castSame {value p kind} :
      value.type ctx = .primitive p → Expr.Pushes ctx value (some kind) →
      Expr.Pushes ctx (.cast value (.primitive p)) (some kind)
  | castPrimitive {value p q} :
      value.type ctx = .primitive p → p ≠ q → Expr.Pushes ctx value (some p.kind) →
      Expr.Pushes ctx (.cast value (.primitive q)) (some q.kind)
  | castReference {value type} :
      ((value.type ctx).primitive?.isSome && type.primitive?.isSome) = false →
      Expr.Pushes ctx value (some .reference) →
      Expr.Pushes ctx (.cast value type) (some .reference)
  | convertSame {value type kind} :
      Expr.Pushes ctx value (some kind) → Expr.Pushes ctx (.convert value type type) (some kind)
  | convert {value p q} :
      p ≠ q → Expr.Pushes ctx value (some p.kind) →
      Expr.Pushes ctx (.convert value (.primitive p) (.primitive q)) (some q.kind)

/-- The expressions are well typed and give values of the kinds. -/
inductive Expr.PushesAll (ctx : Context) : List Expr → List Kind → Prop
  | nil : Expr.PushesAll ctx [] []
  | cons {e es kind kinds} :
      Expr.Pushes ctx e (some kind) → Expr.PushesAll ctx es kinds →
      Expr.PushesAll ctx (e :: es) (kind :: kinds)

end

/-- The values of locals are of the kinds of their types. -/
def Env.Respects {A : Type} (env : Env A) (ctx : Context) : Prop :=
  ∀ name type kind v, ctx.typeOf? name = some type → type.kind? = some kind →
    env.vars name = some v → v.kind = kind

variable {H A : Type} {w : World H A} {ctx : Context} {env : Env A}

/-- A computation that always gives a value of a kind gives it as a value. -/
theorem Machine.Comp.Gives.value {x : Comp H A (Option (Value A))} {kind : Kind}
    (h : x.Gives fun v => v.map Value.kind = some kind) :
  x.value.Gives fun v => v.kind = kind
  := by
  rw [Comp.value]
  apply h.bind
  intro v hv
  apply Comp.Gives.require
  rintro a rfl
  apply Option.some.inj hv

theorem Machine.Comp.Gives.some {x : Comp H A (Value A)} {kind : Kind}
    (h : x.Gives fun v => v.kind = kind) :
  Comp.Gives (do return some (← x)) fun v => v.map Value.kind = some kind
  := by
  apply h.bind
  intro v hv
  apply Comp.Gives.pure
  rw [Option.map_some, hv]

theorem Machine.Comp.gives_ofTruth (x : Comp H A Bool) :
  (Comp.ofTruth x).Gives fun v => v.map Value.kind = some .int
  := by
  apply Comp.Gives.after
  intro b
  apply Comp.Gives.pure
  rfl

/-- A literal gives a value of the kind of its type. -/
theorem Literal.gives_eval {l : Literal} {kind : Kind} (h : l.type.kind? = some kind) :
  (l.eval w).Gives fun v => v.map Value.kind = some kind
  := by
  cases l with
  | classOf type =>
      cases type with
      | primitive p =>
          obtain rfl := Option.some.inj h
          have hsig : ∀ owner name, (HeapOp.getField ⟨owner, name, .object .classObject []⟩
            true).signature? = some ⟨[], some .reference⟩ := fun _ _ => rfl
          rw [Literal.eval]
          apply World.gives_call w (hsig _ _)
      | _ =>
          apply Comp.Gives.pure
          apply h
  | _ =>
      apply Comp.Gives.pure
      apply h

theorem Machine.World.gives_convert (w : World H A) (p q : Primitive) (v : Value A) :
  (w.convert (.primitive p) (.primitive q) v).Gives fun v => v.kind = q.kind
  := by
  apply Comp.Gives.require
  intro v'
  apply Value.kind_of_convert?

variable [DecidableEq A]

/-- A well-typed expression gives a value of its kind. -/
theorem Expr.Pushes.gives (henv : env.Respects ctx) {e : Expr} {r : Option Kind}
    (h : Expr.Pushes ctx e r) :
  (e.eval w ctx env).Gives fun v => v.map Value.kind = r
  := by
  cases h with
  | literal h =>
      rw [Expr.eval]
      apply Literal.gives_eval h
  | @var name type kind htype hkind =>
      rw [Expr.eval]
      apply Comp.Gives.some
      apply Comp.Gives.require
      intro v hv
      apply henv name type kind v htype hkind hv
  | self =>
      rw [Expr.eval]
      apply Comp.Gives.pure
      rfl
  | field hkind _ =>
      rw [Expr.eval]
      apply Comp.Gives.after
      intro receiver
      apply World.gives_call w (signature_getField hkind _)
  | element hkind _ _ =>
      rw [Expr.eval]
      apply Comp.Gives.after
      intro a
      apply Comp.Gives.after
      intro i
      apply World.gives_call w (signature_arrayLoad hkind)
  | length _ =>
      rw [Expr.eval]
      apply Comp.Gives.after
      intro a
      have hsig : HeapOp.arrayLength.signature? = some ⟨[.reference], some .int⟩ := rfl
      apply World.gives_call w hsig
  | invoke hparams hresult _ _ =>
      rw [Expr.eval]
      apply Comp.Gives.after
      intro receiver
      apply Comp.Gives.after
      intro args
      apply World.gives_call w (signature_callOp hparams hresult)
  | @new type _ _ _ _ _ =>
      rw [Expr.eval]
      have hsig : (HeapOp.new type.erasure).signature? = some ⟨[], some .reference⟩ := rfl
      apply (World.gives_call w hsig []).value.bind
      intro object hobject
      apply Comp.Gives.after
      intro args
      apply Comp.Gives.after
      intro _
      apply Comp.Gives.pure
      rw [Option.map_some, hobject]
  | newArray _ =>
      rw [Expr.eval]
      apply Comp.Gives.after
      intro sizes
      obtain ⟨n, hsig, -⟩ := signature_newArrayOp _ _
      apply World.gives_call w hsig
  | @neg _ _ kind hkind _ =>
      rw [Expr.eval, hkind]
      apply Comp.Gives.after
      intro v
      apply Comp.Gives.some
      apply Comp.Gives.require
      intro v'
      apply Value.kind_of_negate?
  | not _ =>
      rw [Expr.eval]
      apply Comp.gives_ofTruth
  | @arith op _ _ _ kind hkind _ _ =>
      rw [Expr.eval, hkind]
      apply Comp.Gives.after
      intro x
      apply Comp.Gives.after
      intro y
      apply (World.gives_arith w op kind x y).some
  | logic _ _ =>
      rw [Expr.eval]
      apply Comp.gives_ofTruth
  | compare _ _ _ =>
      rw [Expr.eval]
      apply Comp.gives_ofTruth
  | @instanceOf _ type _ =>
      rw [Expr.eval]
      apply Comp.Gives.after
      intro v
      have hsig : (HeapOp.instanceOf type.erasure).signature?
          = some ⟨[.reference], some .int⟩ := rfl
      apply World.gives_call w hsig
  | castSame htype h =>
      rw [Expr.eval, htype]
      apply (Expr.Pushes.gives henv h).value.bind
      intro v hv
      rw [World.cast_same]
      apply Comp.Gives.pure
      rw [Option.map_some, hv]
  | castPrimitive htype hne h =>
      rw [Expr.eval, htype]
      apply Comp.Gives.after
      intro v
      rw [World.cast_primitive w hne]
      apply (w.gives_convert _ _ v).some
  | @castReference _ type htypes _ =>
      rw [Expr.eval]
      apply Comp.Gives.after
      intro v
      have hsig : (HeapOp.checkCast type.erasure).signature?
        = some ⟨[.reference], some .reference⟩ := rfl
      rw [World.cast_reference w htypes]
      apply World.gives_call w hsig
  | convertSame h =>
      rw [Expr.eval]
      apply (Expr.Pushes.gives henv h).value.bind
      intro v hv
      rw [if_pos rfl]
      apply Comp.Gives.pure
      rw [Option.map_some, hv]
  | convert hne h =>
      rw [Expr.eval]
      apply Comp.Gives.after
      intro v
      rw [if_neg fun heq => hne (Ty.primitive.inj heq)]
      apply (w.gives_convert _ _ v).some

/-! ### Statements -/

/-- The statement is well typed. -/
inductive Stmt.Typed (ctx : Context) : Stmt → Prop
  | assignVar {name value type kind} :
      ctx.typeOf? name = some type → type.kind? = some kind → Expr.Pushes ctx value (some kind) →
      Stmt.Typed ctx (.assign (.var name) value)
  | assignField {owner name type object value kind} :
      type.erasure.kind? = some kind →
      Expr.PushesAll ctx object.toList (receiverKinds object.isNone) →
      Expr.Pushes ctx value (some kind) →
      Stmt.Typed ctx (.assign (.field owner name type object) value)
  | assignElement {array index elem value kind} :
      elem.erasure.kind? = some kind → Expr.Pushes ctx array (some .reference) →
      Expr.Pushes ctx index (some .int) → Expr.Pushes ctx value (some kind) →
      Stmt.Typed ctx (.assign (.element array index elem) value)
  | eval {e r} :
      resultKind? (e.type ctx) = some r → Expr.Pushes ctx e r → Stmt.Typed ctx (.eval e)
  | ret :
      Stmt.Typed ctx (.ret none)
  | retValue {value kind} :
      ctx.result.kind? = some kind → Expr.Pushes ctx value (some kind) →
      Stmt.Typed ctx (.ret (some value))
  | throw {value} :
      Expr.Pushes ctx value (some .reference) → Stmt.Typed ctx (.throw value)
  | goto {target} :
      Stmt.Typed ctx (.goto target)
  | branch {condition target} :
      Expr.Pushes ctx condition (some .int) → Stmt.Typed ctx (.branch condition target)
  | label {l} :
      Stmt.Typed ctx (.label l)
  | lock {value} :
      Expr.Pushes ctx value (some .reference) → Stmt.Typed ctx (.lock value)
  | unlock {value} :
      Expr.Pushes ctx value (some .reference) → Stmt.Typed ctx (.unlock value)
  | switch {key cases fallback} :
      Expr.Pushes ctx key (some .int) → Stmt.Typed ctx (.switch key cases fallback)

/-- The labels that a statement may jump to. -/
def Stmt.targets : Stmt → List Label
  | .goto target | .branch _ target => [target]
  | .switch _ cases fallback => fallback :: cases.map (·.2)
  | _ => []

/-- A body whose statements are well typed and jump to labels of the body only. -/
structure Body.WellTyped (ctx : Context) (body : Body) : Prop where
  typed : ∀ s ∈ body.stmts, s.Typed ctx
  targets : ∀ s ∈ body.stmts, ∀ l ∈ s.targets, .label l ∈ body.stmts

end ClassForge
