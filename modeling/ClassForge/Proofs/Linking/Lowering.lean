import ClassForge.Build.Plan
import ClassForge.Proofs.Linking.Generation
import ClassForge.Proofs.Lowering.Labels

/-!
# Linked code from methods

What lowering accepts is linked: it has checked that every label stands once and that every
jump and every trap refers to a label that stands somewhere. Its switches are those of the
statements, made from as many cases. The optimizers keep code linked and put in no switches.
-/

namespace ClassForge

/-! ### Labels and traps -/

/-- A label that has a place already does not stand in the code, any other at most once. -/
theorem count_label_of_positionsFrom {positions positions' : Positions} {index : Nat}
    {code : List Instruction} (h : positionsFrom positions index code = .ok positions')
    (l : Label) :
  code.count (.label l) ≤ 1 ∧ (l ∈ positions → code.count (.label l) = 0)
  := by
  fun_induction positionsFrom positions index code with
  | case1 positions index => simp
  | case2 positions index l' rest hcontains => contradiction
  | case3 positions index l' rest hcontains ih =>
      obtain ⟨hle, hzero⟩ := ih h
      by_cases hl : l' = l
      · subst hl
        rw [List.count_cons_self, hzero (by simp)]
        constructor
        · apply Nat.le_refl
        · intro hmem
          contradiction
      · rw [List.count_cons_of_ne (by simpa using hl)]
        use hle
        intro hmem
        apply hzero
        simp [hmem]
  | case4 positions index i rest hi ih =>
      rw [List.count_cons_of_ne (hi l)]
      apply ih h

variable {positions : Positions} {code : List Instruction}

theorem mem_label_of_mem_positions (h : positionsFrom ∅ 0 code = .ok positions) {l : Label}
    (hl : l ∈ positions) :
  .label l ∈ code
  := by
  have hplace := Std.HashMap.getElem?_eq_some_getElem hl
  apply List.mem_of_getElem? ((getElem?_of_positions h).mp hplace)

/-- Jumps that were checked go to labels that have a place. -/
theorem mem_positions_of_checkTargets (h : checkTargets positions code = .ok ())
    {i : Instruction} (hi : i ∈ code) {l : Label} (hl : l ∈ i.targets) :
  l ∈ positions
  := by
  unfold checkTargets at h
  split at h
  · contradiction
  · next hnone =>
    have hfound := List.find?_eq_none.mp hnone l (List.mem_flatMap.mpr ⟨i, hi, hl⟩)
    simpa using hfound

/-- The labels of a trap have places, and its handler has those of the range. -/
theorem Trap.handlerAt_eq_ok {t : Trap} {h : Handler} (hh : t.handlerAt positions = .ok h) :
  positions[t.start]? = some h.start ∧ positions[t.stop]? = some h.stop
    ∧ h.target ∈ positions
  := by
  obtain ⟨start, hstart, hh⟩ := Except.bind_eq_ok_iff.mp hh
  obtain ⟨stop, hstop, hh⟩ := Except.bind_eq_ok_iff.mp hh
  obtain ⟨target, htarget, hh⟩ := Except.bind_eq_ok_iff.mp hh
  split at hh
  · contradiction
  · obtain rfl := Except.ok.inj hh
    obtain ⟨hmem, -⟩ := Std.HashMap.getElem?_eq_some_iff.mp (trapPosition_eq_ok.mp htarget)
    use trapPosition_eq_ok.mp hstart, trapPosition_eq_ok.mp hstop

/-! ### What lowering refuses -/

theorem positionsFrom_failsOnly (positions : Positions) (index : Nat) (code : List Instruction) :
  FailsOnly (Unsupported.isForeseen · = true) (positionsFrom positions index code)
  := by
  fun_induction positionsFrom positions index code with
  | case1 => apply FailsOnly.ok
  | case2 => exact FailsOnly.error rfl
  | case3 positions index l rest hcontains ih => apply ih
  | case4 positions index i rest hi ih => apply ih

theorem trapPosition_failsOnly (positions : Positions) (l : Label) :
  FailsOnly (Unsupported.isForeseen · = true) (trapPosition positions l)
  := by
  unfold trapPosition
  split
  · apply FailsOnly.ok
  · exact FailsOnly.error rfl

/-- Traps are refused only for what their labels are. -/
theorem resolveTraps_failsOnly (code : List Instruction) (traps : List Trap) :
  FailsOnly (Unsupported.isForeseen · = true) (resolveTraps code traps)
  := by
  apply (positionsFrom_failsOnly ∅ 0 code).bind
  intro positions _
  have htargets : FailsOnly (Unsupported.isForeseen · = true) (checkTargets positions code) := by
    unfold checkTargets
    split
    · exact FailsOnly.error rfl
    · apply FailsOnly.ok
  apply htargets.bind
  intro _ _
  apply FailsOnly.mapM
  intro t _
  apply (trapPosition_failsOnly positions t.start).bind
  intro start _
  apply (trapPosition_failsOnly positions t.stop).bind
  intro stop _
  apply (trapPosition_failsOnly positions t.handler).bind
  intro _ _
  split
  · exact FailsOnly.error rfl
  · apply FailsOnly.ok

/-- Locals are refused only for what is foreseen. -/
theorem Locals.addAll_failsOnly (locals : Locals) (ls : List Local) :
  FailsOnly (Unsupported.isForeseen · = true) (locals.addAll ls)
  := by
  induction ls generalizing locals with
  | nil => apply FailsOnly.ok
  | cons l ls ih =>
      have hadd : FailsOnly (Unsupported.isForeseen · = true) (locals.add l) := by
        unfold Locals.add
        split
        · exact FailsOnly.error rfl
        · split
          · exact FailsOnly.error rfl
          · split
            · exact FailsOnly.error rfl
            · apply FailsOnly.ok
      rw [Locals.addAll, List.foldlM_cons]
      apply hadd.bind
      intro locals' _
      apply ih

theorem Locals.ofMethod_failsOnly (m : Method) (body : Body) :
  FailsOnly (Unsupported.isForeseen · = true) (Locals.ofMethod m body)
  := by
  apply (Locals.addAll_failsOnly _ _).bind
  intro params _
  apply Locals.addAll_failsOnly

/-! ### Methods -/

/-- No array is created in the method whose elements would have no values. -/
def Method.ArraysValued (m : Method) : Prop :=
  ∀ body ∈ m.body, ∀ s ∈ body.stmts, ∀ e ∈ s.operands, e.ArraysValued

/-- A return at most is added to the code of a body. -/
theorem mem_withReturn {result : Ty} {i : Instruction} (h : i ∈ withReturn result code) :
  i ∈ code ∨ i = .ret none
  := by
  unfold withReturn at h
  split at h
  · left
    apply h
  · left
    apply h
  · split at h
    · apply (List.mem_append.mp h).imp_right List.mem_singleton.mp
    · left
      apply h

variable {self : Ty} {m : Method}

/-- The statements of a method whose arrays have values give code that can be encoded. -/
theorem Method.ArraysValued.stmts_regular (h : m.ArraysValued) {body : Body}
    (hbody : m.body = some body) (scope : Scope) :
  (Gen.forEach (Stmt.code scope) body.stmts).Regular Instruction.Encodable
  := by
  have hscope : scope.Allows Instruction.Encodable := by
    apply Scope.allows_of_access
    rintro i hi elem rfl
    contradiction
  apply Gen.Regular.forEach
  intro s hs
  apply Stmt.code_regular Gen.lenient_encodable hscope s
  · intro e he
    apply (h body hbody s hs e he).createsOnly
  · intro l _
    nofun
  · intro switch _
    nofun

/-- A method is refused only for what is in it. -/
theorem Method.ArraysValued.lowerBody_failsOnly (h : m.ArraysValued) :
  FailsOnly CompileError.Foreseen (m.lowerBody self)
  := by
  unfold Method.lowerBody
  split
  · exact FailsOnly.error rfl
  · next body hbody =>
    apply FailsOnly.bind (FailsOnly.mapError (Locals.ofMethod_failsOnly m body))
    intro locals _
    apply ((h.stmts_regular hbody ⟨self, m, locals⟩).failsOnly 0 0).bind
    intro emitted _
    apply FailsOnly.bind (FailsOnly.mapError (resolveTraps_failsOnly _ body.traps))
    intro handlers _
    apply FailsOnly.ok

/-- The code of a method is linked if it can be encoded. -/
theorem Method.linked_of_encodable {code : MethodCode} (hcode : m.lowerBody self = .ok code)
    (hencodable : ∀ i ∈ code.instructions, i.Encodable) :
  code.Linked
  := by
  obtain ⟨body, locals, out, handlers, -, -, -, hhandlers, rfl⟩ := Method.lowerBody_eq_ok hcode
  obtain ⟨positions, hpositions, htargets, hhandlers⟩ := resolveTraps_eq_ok hhandlers
  use hencodable
  · intro l
    apply (count_label_of_positionsFrom hpositions l).1
  · intro i hi l hl
    apply mem_label_of_mem_positions hpositions (mem_positions_of_checkTargets htargets hi hl)
  · intro handler hhandler
    obtain ⟨t, -, ht⟩ := (Except.mapM_eq_ok_iff.mp hhandlers).exists_of_mem_right hhandler
    obtain ⟨hstart, hstop, htarget⟩ := Trap.handlerAt_eq_ok ht
    have hle {l : Label} {place : Nat} (hplace : positions[l]? = some place) :
        place ≤ (withReturn m.result out.code).length := by
      obtain ⟨hlt, -⟩ := List.getElem?_eq_some_iff.mp ((getElem?_of_positions hpositions).mp hplace)
      apply Nat.le_of_lt hlt
    use hle hstart, hle hstop
    apply mem_label_of_mem_positions hpositions htarget

/-- A method whose arrays have values is lowered to linked code. -/
theorem Method.ArraysValued.linked_of_lowerBody {code : MethodCode} (h : m.ArraysValued)
    (hcode : m.lowerBody self = .ok code) :
  code.Linked
  := by
  apply Method.linked_of_encodable hcode
  obtain ⟨body, locals, out, handlers, hbody, -, hout, -, rfl⟩ := Method.lowerBody_eq_ok hcode
  intro i hi
  obtain hi | rfl := mem_withReturn hi
  · apply (h.stmts_regular hbody ⟨self, m, locals⟩).emits hout i hi
  · nofun

/-! ### Switches -/

/-- No switch in the body has as many as 2^28 cases. -/
def Body.SwitchesModerate (body : Body) : Prop :=
  ∀ key cases fallback, .switch key cases fallback ∈ body.stmts → cases.length < 268435456

/-- What is no switch is lenient as a property of switches alone. -/
theorem Gen.lenient_switch (P : Switch → Prop) :
  Gen.Lenient fun i => ∀ s, i = .switch s → P s
  := by
  constructor
  · rintro i hi s rfl
    contradiction
  · intro n
    nofun

/-- The switches in the code of a method are made from the cases of its statements. -/
theorem Method.switchesMade_of_lower {body : Body} {code : MethodCode} (hbody : m.body = some body)
    (hmoderate : body.SwitchesModerate) (hlower : (m.lower self).outcome = .ok code) :
  SwitchesMade code.instructions
  := by
  obtain ⟨body', locals, out, handlers, hbody', -, hout, -, rfl⟩ :=
    Method.lowerBody_eq_ok (Method.lower_eq_ok.mp hlower)
  obtain rfl := Option.some.inj (hbody.symm.trans hbody')
  have hscope : (⟨self, m, locals⟩ : Scope).Allows fun i => ∀ s, i = .switch s → s.Moderate := by
    apply Scope.allows_of_access
    rintro i hi s rfl
    contradiction
  have hstmts : (Gen.forEach (Stmt.code ⟨self, m, locals⟩) body.stmts).Regular
      fun i => ∀ s, i = .switch s → s.Moderate := by
    apply Gen.Regular.forEach
    intro stmt hstmt
    apply Stmt.code_regular (Gen.lenient_switch Switch.Moderate) hscope stmt (by nofun) (by nofun)
    rintro switch ⟨key, cases, fallback, rfl, hswitch⟩ _ ⟨⟩
    exact ⟨fallback, cases, hmoderate key cases fallback hstmt, hswitch⟩
  intro s hs
  obtain hs | hs := mem_withReturn hs
  · apply hstmts.emits hout _ hs s rfl
  · contradiction

/-- The optimizer makes no large switches. -/
def Optimizer.KeepsSwitchesMade (optimizer : Optimizer) : Prop :=
  ∀ code, SwitchesMade code.instructions → SwitchesMade (optimizer.run code).instructions

theorem Optimizer.none_keepsSwitchesMade :
  Optimizer.none.KeepsSwitchesMade
  := by
  intro code h
  apply h

/-- The rewrites of the peephole optimizer make no switches. -/
theorem Optimizer.peephole_keepsSwitchesMade :
  Optimizer.peephole.KeepsSwitchesMade
  := by
  intro code h s hs
  have hall : ∀ i ∈ (Peephole.optimize code).instructions, ∀ s, i = .switch s → s.Moderate := by
    refine Peephole.optimize_forall ?_ code ?_
    · rintro window replacement hreplaces _ _ hmem s rfl
      apply absurd hmem (hreplaces.not_mem.2 s)
    · rintro _ hmem s rfl
      apply h s hmem
  apply hall _ hs s rfl

theorem Optimizer.keepsSwitchesMade {optimizer : Optimizer}
    (h : optimizer = .peephole ∨ optimizer = .none) :
  optimizer.KeepsSwitchesMade
  := by
  rcases h with rfl | rfl
  · apply Optimizer.peephole_keepsSwitchesMade
  · apply Optimizer.none_keepsSwitchesMade

/-! ### Plans -/

/-- An error can be expected wherever it happened. -/
theorem FailsOnly.blame {α : Type} {x : Except CompileError α}
    (h : FailsOnly CompileError.Foreseen x) (m : Method) :
  FailsOnly CompileError.Foreseen (x.mapError m.blame)
  := FailsOnly.mapError h

/-- The optimizer keeps code linked. -/
def Optimizer.KeepsLinked (optimizer : Optimizer) : Prop :=
  ∀ code, code.Linked → (optimizer.run code).Linked

theorem Optimizer.none_keepsLinked :
  Optimizer.none.KeepsLinked
  := by
  intro code h
  apply h

theorem Optimizer.peephole_keepsLinked :
  Optimizer.peephole.KeepsLinked
  := by
  intro code h
  apply Peephole.optimize_linked code h

variable {optimizer : Optimizer}

/-- The plan of a method whose arrays have values fails only for what is foreseen. -/
theorem Method.ArraysValued.plan_failsOnly (h : m.ArraysValued) :
  FailsOnly CompileError.Foreseen (m.plan self optimizer).outcome
  := by
  have hcode : FailsOnly CompileError.Foreseen (m.planCode self optimizer).outcome := by
    unfold Method.planCode
    split
    · exact FailsOnly.error rfl
    · exact FailsOnly.error rfl
    · apply FailsOnly.ok
    · rw [Traced.outcome_bind]
      have hlower : FailsOnly CompileError.Foreseen (m.lower self).outcome := by
        rw [Method.lower, Traced.outcome_bind]
        apply FailsOnly.bind h.lowerBody_failsOnly
        intro code _
        apply FailsOnly.ok
      apply hlower.bind
      intro code _
      apply FailsOnly.ok
  rw [Method.plan, Traced.outcome_bind]
  apply (hcode.blame m).bind
  intro code _
  apply FailsOnly.ok

/-- The code of a planned method is linked. -/
theorem Method.ArraysValued.linked_of_plan {p : MethodPlan} (h : m.ArraysValued)
    (hoptimizer : optimizer.KeepsLinked) (hplan : (m.plan self optimizer).outcome = .ok p) :
  ∀ code ∈ p.code, code.Linked
  := by
  rw [Method.plan, Traced.outcome_bind] at hplan
  obtain ⟨code?, hcode?, hplan⟩ := Except.bind_eq_ok_iff.mp hplan
  obtain rfl := Except.ok.inj hplan
  have hcode? := Except.mapError_eq_ok_iff.mp hcode?
  unfold Method.planCode at hcode?
  split at hcode?
  · contradiction
  · contradiction
  · obtain rfl := Except.ok.inj hcode?
    nofun
  · rw [Traced.outcome_bind] at hcode?
    obtain ⟨code, hlower, hcode?⟩ := Except.bind_eq_ok_iff.mp hcode?
    obtain rfl := Except.ok.inj hcode?
    have hlinked := h.linked_of_lowerBody (Method.lower_eq_ok.mp hlower)
    intro code' hcode'
    obtain rfl := Option.some.inj hcode'
    apply hoptimizer code hlinked

end ClassForge
