import ClassForge.Proofs.Linking.Lowering
import ClassForge.Proofs.Stack.Discipline

/-!
# References to labels

Labels are looked up in the code, where those of the statements stand beside those that were
made up for expressions. A jump or a trap of a method that has been lowered therefore refers to
one label of the code. It is the label of one statement, unless its name is reserved: then no
statement has this label, and the reference leads into the code of an expression. A branch on a
condition that is written down as false is left out, and its label is not looked up.
-/

namespace ClassForge

/-! ### Generators that refer to a label -/

/-- What the generator emits refers to the label. -/
abbrev Gen.Refers {α : Type} (x : Gen α) (l : Label) : Prop :=
  x.HasPart fun part => ∃ i ∈ part, l ∈ i.targets

namespace Gen.Refers

variable {l : Label}

theorem emit {i : Instruction} (hi : l ∈ i.targets) :
  (Gen.emit i).Refers l
  := HasPart.emit ⟨i, List.mem_singleton_self i, hi⟩

theorem emitChecked {x : Except InstructionError Instruction}
    (hx : ∀ i, x = .ok i → l ∈ i.targets) :
  (Gen.emitChecked x).Refers l
  := HasPart.emitChecked fun i hi => ⟨i, List.mem_singleton_self i, hx i hi⟩

end Gen.Refers

open Gen (HasPart Refers madeUp)

/-! ### Jumps -/

/-- Whether the jump for an expression, taken on this truth value, holds a branch to its label.
For what is written down there is none if it is the other truth value. -/
def Expr.branchesOn : Expr → Bool → Bool
  | .literal (.boolean b), onTrue => b == onTrue
  | .not operand, onTrue => operand.branchesOn !onTrue
  | .logic .and left right, onTrue =>
    (!onTrue && left.branchesOn onTrue) || right.branchesOn onTrue
  | .logic .or left right, onTrue => (onTrue && left.branchesOn onTrue) || right.branchesOn onTrue
  | _, _ => true

namespace ExprCode

variable {left right : ExprCode} {target : Label} {onTrue : Bool}

theorem ofValue_refers (value : Gen Ty) :
  ((ofValue value).jump target onTrue).Refers target
  := by
  apply HasPart.after
  intro type
  split
  · apply Refers.emit (List.mem_singleton_self target)
  · apply HasPart.fail

/-- The jump for a comparison refers to its label. -/
theorem jumpCompare_refers (condition : Condition) (type : Ty) :
  (jumpCompare condition left right type target onTrue).Refers target
  := by
  apply HasPart.after
  intro _
  apply HasPart.after
  intro _
  apply HasPart.after
  intro kind
  have hbranch : (Gen.emitChecked (Checked.branchIf type
      (if onTrue then condition else condition.negate) target)).Refers target :=
    Refers.emitChecked (by grind [Checked.branchIf, Instruction.targets])
  have htest : (Gen.emitChecked (Checked.compare type condition) >>= fun _ =>
      Gen.emit (.ifZero (if onTrue then condition else condition.negate) target)).Refers target :=
    HasPart.after fun _ => Refers.emit (List.mem_singleton_self target)
  cases kind with
  | int | reference => apply hbranch
  | long | float | double => apply htest

end ExprCode

/-- A jump with a branch to its label refers to it. -/
theorem Expr.jump_refers (scope : Scope) {target : Label} {e : Expr} {onTrue : Bool}
    (h : e.branchesOn onTrue = true) :
  ((e.code scope).jump target onTrue).Refers target
  := by
  fun_induction Expr.branchesOn e onTrue with
  | case1 b onTrue =>
      obtain rfl := eq_of_beq h
      rw [Expr.code]
      simp only [Literal.code, if_true]
      apply Refers.emit (List.mem_singleton_self target)
  | case2 operand onTrue ih =>
      rw [Expr.code]
      apply ih h
  | case3 left right onTrue ihleft ihright =>
      rw [Expr.code]
      cases onTrue with
      | true =>
          apply HasPart.after
          intro skip
          apply HasPart.after
          intro _
          apply HasPart.before (ihright h)
      | false =>
          obtain h | h := Bool.or_eq_true_iff.mp h
          · apply HasPart.before (ihleft h)
          · apply HasPart.after
            intro _
            apply ihright h
  | case4 left right onTrue ihleft ihright =>
      rw [Expr.code]
      cases onTrue with
      | true =>
          obtain h | h := Bool.or_eq_true_iff.mp h
          · apply HasPart.before (ihleft h)
          · apply HasPart.after
            intro _
            apply ihright h
      | false =>
          apply HasPart.after
          intro skip
          apply HasPart.after
          intro _
          apply HasPart.before (ihright h)
  | case5 e onTrue hliteral hnot hand hor =>
      cases e with
      | literal l =>
          rw [Expr.code]
          cases l with
          | boolean b => exact absurd rfl (hliteral b)
          | _ => apply ExprCode.ofValue_refers
      | not operand => exact absurd rfl (hnot operand)
      | logic op left right =>
          cases op with
          | and => exact absurd rfl (hand left right)
          | or => exact absurd rfl (hor left right)
      | compare condition left right type =>
          rw [Expr.code]
          apply ExprCode.jumpCompare_refers
      | newArray type lengths =>
          cases type with
          | array elem =>
              rw [Expr.code]
              apply ExprCode.ofValue_refers
          | _ =>
              rw [Expr.code]
              · apply ExprCode.ofValue_refers
              · intro elem helem
                contradiction
      | _ =>
          rw [Expr.code]
          apply ExprCode.ofValue_refers

/-- A jump without a branch to its label does not depend on it. -/
theorem Expr.jump_eq_of_branchesOn_eq_false (scope : Scope) {e : Expr} {onTrue : Bool}
    (h : e.branchesOn onTrue = false) (target target' : Label) :
  (e.code scope).jump target onTrue = (e.code scope).jump target' onTrue
  := by
  fun_induction Expr.branchesOn e onTrue with
  | case1 b onTrue =>
      rw [Expr.code]
      simp only [Literal.code, if_neg (ne_of_beq_false h)]
  | case2 operand onTrue ih =>
      rw [Expr.code]
      apply ih h
  | case3 left right onTrue ihleft ihright =>
      obtain ⟨hleft, hright⟩ := Bool.or_eq_false_iff.mp h
      rw [Expr.code]
      cases onTrue with
      | true => simp only [ExprCode.ofJump, ExprCode.jumpAnd, if_true, ihright hright]
      | false =>
          have hleft := ihleft hleft
          simp [ExprCode.ofJump, ExprCode.jumpAnd, hleft, ihright hright]
  | case4 left right onTrue ihleft ihright =>
      obtain ⟨hleft, hright⟩ := Bool.or_eq_false_iff.mp h
      rw [Expr.code]
      cases onTrue with
      | true =>
          have hleft := ihleft hleft
          simp only [ExprCode.ofJump, ExprCode.jumpOr, if_true, hleft, ihright hright]
      | false => simp [ExprCode.ofJump, ExprCode.jumpOr, ihright hright]
  | case5 => contradiction

/-! ### Statements -/

/-- The labels of a statement that are looked up. -/
def Stmt.references : Stmt → List Label
  | .branch condition target => if condition.branchesOn true then [target] else []
  | s => s.targets

/-- The default and the labels of the cases are targets of the switch. -/
theorem Checked.mem_targets_of_switch {fallback : Label} {cases : List (Int32 × Label)}
    {i : Instruction} (h : Checked.switch fallback cases = .ok i) {l : Label}
    (hl : l ∈ fallback :: cases.map (·.2)) :
  l ∈ i.targets
  := by
  obtain ⟨s, hs, rfl⟩ := Checked.switch_eq_ok h
  obtain ⟨hfallback, hperm, -⟩ := Switch.ofCases_eq_ok hs
  rw [Instruction.targets, hfallback]
  apply ((hperm.map _).cons fallback).mem_iff.mpr hl

/-- The code of a statement refers to the labels that are looked up for it. -/
theorem Stmt.code_refers (scope : Scope) {s : Stmt} {l : Label} (hl : l ∈ s.references) :
  (s.code scope).Refers l
  := by
  cases s with
  | goto target =>
      obtain rfl := List.mem_singleton.mp hl
      apply Refers.emit (List.mem_singleton_self l)
  | branch condition target =>
      rw [Stmt.references] at hl
      split at hl
      · next hbranches =>
        obtain rfl := List.mem_singleton.mp hl
        apply Expr.jump_refers scope hbranches
      · contradiction
  | switch key cases fallback =>
      apply HasPart.after
      intro type
      split
      · apply Refers.emitChecked fun i hi => Checked.mem_targets_of_switch hi hl
      · apply HasPart.fail
  | _ => contradiction

variable {scope : Scope} {s : Stmt} {stmts : List Stmt} {l : Label} {index labels : Nat}
  {out : Emitted Unit}

/-- A label in the code of a statement is the statement, or it is made up. -/
theorem Stmt.eq_label_of_code (h : s.code scope index labels = .ok out)
    (hl : .label l ∈ out.code) :
  s = .label l ∨ ∃ n, l = madeUp n
  := by
  have hlenient : Gen.Lenient fun i => ∀ l, i = .label l → s = .label l ∨ ∃ n, l = madeUp n :=
    Gen.lenient_label fun n => .inr ⟨n, rfl⟩
  have hscope := scope.allows_label fun l => s = .label l ∨ ∃ n, l = madeUp n
  have hregular := Stmt.code_regular hlenient hscope s (by nofun)
    (fun l hs l' hl' => by
      left
      rw [hs, Instruction.label.inj hl'])
    (by nofun)
  apply hregular.emits h _ hl l rfl

theorem Stmt.mem_code_label (h : (Stmt.label l).code scope index labels = .ok out) :
  .label l ∈ out.code
  := by
  rw [Stmt.code] at h
  split at h
  · contradiction
  · obtain rfl := Gen.emit_eq_ok.mp h
    apply List.mem_singleton_self

/-- The label of a statement stands in the code of the body. -/
theorem Stmt.mem_forEach_label (h : Gen.forEach (Stmt.code scope) stmts index labels = .ok out)
    (hl : .label l ∈ stmts) :
  .label l ∈ out.code
  := by
  induction stmts generalizing index labels out with
  | nil => contradiction
  | cons s stmts ih =>
      rw [Gen.forEach_cons] at h
      obtain ⟨a, b, ha, hb, rfl⟩ := Gen.bind_eq_ok.mp h
      apply List.mem_append.mpr
      cases hl with
      | head =>
          left
          apply Stmt.mem_code_label ha
      | tail _ hl =>
          right
          apply ih hb hl

/-- A label in the code of statements stands in the code of one of them. -/
theorem Stmt.exists_of_forEach (h : Gen.forEach (Stmt.code scope) stmts index labels = .ok out)
    (hl : .label l ∈ out.code) :
  ∃ before s after a b c, stmts = before ++ s :: after
    ∧ Gen.forEach (Stmt.code scope) before index labels = .ok a
    ∧ s.code scope (index + a.code.length) a.labels = .ok b ∧ .label l ∈ b.code
    ∧ Gen.forEach (Stmt.code scope) after (index + a.code.length + b.code.length) b.labels = .ok c
    ∧ out.code = a.code ++ b.code ++ c.code
  := by
  induction stmts generalizing index labels out with
  | nil =>
      obtain rfl := Except.ok.inj h
      contradiction
  | cons s stmts ih =>
      rw [Gen.forEach_cons] at h
      obtain ⟨x, y, hx, hy, rfl⟩ := Gen.bind_eq_ok.mp h
      obtain hl | hl := List.mem_append.mp hl
      · use [], s, stmts, ⟨(), [], labels⟩, x, y, rfl, rfl, hx, hl, hy
        rfl
      · obtain ⟨before, s', after, a, b, c, rfl, ha, hb, hl, hc, hcode⟩ := ih hy hl
        use s :: before, s', after, ⟨(), x.code ++ a.code, a.labels⟩, b, c, rfl
        simp only [Gen.forEach_cons, List.length_append, ← Nat.add_assoc, hcode,
          List.append_assoc, and_true]
        use Gen.bind_eq_ok.mpr ⟨x, a, hx, ha, rfl⟩

/-! ### Methods -/

/-- The label stands once in the code of the body, in the code of one statement. The statement
is the label unless the name is reserved; then the label is made up, and no statement has it. -/
def Body.Resolves (scope : Scope) (body : Body) (code : MethodCode) (l : Label) : Prop :=
  code.instructions.count (.label l) = 1
    ∧ ∃ before s after a b rest, body.stmts = before ++ s :: after
      ∧ .label l ∉ before ∧ .label l ∉ after
      ∧ Gen.forEach (Stmt.code scope) before 0 0 = .ok a
      ∧ s.code scope a.code.length a.labels = .ok b ∧ .label l ∈ b.code
      ∧ code.instructions = a.code ++ b.code ++ rest
      ∧ (l.isReserved = false ↔ s = .label l) ∧ (l.isReserved = true ↔ ∃ n, l = madeUp n)

/-- What is added to the code of a body has no labels. -/
theorem withReturn_eq_append (result : Ty) (code : List Instruction) :
  ∃ tail, withReturn result code = code ++ tail ∧ ∀ l, .label l ∉ tail
  := by
  unfold withReturn
  split
  · use []
    simp
  · use []
    simp
  · split
    · use [.ret none]
      simp
    · use []
      simp

/-- A label that stands once in the code of a body resolves. -/
theorem Body.resolves_of_count {body : Body} {result : Ty} {handlers : List Handler}
    {isStatic : Bool} {params : List Ty}
    (hout : Gen.forEach (Stmt.code scope) body.stmts 0 0 = .ok out)
    (hcount : (withReturn result out.code).count (.label l) = 1) :
  body.Resolves scope (.ofParams (withReturn result out.code) handlers isStatic params) l
  := by
  obtain ⟨tail, htail, hlabels⟩ := withReturn_eq_append result out.code
  have hcount' : out.code.count (.label l) = 1 := by
    rwa [htail, List.count_append, List.count_eq_zero.mpr (hlabels l)] at hcount
  have hmem : .label l ∈ out.code := by
    apply List.count_pos_iff.mp
    omega
  obtain ⟨before, s, after, a, b, c, hstmts, ha, hb, hl, hc, hcode⟩ :=
    Stmt.exists_of_forEach hout hmem
  rw [hcode, List.count_append, List.count_append] at hcount'
  have hpos : 0 < b.code.count (.label l) := List.count_pos_iff.mpr hl
  rw [Nat.zero_add] at hb
  have hlabel := Stmt.eq_label_of_code hb hl
  have hunreserved (hs : s = .label l) : l.isReserved = false := by
    rw [hs] at hb
    apply Stmt.isReserved_of_code hb
  use hcount, before, s, after, a, b, c.code ++ tail, hstmts
  refine ⟨?_, ?_, ha, hb, hl, ?_, ?_, ?_⟩
  · intro hbefore
    have hpos' := List.count_pos_iff.mpr (Stmt.mem_forEach_label ha hbefore)
    omega
  · intro hafter
    have hpos' := List.count_pos_iff.mpr (Stmt.mem_forEach_label hc hafter)
    omega
  · change withReturn result out.code = _
    rw [htail, hcode, List.append_assoc _ c.code]
  · refine ⟨fun hreserved => ?_, hunreserved⟩
    apply hlabel.resolve_right
    rintro ⟨n, rfl⟩
    rw [Gen.isReserved_madeUp] at hreserved
    contradiction
  · constructor
    · intro hreserved
      apply hlabel.resolve_left
      intro hs
      rw [hunreserved hs] at hreserved
      contradiction
    · rintro ⟨n, rfl⟩
      apply Gen.isReserved_madeUp

/-- In a method that has been lowered the labels of jumps and traps resolve, but for those of
branches that are left out because of what is written down. -/
theorem Method.resolves_of_lower {self : Ty} {m : Method} {body : Body} {code : MethodCode}
    (hbody : m.body = some body) (hlower : (m.lower self).outcome = .ok code) :
  ∃ locals, Locals.ofMethod m body = .ok locals
    ∧ (∀ s ∈ body.stmts, ∀ l ∈ s.references, body.Resolves ⟨self, m, locals⟩ code l)
    ∧ (∀ t ∈ body.traps,
      (∃ h ∈ code.handlers, code.instructions[h.start]? = some (.label t.start)
        ∧ code.instructions[h.stop]? = some (.label t.stop) ∧ h.target = t.handler)
      ∧ ∀ l ∈ [t.start, t.stop, t.handler], body.Resolves ⟨self, m, locals⟩ code l)
    ∧ ∀ condition, condition.branchesOn true = false → ∀ l l',
      (Stmt.branch condition l).code ⟨self, m, locals⟩
        = (Stmt.branch condition l').code ⟨self, m, locals⟩
  := by
  obtain ⟨body', locals, out, handlers, hbody', hlocals, hout, hhandlers, rfl⟩ :=
    Method.lowerBody_eq_ok (Method.lower_eq_ok.mp hlower)
  obtain rfl := Option.some.inj (hbody.symm.trans hbody')
  obtain ⟨positions, hpositions, htargets, htraps⟩ := resolveTraps_eq_ok hhandlers
  have hresolves (l : Label) (hl : l ∈ positions) :
      body.Resolves ⟨self, m, locals⟩
        (.ofParams (withReturn m.result out.code) handlers m.isStatic m.paramTypes) l := by
    apply Body.resolves_of_count hout
    apply Nat.le_antisymm (count_label_of_positionsFrom hpositions l).1
    apply List.count_pos_iff.mpr (mem_label_of_mem_positions hpositions hl)
  use locals, hlocals
  refine ⟨?_, ?_, ?_⟩
  · intro s hs l hl
    obtain ⟨part, hpart, i, hi, htarget⟩ :=
      HasPart.forEach hs (Stmt.code_refers _ hl) 0 0 out hout
    obtain ⟨tail, htail, -⟩ := withReturn_eq_append m.result out.code
    apply hresolves
    apply mem_positions_of_checkTargets htargets _ htarget
    rw [htail]
    apply List.mem_append_left tail (hpart.subset hi)
  · intro t ht
    obtain ⟨h, hmem, hh⟩ := (Except.mapM_eq_ok_iff.mp htraps).exists_of_mem_left ht
    obtain ⟨hstart, hstop, htarget⟩ := Trap.handlerAt_eq_ok hh
    have hhandler := Trap.target_of_handlerAt hh
    constructor
    · use h, hmem, (getElem?_of_positions hpositions).mp hstart,
        (getElem?_of_positions hpositions).mp hstop
    · rw [hhandler] at htarget
      simp only [List.forall_mem_cons]
      use hresolves _ (Std.HashMap.getElem?_eq_some_iff.mp hstart).1,
        hresolves _ (Std.HashMap.getElem?_eq_some_iff.mp hstop).1, hresolves _ htarget
      apply List.forall_mem_nil
  · intro condition hcondition l l'
    apply Expr.jump_eq_of_branchesOn_eq_false _ hcondition

/-- Jumps into the code of an expression, where the trap begins and ends, and never jumps to a
label that does not exist. -/
def captured : Body :=
  ⟨[⟨"negative", .boolean⟩],
    [.goto ⟨"#0"⟩,
      .assign (.var "negative") (.compare .lt (.var "n") (.literal (.int 0)) .int),
      .branch (.literal (.boolean false)) ⟨"nowhere"⟩],
    [⟨⟨"#0"⟩, ⟨"#1"⟩, ⟨"#0"⟩, none⟩]⟩

/-- The method with this body. -/
def capturedMethod : Method :=
  ⟨"captured", staticFlag, [], [⟨"n", .int⟩], .void, [], some captured⟩

/-- The code that the method is lowered to. -/
def capturedCode : List Instruction :=
  [.goto ⟨"#0"⟩, .load 0 .int, .constant (.int 0), .branch (.compare .int .ge) ⟨"#0"⟩,
    .constant (.int 1), .goto ⟨"#1"⟩, .label ⟨"#0"⟩, .constant (.int 0), .label ⟨"#1"⟩,
    .store 1 .int, .ret none]

/-- The method is lowered, although no statement has the labels that it refers to. -/
theorem lower_captured :
  (capturedMethod.lower (.object ⟨[], ["Guard"]⟩ [])).outcome
    = .ok ⟨capturedCode, [⟨6, 8, ⟨"#0"⟩, none⟩], 1⟩
  := by
  have hlocals : Locals.ofMethod capturedMethod captured
      = .ok ⟨[⟨"n", .int, 0⟩, ⟨"negative", .boolean, 1⟩], 2⟩ := rfl
  have hout : Gen.forEach (Stmt.code ⟨.object ⟨[], ["Guard"]⟩ [], capturedMethod,
      ⟨[⟨"n", .int, 0⟩, ⟨"negative", .boolean, 1⟩], 2⟩⟩) captured.stmts 0 0
        = .ok ⟨(), capturedCode.dropLast, 2⟩ := by
    rfl
  have hpositions : ∃ positions, positionsFrom ∅ 0 capturedCode = .ok positions
      ∧ checkTargets positions capturedCode = .ok () := by
    simp [capturedCode, positionsFrom, checkTargets, Instruction.targets, Instruction.goto]
  obtain ⟨positions, hpositions, htargets⟩ := hpositions
  have hresolve : resolveTraps capturedCode captured.traps = .ok [⟨6, 8, ⟨"#0"⟩, none⟩] := by
    rw [resolveTraps_of_positions hpositions htargets]
    apply Except.mapM_eq_ok_iff.mpr (.cons _ .nil)
    have hstart : trapPosition positions ⟨"#0"⟩ = .ok 6 :=
      trapPosition_of_positions hpositions rfl
    have hstop : trapPosition positions ⟨"#1"⟩ = .ok 8 :=
      trapPosition_of_positions hpositions rfl
    rw [Trap.handlerAt, hstart, hstop]
    rfl
  apply Method.lower_of_forEach rfl hlocals hout hresolve

theorem captured_resolves :
  (∃ locals, Locals.ofMethod capturedMethod captured = .ok locals
    ∧ captured.Resolves ⟨.object ⟨[], ["Guard"]⟩ [], capturedMethod, locals⟩
      ⟨capturedCode, [⟨6, 8, ⟨"#0"⟩, none⟩], 1⟩ ⟨"#0"⟩)
    ∧ (∀ l, .label l ∉ captured.stmts) ∧ .label ⟨"nowhere"⟩ ∉ capturedCode
  := by
  obtain ⟨locals, hlocals, hstmts, -⟩ := Method.resolves_of_lower rfl lower_captured
  refine ⟨⟨locals, hlocals, ?_⟩, by simp [captured], by simp [capturedCode, Instruction.goto]⟩
  apply hstmts (.goto ⟨"#0"⟩) List.mem_cons_self ⟨"#0"⟩ (List.mem_singleton_self _)

end ClassForge
