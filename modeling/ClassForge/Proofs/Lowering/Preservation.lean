import ClassForge.Proofs.Lowering.Labels
import ClassForge.Proofs.Lowering.Statement
import ClassForge.Proofs.Outcome

/-!
# Lowering keeps the meaning of a body

The code of a body and the body itself run side by side. Each statement has a place in the code
where its own code starts, and whenever the body comes to a statement, the code comes to that
place with an empty stack and with the locals in their slots. A statement may need no code;
then the run of the code stands still while the body goes on to a later statement.

A body without a result returns at its end. Its code ends with a return, so that it never runs
past its last instruction.
-/

namespace ClassForge

open Machine Execution

variable {H A : Type}

/-! ### Where the statements are -/

/-- The code of each element of a list has a place of its own. -/
theorem Gen.exists_places {α : Type} {f : α → Gen Unit} {as : List α} {index labels : Nat}
    {out : Emitted Unit} (h : forEach f as index labels = .ok out) :
  ∃ place : Nat → Nat, place 0 = index ∧ place as.length = index + out.code.length
    ∧ ∀ i a, as[i]? = some a → ∃ labels' out', f a (place i) labels' = .ok out'
      ∧ place (i + 1) = place i + out'.code.length
      ∧ ∀ code, StandsAt code index out.code → StandsAt code (place i) out'.code
  := by
  induction as generalizing index labels out with
  | nil =>
      rw [forEach_nil] at h
      obtain rfl := Gen.pure_eq_ok.mp h
      use fun _ => index, rfl, rfl
      intro i a ha
      contradiction
  | cons a as ih =>
      rw [forEach_cons] at h
      obtain ⟨x, y, hx, hy, rfl⟩ := Gen.bind_eq_ok.mp h
      obtain ⟨place, hzero, hlength, hplace⟩ := ih hy
      use fun i => if i = 0 then index else place (i - 1)
      refine ⟨rfl, ?_, ?_⟩
      · simp [hlength, Nat.add_assoc]
      · intro i b hb
        cases i with
        | zero =>
            obtain rfl := Option.some.inj hb
            use labels, x, hx
            constructor
            · simp [hzero]
            · intro code hstands
              apply (standsAt_append.mp hstands).1
        | succ i =>
            obtain ⟨labels', out', hout, hnext, hstands⟩ := hplace i b hb
            use labels', out', hout
            constructor
            · simp [hnext]
            · intro code hall
              apply hstands code (standsAt_append.mp hall).2

/-! ### The return at the end -/

/-- No return is added to a method with a result. -/
theorem withReturn_of_not_void {result : Ty} (h : result.isVoid = false) (code : List Instruction) :
  withReturn result code = code
  := by
  unfold withReturn
  split
  · rfl
  · rfl
  · rw [h, if_neg Bool.false_ne_true]

/-- The code of a body without a result stands before its return or ends with one. -/
theorem withReturn_of_void {result : Ty} (h : result.isVoid = true) {code : List Instruction}
    (hne : withReturn result code ≠ []) :
  (∃ value, withReturn result code = code ∧ code.getLast? = some (.ret value))
    ∨ withReturn result code = code ++ [.ret none]
  := by
  unfold withReturn at hne ⊢
  split
  · next hlast =>
    rw [hlast] at hne
    have hnil := List.getLast?_eq_none_iff.mp hlast
    contradiction
  · next value hlast =>
    left
    use value
  · right
    rw [h, if_pos rfl]

/-- The code of a body stands at the start of the code with the return. -/
theorem standsAt_withReturn (result : Ty) (code : List Instruction) :
  StandsAt (withReturn result code) 0 code
  := by
  have hself := standsAt_middle [] code []
  have hbefore := standsAt_middle [] code [.ret none]
  unfold withReturn
  split
  · simpa using hself
  · simpa using hself
  · split
    · simpa using hbefore
    · simpa using hself

/-- A label leads to a place within the code. -/
theorem place_lt_of_enter {instructions : List Instruction} {target : Label}
    {stack : List (Value A)} {frame : Frame A} {heap : H} {s : State H A}
    (h : enter instructions target stack frame heap = .inl s) :
  s.place < instructions.length
  := by
  unfold enter at h
  split at h
  · next place hplace =>
    obtain rfl := Sum.inl.inj h
    apply (List.findIdx?_eq_some_iff_getElem.mp hplace).1
  · contradiction

variable [DecidableEq A] {w : World H A} {code : MethodCode}

/-- A return never goes on to the next instruction. -/
theorem act_ret_ne_next {value : Option Kind} {stack stack' : List (Value A)}
    {frame frame' : Frame A} {heap heap' : H} :
  w.act (.ret value) stack frame heap ≠ .next stack' frame' heap'
  := by
  intro h
  cases value with
  | none => simp at h
  | some kind =>
      cases stack with
      | nil => simp at h
      | cons v stack =>
          rw [World.act_ret] at h
          split at h
          · contradiction
          · contradiction

/-- A run of code that ends with a return does not leave the code: only the last instruction could
step out of it. -/
theorem place_lt_of_step {value : Option Kind}
    (hlast : code.instructions.getLast? = some (.ret value)) {s s' : State H A}
    (hstep : step w code s = .inl s') :
  s'.place < code.instructions.length
  := by
  unfold step at hstep
  split at hstep
  · next i hi =>
    obtain ⟨hlt, -⟩ := List.getElem?_eq_some_iff.mp hi
    cases hact : w.act i s.stack s.frame s.heap with
    | next stack frame heap =>
        rw [hact, settle] at hstep
        obtain rfl := Sum.inl.inj hstep
        apply Nat.lt_of_le_of_ne hlt
        intro hend
        rw [List.getLast?_eq_getElem?, ← hend, Nat.succ_sub_one, hi] at hlast
        obtain rfl := Option.some.inj hlast
        apply act_ret_ne_next hact
    | jump target stack frame heap =>
        rw [hact, settle] at hstep
        apply place_lt_of_enter hstep
    | ret v heap =>
        rw [hact, settle] at hstep
        contradiction
    | throws thrown frame heap =>
        rw [hact, settle, dispatch] at hstep
        split at hstep
        · apply place_lt_of_enter hstep
        · contradiction
    | stuck =>
        rw [hact, settle] at hstep
        contradiction
  · contradiction

/-- A run of code that ends with a return stays within the code. -/
theorem place_lt_of_reaches {value : Option Kind}
    (hlast : code.instructions.getLast? = some (.ret value)) {s s' : State H A}
    (h : Reaches (step w code) s s') (hs : s.place < code.instructions.length) :
  s'.place < code.instructions.length
  := by
  obtain ⟨n, hn⟩ := h
  induction n generalizing s with
  | zero =>
      obtain rfl := Sum.inl.inj hn
      apply hs
  | succ n ih =>
      cases hstep : step w code s with
      | inl t =>
          rw [runFor_succ_of_step n hstep] at hn
          apply ih (place_lt_of_step hlast hstep) hn
      | inr o =>
          rw [runFor_succ_of_halt n hstep] at hn
          contradiction

/-! ### Lowered bodies -/

/-- The code is that of the statements, each at its place. -/
structure Lowered (scope : Scope) (stmts : List Stmt) (code : MethodCode) (place : Nat → Nat) :
    Prop where
  placed : Placed code
  place_zero : place 0 = 0
  at_place : ∀ i s, stmts[i]? = some s → ∃ labels out, s.code scope (place i) labels = .ok out
    ∧ place (i + 1) = place i + out.code.length
    ∧ StandsAt code.instructions (place i) out.code
  end_void : scope.method.result.isVoid = true →
    (∃ value, code.instructions.getLast? = some (.ret value))
      ∧ (place stmts.length < code.instructions.length →
        code.instructions[place stmts.length]? = some (.ret none))
  end_result : scope.method.result.isVoid = false → place stmts.length = code.instructions.length

/-- The code of each statement of a method without traps stands at its place in the code, and labels
and returns are where they should be. -/
theorem Method.lowered_of_lower {self : Ty} {m : Method} {body : Body} (hbody : m.body = some body)
    (htraps : body.traps = []) (hlower : (m.lower self).outcome = .ok code)
    (hne : code.instructions ≠ []) :
  ∃ locals place, Locals.ofMethod m body = .ok locals
    ∧ Lowered ⟨self, m, locals⟩ body.stmts code place
  := by
  obtain ⟨body', locals, out, handlers, hbody', hlocals, hout, hresolve, rfl⟩ :=
    Method.lowerBody_eq_ok (Method.lower_eq_ok.mp hlower)
  obtain ⟨positions, hpositions, -, hhandlers⟩ := resolveTraps_eq_ok hresolve
  obtain rfl : body = body' := Option.some.inj (hbody.symm.trans hbody')
  obtain ⟨place, hzero, hlength, hplace⟩ := Gen.exists_places hout
  rw [Nat.zero_add] at hlength
  use locals, place, hlocals
  constructor
  · constructor
    · rw [htraps] at hhandlers
      apply (Except.ok.inj hhandlers).symm
    · intro l place
      apply placeOf?_of_positions hpositions
  · apply hzero
  · intro i s hs
    obtain ⟨labels, out', hout', hnext, hstands⟩ := hplace i s hs
    use labels, out', hout', hnext
    apply hstands _ (standsAt_withReturn _ _)
  · intro hvoid
    change withReturn m.result out.code ≠ [] at hne
    change (∃ value, (withReturn m.result out.code).getLast? = some (.ret value))
      ∧ (place body.stmts.length < (withReturn m.result out.code).length →
        (withReturn m.result out.code)[place body.stmts.length]? = some (.ret none))
    rw [hlength]
    obtain ⟨value, heq, hlast⟩ | heq := withReturn_of_void hvoid hne
    · rw [heq]
      constructor
      · use value
      · intro hlt
        omega
    · rw [heq]
      simp
  · intro hresult
    change place body.stmts.length = (withReturn m.result out.code).length
    rw [hlength, withReturn_of_not_void hresult]

namespace Lowered

variable {scope : Scope} {stmts : List Stmt} {place : Nat → Nat}

/-- Statements have their places in order. -/
theorem place_le (h : Lowered scope stmts code place) {i j : Nat} (hij : i ≤ j)
    (hj : j ≤ stmts.length) :
  place i ≤ place j
  := by
  induction hij with
  | refl => apply Nat.le_refl
  | @step j hij ih =>
      obtain ⟨_, out, _, hnext, _⟩ := h.at_place j _ (List.getElem?_eq_getElem hj)
      apply Nat.le_trans (ih (Nat.le_of_lt hj))
      rw [hnext]
      apply Nat.le_add_right

/-- A label of the body stands in the code where its statement is. -/
theorem label_at_place (h : Lowered scope stmts code place) {i : Nat} {l : Label}
    (hi : stmts[i]? = some (.label l)) :
  code.instructions[place i]? = some (.label l) ∧ place (i + 1) = place i + 1
  := by
  obtain ⟨labels, out, hout, hnext, hstands⟩ := h.at_place i _ hi
  rw [Stmt.code] at hout
  split at hout
  · contradiction
  · obtain rfl := Gen.emit_eq_ok.mp hout
    use hstands.1, hnext

/-- The body at a statement and the code at the place of the statement. -/
structure Matches (scope : Scope) (stmts : List Stmt) (code : MethodCode) (place : Nat → Nat)
    (c : Config H A) (t : State H A) : Prop where
  index_le : c.index ≤ stmts.length
  place_eq : t.place = place c.index
  stack_eq : t.stack = []
  heap_eq : t.heap = c.heap
  holds : t.frame.Holds scope c.env
  place_lt : scope.method.result.isVoid = true → t.place < code.instructions.length

variable {ctx : Context} {c : Config H A} {t : State H A}

/-- At the end of the body both runs end alike. -/
theorem keeps_end (h : Lowered scope stmts code place) (hfits : scope.Fits ctx)
    (hmatch : Matches scope stmts code place c t) (hend : c.index = stmts.length) :
  Keeps (Context.step w ctx stmts) (step w code) (Matches scope stmts code place)
    (fun c => stmts.length - c.index) c t
  := by
  obtain ⟨p, stack, frame, heap⟩ := t
  obtain ⟨-, rfl, rfl, rfl, -, hlt⟩ := hmatch
  have hstep : Context.step w ctx stmts c
      = .inr (if scope.method.result.isVoid then .returned none c.heap else .escaped c.heap) := by
    rw [Context.step, List.getElem?_eq_none (Nat.le_of_eq hend.symm), hfits.result]
  left
  cases hvoid : scope.method.result.isVoid with
  | true =>
      have hret := (h.end_void hvoid).2
      rw [← hend] at hret
      use .returned none c.heap
      constructor
      · apply Halts.of_step
        rw [hstep, hvoid, if_pos rfl]
      · apply Halts.of_step
        rw [step_of_getElem? (hret (hlt hvoid))]
        rfl
  | false =>
      use .escaped c.heap
      constructor
      · apply Halts.of_step
        rw [hstep, hvoid, if_neg Bool.false_ne_true]
      · apply Halts.of_step
        rw [step, hend, h.end_result hvoid, List.getElem?_eq_none (Nat.le_refl _)]

/-- Where the code comes to from a matching state is matched by a later statement, or by an
earlier one if the code has made a step. -/
theorem keeps_of_reaches (h : Lowered scope stmts code place)
    (hmatch : Matches scope stmts code place c t) {c' : Config H A}
    (hstep : Context.step w ctx stmts c = .inl c') (hindex : c'.index ≤ stmts.length)
    {frame : Frame A} (hholds : frame.Holds scope c'.env)
    (hreaches : Reaches (step w code) t ⟨place c'.index, [], frame, c'.heap⟩)
    (hlater : place c.index = place c'.index → c.index < c'.index) :
  Keeps (Context.step w ctx stmts) (step w code) (Matches scope stmts code place)
    (fun c => stmts.length - c.index) c t
  := by
  right
  use c', ⟨place c'.index, [], frame, c'.heap⟩, Advances.of_step hstep
  constructor
  · obtain rfl | hadvances := hreaches.eq_or_advances
    · right
      have hlt := hlater hmatch.place_eq.symm
      use rfl
      apply Nat.sub_lt_sub_left (Nat.lt_of_lt_of_le hlt hindex) hlt
    · left
      apply hadvances
  · constructor
    · apply hindex
    · rfl
    · rfl
    · rfl
    · apply hholds
    · intro hvoid
      obtain ⟨value, hlast⟩ := (h.end_void hvoid).1
      apply place_lt_of_reaches hlast hreaches (hmatch.place_lt hvoid)

/-- The run of a body at one of its labels. -/
theorem findIdx?_isLabel {l : Label} (h : .label l ∈ stmts) :
  ∃ i, stmts.findIdx? (Stmt.isLabel l) = some i ∧ stmts[i]? = some (.label l)
  := by
  cases hfound : stmts.findIdx? (Stmt.isLabel l) with
  | none =>
      have hnone := List.findIdx?_eq_none_iff.mp hfound _ h
      simp [Stmt.isLabel] at hnone
  | some i =>
      obtain ⟨hlt, hlabel, -⟩ := List.findIdx?_eq_some_iff_getElem.mp hfound
      use i, rfl
      rw [List.getElem?_eq_getElem hlt]
      cases hs : stmts[i] with
      | label l' =>
          rw [hs] at hlabel
          rw [of_decide_eq_true hlabel]
      | _ =>
          rw [hs] at hlabel
          contradiction

/-- The code at a statement does what the statement does. -/
theorem leads (h : Lowered scope stmts code place) (hfits : scope.Fits ctx)
    (hlaid : scope.locals.Laid (if scope.method.isStatic then 0 else 1))
    (htyped : ∀ s ∈ stmts, s.Typed ctx)
    (htargets : ∀ s ∈ stmts, ∀ l ∈ s.targets, .label l ∈ stmts)
    (hmatch : Matches scope stmts code place c t) {s : Stmt} (hs : stmts[c.index]? = some s) :
  Leads w code scope t.frame s.targets (place (c.index + 1)) t (s.exec w ctx c.env c.heap)
  := by
  have hmem := List.mem_of_getElem? hs
  have htarget : ∀ l ∈ s.targets, ∃ place, placeOf? code.instructions l = some place := by
    intro l hl
    obtain ⟨i, -, hi⟩ := findIdx?_isLabel (htargets s hmem l hl)
    use place i
    apply h.placed.placeOf (h.label_at_place hi).1
  have hstart : t = State.mk (place c.index) [] t.frame c.heap := by
    rw [← hmatch.place_eq, ← hmatch.stack_eq, ← hmatch.heap_eq]
  obtain ⟨labels, out, hout, hnext, hstands⟩ := h.at_place c.index s hs
  rw [hnext, hstart]
  apply ((htyped s hmem).flows ⟨h.placed, hfits, hmatch.holds⟩ hlaid htarget).leads hout hstands

/-- A jump goes to another place unless the label comes later. -/
theorem lt_of_place_eq (h : Lowered scope stmts code place) {s : Stmt} {i j : Nat} {l l' : Label}
    (hi : stmts[i]? = some s) (hl : l ∈ s.targets) (hj : stmts[j]? = some (.label l'))
    (hplace : place i = place j) :
  i < j
  := by
  obtain ⟨hlt, -⟩ := List.getElem?_eq_some_iff.mp hi
  obtain hij | hij := Nat.lt_or_ge i j
  · apply hij
  · obtain rfl | hji := Nat.eq_or_lt_of_le hij
    · rw [hi] at hj
      obtain rfl := Option.some.inj hj
      contradiction
    · have hle : place (j + 1) ≤ place i := h.place_le hji (Nat.le_of_lt hlt)
      have hnext := (h.label_at_place hj).2
      omega

/-- At a statement both runs go on to statements again or end alike. -/
theorem keeps_stmt (h : Lowered scope stmts code place)
    (htargets : ∀ s ∈ stmts, ∀ l ∈ s.targets, .label l ∈ stmts)
    (hmatch : Matches scope stmts code place c t) {s : Stmt} (hs : stmts[c.index]? = some s)
    (hleads : Leads w code scope t.frame s.targets (place (c.index + 1)) t
      (s.exec w ctx c.env c.heap)) :
  Keeps (Context.step w ctx stmts) (step w code) (Matches scope stmts code place)
    (fun c => stmts.length - c.index) c t
  := by
  obtain ⟨hlt, -⟩ := List.getElem?_eq_some_iff.mp hs
  have hstep : Context.step w ctx stmts c = Context.follow stmts c (s.exec w ctx c.env c.heap) := by
    rw [Context.step, hs]
  cases hexec : s.exec w ctx c.env c.heap with
  | done flow heap =>
      rw [hexec] at hstep hleads
      cases flow with
      | next env =>
          obtain ⟨frame, hholds, hreaches⟩ := hleads
          apply h.keeps_of_reaches hmatch hstep hlt hholds hreaches
          intro _
          apply Nat.lt_succ_self
      | jump l =>
          obtain ⟨p, hl, hp, hreaches⟩ := hleads
          obtain ⟨j, hfound, hj⟩ := findIdx?_isLabel (htargets s (List.mem_of_getElem? hs) l hl)
          have hplace := h.placed.placeOf (h.label_at_place hj).1
          obtain rfl : p = place j := Option.some.inj (hp.symm.trans hplace)
          rw [Context.follow, hfound] at hstep
          apply h.keeps_of_reaches hmatch hstep _ hmatch.holds hreaches
          · apply h.lt_of_place_eq hs hl hj
          · apply Nat.le_of_lt (List.getElem?_eq_some_iff.mp hj).1
      | ret value =>
          left
          use .returned value heap, Halts.of_step hstep
          apply hleads
  | throws thrown heap =>
      rw [hexec] at hstep hleads
      left
      use .thrown thrown heap, Halts.of_step hstep
      apply hleads
  | stuck =>
      rw [hexec] at hstep hleads
      left
      use .stuck, Halts.of_step hstep
      apply hleads

end Lowered

/-! ### Methods -/

/-- A well-typed method without traps and its code come to the same end on the same receiver,
arguments and heap, or both run on for ever. -/
theorem lower_runsTo_iff (w : World H A) {self : Ty} {m : Method} {body : Body}
    {code : MethodCode} (hbody : m.body = some body) (htraps : body.traps = [])
    (hlower : (m.lower self).outcome = .ok code) (hne : code.instructions ≠ [])
    (htyped : body.WellTyped (.ofMethod self m body)) (receiver : Option A)
    {args : List (Value A)} (hargs : m.Takes args) (heap : H) (o : Outcome H A) :
  RunsTo w code (m.entryFrame receiver args) heap o
    ↔ m.EndsWith w self body receiver args heap o
  := by
  obtain ⟨locals, place, hlocals, hlowered⟩ := m.lowered_of_lower hbody htraps hlower hne
  have hfits := Scope.fits_ofMethod self hlocals
  have hentered := Scope.entered_ofMethod self hlocals receiver hargs
  symm
  apply halts_iff_of_keeps (R := Lowered.Matches ⟨self, m, locals⟩ body.stmts code place)
  · intro c t hmatch
    obtain hlt | hge := Nat.lt_or_ge c.index body.stmts.length
    · have hs := List.getElem?_eq_getElem hlt
      apply hlowered.keeps_stmt htyped.targets hmatch hs
      apply hlowered.leads hfits hentered.laid htyped.typed htyped.targets hmatch hs
    · apply hlowered.keeps_end hfits hmatch (Nat.le_antisymm hmatch.index_le hge)
  · constructor
    · apply Nat.zero_le
    · apply hlowered.place_zero.symm
    · rfl
    · rfl
    · apply hentered.holds
    · intro _
      apply List.length_pos_iff.mpr hne

/-- Counts down to zero, by the truth value of `0 < n`. -/
def countdown : Body :=
  ⟨[],
    [.label ⟨"loop"⟩,
      .assign (.var "n")
        (.arith .sub (.var "n") (.compare .lt (.literal (.int 0)) (.var "n") .int) .int),
      .branch (.logic .and (.compare .gt (.var "n") (.literal (.int 0)) .int)
        (.compare .le (.var "n") (.literal (.int 9)) .int)) ⟨"loop"⟩,
      .ret (some (.var "n"))],
    []⟩

/-- The method that counts down its argument. -/
def countdownMethod : Method :=
  ⟨"countdown", staticFlag, [], [⟨"n", .int⟩], .int, [], some countdown⟩

/-- The code that the method is lowered to. -/
def countdownCode : List Instruction :=
  [.label ⟨"loop"⟩, .load 0 .int, .constant (.int 0), .load 0 .int,
    .branch (.compare .int .ge) ⟨"#0"⟩, .constant (.int 1), .goto ⟨"#1"⟩, .label ⟨"#0"⟩,
    .constant (.int 0), .label ⟨"#1"⟩, .arith .sub .int, .store 0 .int, .load 0 .int,
    .constant (.int 0), .branch (.compare .int .le) ⟨"#2"⟩, .load 0 .int, .constant (.int 9),
    .branch (.compare .int .le) ⟨"loop"⟩, .label ⟨"#2"⟩, .load 0 .int, .ret (some .int)]

/-- The body of the countdown is well typed. -/
theorem countdown_wellTyped (self : Ty) :
  countdown.WellTyped (.ofMethod self countdownMethod countdown)
  := by
  have hn : Expr.Pushes (.ofMethod self countdownMethod countdown) (.var "n") (some .int) :=
    .var rfl rfl
  have hint : ∀ n, Expr.Pushes (.ofMethod self countdownMethod countdown)
      (.literal (.int n)) (some .int) := fun n => .literal rfl
  constructor
  · intro s hs
    simp only [countdown, List.mem_cons, List.not_mem_nil, or_false] at hs
    obtain rfl | rfl | rfl | rfl := hs
    · apply Stmt.Typed.label
    · apply Stmt.Typed.assignVar rfl rfl (.arith rfl hn (.compare rfl (hint 0) hn))
    · apply Stmt.Typed.branch (.logic (.compare rfl hn (hint 0)) (.compare rfl hn (hint 9)))
    · apply Stmt.Typed.retValue rfl hn
  · simp [countdown, Stmt.targets]

/-- The countdown is lowered to its code. -/
theorem lower_countdown :
  (countdownMethod.lower (.object ⟨[], ["Counter"]⟩ [])).outcome = .ok ⟨countdownCode, [], 1⟩
  := by
  have hlocals : Locals.ofMethod countdownMethod countdown = .ok ⟨[⟨"n", .int, 0⟩], 1⟩ := rfl
  have hout : Gen.forEach (Stmt.code ⟨.object ⟨[], ["Counter"]⟩ [], countdownMethod,
      ⟨[⟨"n", .int, 0⟩], 1⟩⟩) countdown.stmts 0 0 = .ok ⟨(), countdownCode, 3⟩ := by
    rfl
  have hpositions : ∃ positions, positionsFrom ∅ 0 countdownCode = .ok positions
      ∧ checkTargets positions countdownCode = .ok () := by
    simp [countdownCode, positionsFrom, checkTargets, Instruction.targets, Instruction.goto]
  obtain ⟨positions, hpositions, htargets⟩ := hpositions
  have hresolve : resolveTraps countdownCode countdown.traps = .ok [] := by
    rw [resolveTraps_of_positions hpositions htargets]
    rfl
  apply Method.lower_of_forEach rfl hlocals hout hresolve

/-- The code of the countdown runs from two down to zero. -/
theorem lower_countdown_runsTo :
  RunsTo constantWorld ⟨countdownCode, [], 1⟩ (countdownMethod.entryFrame none [.int 2]) ()
    (.returned (some (.int 0)) ())
  := by
  have hends : countdownMethod.EndsWith constantWorld (.object ⟨[], ["Counter"]⟩ []) countdown none
      [.int 2] () (.returned (some (.int 0)) ()) := by
    use 7
    rfl
  have htakes : countdownMethod.Takes [(.int 2 : Value Nat)] := .cons rfl .nil
  apply (lower_runsTo_iff constantWorld rfl rfl lower_countdown _ (countdown_wellTyped _) none
    htakes () _).mpr hends
  apply List.cons_ne_nil

end ClassForge
