import ClassForge.Proofs.Lowering.Labels
import ClassForge.Proofs.Stack.Lowering
import ClassForge.Proofs.Stack.Rewriting
import Mathlib.Logic.Function.Basic
import Std.Data.String.ToNat

/-!
# The discipline of the stack

The code of a method whose values have the slots that are asked of them, and whose handlers
pick up what is thrown, keeps the discipline of the stack, and so does the code that the
optimizer makes of it. The depths of its labels are put together from those of the labels of
its statements and those of the labels that were made up.
-/

namespace ClassForge

open Gen (madeUp)

/-! ### Labels -/

/-- Labels that are made up one after the other are different. -/
theorem Gen.madeUp_injective :
  Function.Injective madeUp
  := by
  intro n m h
  have hname := congrArg Label.name h
  apply Nat.repr_injective
  apply (String.append_right_inj _).mp hname

theorem Gen.isReserved_madeUp (n : Nat) :
  (madeUp n).isReserved = true
  := by
  simp [madeUp, Label.isReserved, reservedMark]

/-- What is emitted for each element is emitted somewhere. -/
theorem Gen.forEach_mem {α : Type} {f : α → Gen Unit} {as : List α} {index labels : Nat}
    {out : Emitted Unit} (h : forEach f as index labels = .ok out) :
  ∀ a ∈ as, ∃ index' labels' out', f a index' labels' = .ok out'
  := by
  induction as generalizing index labels out with
  | nil => apply List.forall_mem_nil
  | cons a as ih =>
      rw [forEach_cons] at h
      obtain ⟨x, y, hx, hy, -⟩ := bind_eq_ok.mp h
      apply List.forall_mem_cons.mpr ⟨⟨_, _, _, hx⟩, ih hy⟩

/-- The labels of statements that have been lowered are not made up. -/
theorem Stmt.isReserved_of_code {scope : Scope} {l : Label} {index labels : Nat}
    {out : Emitted Unit} (h : (Stmt.label l).code scope index labels = .ok out) :
  l.isReserved = false
  := by
  rw [Stmt.code] at h
  split at h
  · contradiction
  · next hreserved => simpa using hreserved

/-- A handler goes where its trap says. -/
theorem Trap.target_of_handlerAt {positions : Positions} {t : Trap} {h : Handler}
    (hh : t.handlerAt positions = .ok h) :
  h.target = t.handler
  := by
  obtain ⟨start, -, hh⟩ := Except.bind_eq_ok_iff.mp hh
  obtain ⟨stop, -, hh⟩ := Except.bind_eq_ok_iff.mp hh
  obtain ⟨target, -, hh⟩ := Except.bind_eq_ok_iff.mp hh
  split at hh
  · contradiction
  · obtain rfl := Except.ok.inj hh
    rfl

/-- The handlers of traps start at the labels of the traps. -/
theorem Trap.mem_targets_iff {positions : Positions} {traps : List Trap} {handlers : List Handler}
    (h : traps.mapM (Trap.handlerAt positions) = .ok handlers) (l : Label) :
  l ∈ traps.map Trap.handler ↔ ∃ h ∈ handlers, h.target = l
  := by
  rw [← List.mem_map]
  replace h := Except.mapM_eq_ok_iff.mp h
  induction h with
  | nil => rfl
  | cons hhead _ ih =>
      rw [List.map_cons, List.map_cons, List.mem_cons, List.mem_cons,
        Trap.target_of_handlerAt hhead]
      apply or_congr_right ih

/-! ### Gradings of lowered code -/

/-- Labels of statements have the depths that suit the handlers, made-up ones have depths of
their own. -/
noncomputable def Grading.ofDepths (handlers : List Label) (depths : Nat → Nat) : Grading where
  caught l := l ∈ handlers
  depth l :=
    if l.isReserved then depths (Function.invFun madeUp l) else if l ∈ handlers then 1 else 0

namespace Grading

variable {handlers : List Label} {depths : Nat → Nat}

theorem depth_madeUp (n : Nat) :
  (ofDepths handlers depths).depth (madeUp n) = depths n
  := by
  apply (if_pos (Gen.isReserved_madeUp n)).trans
  rw [Function.leftInverse_invFun Gen.madeUp_injective n]

theorem suits_ofDepths :
  (ofDepths handlers depths).Suits handlers
  := by
  intro l hl
  use Iff.rfl
  apply if_neg
  rw [hl]
  apply Bool.false_ne_true

/-- The return at the end of a body is made on an empty stack. -/
theorem Run.withReturn {g : Grading} {code : List Instruction} (h : g.Run 0 code 0) (result : Ty) :
  g.Run 0 (withReturn result code) 0
  := by
  unfold ClassForge.withReturn
  split
  · apply h
  · apply h
  · split
    · apply h.append
      apply run_singleton
      apply Step.straight rfl rfl (Nat.le_refl 0) rfl
    · apply h

end Grading

/-- Lowered code has a grading that suits the handlers of the body. -/
theorem Body.Stacked.exists_fits {self : Ty} {m : Method} {body : Body} {code : MethodCode}
    (hbody : m.body = some body) (hlower : (m.lower self).outcome = .ok code)
    (h : body.Stacked (.ofMethod self m body)) :
  ∃ g : Grading, g.Fits code
    ∧ ∀ l, .label l ∈ body.stmts ∧ (∀ t ∈ body.traps, t.handler ≠ l) → g.depth l = 0
  := by
  obtain ⟨body', locals, out, handlers, hbody', hlocals, hout, hresolve, rfl⟩ :=
    Method.lowerBody_eq_ok (Method.lower_eq_ok.mp hlower)
  obtain rfl := Option.some.inj (hbody.symm.trans hbody')
  obtain ⟨positions, -, -, hhandlers⟩ := resolveTraps_eq_ok hresolve
  have hreserved (l : Label) (hl : .label l ∈ body.stmts) : l.isReserved = false := by
    obtain ⟨_, _, _, hcode⟩ := Gen.forEach_mem hout _ hl
    apply Stmt.isReserved_of_code hcode
  have hgrades := Stmt.forEach_grades (Scope.fits_ofMethod self hlocals) body.stmts h.sized
    h.caught fun s hs l hl => hreserved l (h.targets s hs l hl)
  obtain ⟨-, depths, hrun⟩ := hgrades 0 0 out hout
  have hsuits := @Grading.suits_ofDepths (body.traps.map Trap.handler) depths
  use Grading.ofDepths (body.traps.map Trap.handler) depths
  constructor
  · constructor
    · apply Trap.mem_targets_iff hhandlers
    · intro l hl
      obtain ⟨t, ht, rfl⟩ := List.mem_map.mp hl
      apply (hsuits _ (hreserved _ (h.handlers t ht))).2.trans (if_pos hl)
    · use 0
      apply Grading.Run.withReturn
      apply hrun _ hsuits
      intro n _ _
      apply Grading.depth_madeUp
  · rintro l ⟨hl, hplain⟩
    rw [(hsuits l (hreserved l hl)).2, if_neg]
    intro hmem
    obtain ⟨t, ht, htarget⟩ := List.mem_map.mp hmem
    apply hplain t ht htarget

/-- Paths through the code of a method, and through the code that the optimizer makes of it,
come to each place at one depth whichever way they take. No instruction takes more than is on
the stack, the stack is empty at each label of a statement that is not that of a handler, and
the declared size of the stack suffices unless more is needed than can be declared. -/
theorem lower_disciplined {self : Ty} {m : Method} {body : Body} {code : MethodCode}
    (hbody : m.body = some body) (hlower : (m.lower self).outcome = .ok code)
    (hstacked : body.Stacked (.ofMethod self m body)) (henters : code.EnteredByThrows) :
  code.Disciplined (fun l => .label l ∈ body.stmts ∧ ∀ t ∈ body.traps, t.handler ≠ l)
    ∧ (Peephole.optimize code).Disciplined
      (fun l => .label l ∈ body.stmts ∧ ∀ t ∈ body.traps, t.handler ≠ l)
  := by
  obtain ⟨g, hfits, hempty⟩ := hstacked.exists_fits hbody hlower
  obtain ⟨hfits', henters'⟩ := Peephole.optimize_fits hfits henters
  apply And.intro (hfits.disciplined henters hempty) (hfits'.disciplined henters' hempty)

/-- Divides a hundred by `n`, or by one more if `n` is negative. Where the division fails, one is
added to the quotient before. -/
def guarded : Body :=
  ⟨[⟨"quotient", .int⟩, ⟨"problem", .object .object []⟩],
    [.assign (.var "quotient") (.literal (.int 0)),
      .label ⟨"start"⟩,
      .assign (.var "quotient") (.arith .div (.literal (.int 100)) (.arith .add (.var "n")
        (.compare .lt (.var "n") (.literal (.int 0)) .int) .int) .int),
      .label ⟨"stop"⟩,
      .goto ⟨"done"⟩,
      .label ⟨"failed"⟩,
      .assign (.var "problem") (.caught (.object .object [])),
      .assign (.var "quotient") (.arith .add (.var "quotient") (.literal (.int 1)) .int),
      .label ⟨"done"⟩,
      .ret (some (.var "quotient"))],
    [⟨⟨"start"⟩, ⟨"stop"⟩, ⟨"failed"⟩, none⟩]⟩

/-- The method with this body. -/
def guardedMethod : Method :=
  ⟨"guarded", staticFlag, [], [⟨"n", .int⟩], .int, [], some guarded⟩

/-- The code that the method is lowered to. -/
def guardedCode : List Instruction :=
  [.constant (.int 0), .store 1 .int, .label ⟨"start"⟩, .constant (.int 100), .load 0 .int,
    .load 0 .int, .constant (.int 0), .branch (.compare .int .ge) ⟨"#0"⟩, .constant (.int 1),
    .goto ⟨"#1"⟩, .label ⟨"#0"⟩, .constant (.int 0), .label ⟨"#1"⟩, .arith .add .int,
    .arith .div .int, .store 1 .int, .label ⟨"stop"⟩, .goto ⟨"done"⟩, .label ⟨"failed"⟩,
    .store 2 .reference, .load 1 .int, .constant (.int 1), .arith .add .int, .store 1 .int,
    .label ⟨"done"⟩, .load 1 .int, .ret (some .int)]

/-- The handler of the method. -/
def guardedHandler : Handler :=
  ⟨2, 16, ⟨"failed"⟩, none⟩

/-- The guarded method is lowered to its code, with one handler. -/
theorem lower_guarded :
  (guardedMethod.lower (.object ⟨[], ["Guard"]⟩ [])).outcome
    = .ok ⟨guardedCode, [guardedHandler], 1⟩
  := by
  have hlocals : Locals.ofMethod guardedMethod guarded = .ok ⟨[⟨"n", .int, 0⟩,
      ⟨"quotient", .int, 1⟩, ⟨"problem", .object .object [], 2⟩], 3⟩ := rfl
  have hout : Gen.forEach (Stmt.code ⟨.object ⟨[], ["Guard"]⟩ [], guardedMethod,
      ⟨[⟨"n", .int, 0⟩, ⟨"quotient", .int, 1⟩, ⟨"problem", .object .object [], 2⟩], 3⟩⟩)
        guarded.stmts 0 0 = .ok ⟨(), guardedCode, 2⟩ := by
    rfl
  have hpositions : ∃ positions, positionsFrom ∅ 0 guardedCode = .ok positions
      ∧ checkTargets positions guardedCode = .ok () := by
    simp [guardedCode, positionsFrom, checkTargets, Instruction.targets, Instruction.goto]
  obtain ⟨positions, hpositions, htargets⟩ := hpositions
  have hresolve : resolveTraps guardedCode guarded.traps = .ok [guardedHandler] := by
    rw [resolveTraps_of_positions hpositions htargets]
    apply Except.mapM_eq_ok_iff.mpr (.cons _ .nil)
    have hstart : trapPosition positions ⟨"start"⟩ = .ok 2 :=
      trapPosition_of_positions hpositions rfl
    have hstop : trapPosition positions ⟨"stop"⟩ = .ok 16 :=
      trapPosition_of_positions hpositions rfl
    have hfailed : trapPosition positions ⟨"failed"⟩ = .ok 18 :=
      trapPosition_of_positions hpositions rfl
    rw [Trap.handlerAt, hstart, hstop, hfailed]
    rfl
  apply Method.lower_of_forEach rfl hlocals hout hresolve

/-- The values in the guarded body have the slots that they should have. -/
theorem guarded_stacked (self : Ty) :
  guarded.Stacked (.ofMethod self guardedMethod guarded)
  := by
  have hvar (name : String) (type : Ty)
      (h : (Context.ofMethod self guardedMethod guarded).typeOf? name = some type) :
      Expr.Takes (.ofMethod self guardedMethod guarded) (.var name) type.slots := .var h
  constructor
  · intro s hs
    simp only [guarded, List.mem_cons, List.not_mem_nil, or_false] at hs
    obtain rfl | rfl | rfl | rfl | rfl | rfl | rfl | rfl | rfl | rfl := hs
    · exact .assignVar rfl .literal
    · exact .label
    · exact .assignVar rfl (.arith .literal (.arith (hvar "n" .int rfl)
        (.compare (hvar "n" .int rfl) .literal)))
    · exact .label
    · exact .goto
    · exact .label
    · exact .assignVar rfl .caught
    · exact .assignVar rfl (.arith (hvar "quotient" .int rfl) .literal)
    · exact .label
    · exact .retValue (hvar "quotient" .int rfl)
  · simp [guarded, Stmt.targets]
  · simp [guarded]
  · have hliteral (l : Literal) : (Expr.literal l).CaughtFree :=
      Expr.caughtFree_iff.mpr ⟨by simp, List.forall_mem_nil _⟩
    have hname (name : String) : (Expr.var name).CaughtFree :=
      Expr.caughtFree_iff.mpr ⟨by simp, List.forall_mem_nil _⟩
    have harith (op : ArithOp) {left right : Expr} (type : Ty) (hleft : left.CaughtFree)
        (hright : right.CaughtFree) : (Expr.arith op left right type).CaughtFree :=
      Expr.caughtFree_iff.mpr ⟨by simp, by simp [Expr.operands, hleft, hright]⟩
    have hcompare : (Expr.compare .lt (.var "n") (.literal (.int 0)) .int).CaughtFree :=
      Expr.caughtFree_iff.mpr ⟨by simp, by simp [Expr.operands, hliteral, hname]⟩
    simp [guarded, Stmt.PickUp, Stmt.operands, Place.operands, Stmt.entersHandler, Expr.PickUp,
      Expr.PicksUp, Expr.CaughtFirst.caught, hliteral, hname, harith, hcompare]

/-- The handler of the guarded method is entered by throws only. -/
theorem guarded_enteredByThrows :
  MethodCode.EnteredByThrows ⟨guardedCode, [guardedHandler], 1⟩
  := by
  apply MethodCode.enteredByThrows_of
  · intro h hmem target htarget
    obtain rfl := List.mem_singleton.mp hmem
    obtain ⟨hlt, -⟩ := List.getElem?_eq_some_iff.mp htarget
    have hplace : ∀ n < guardedCode.length,
        guardedCode[n]? = some (.label ⟨"failed"⟩) → n = 18 := by
      decide
    obtain rfl := hplace target hlt htarget
    use 17, .goto ⟨"done"⟩, rfl, rfl
    rfl
  · intro h hmem
    obtain rfl := List.mem_singleton.mp hmem
    decide

theorem lower_guarded_disciplined :
  MethodCode.Disciplined ⟨guardedCode, [guardedHandler], 1⟩
      (fun l => .label l ∈ guarded.stmts ∧ ∀ t ∈ guarded.traps, t.handler ≠ l)
    ∧ (Peephole.optimize ⟨guardedCode, [guardedHandler], 1⟩).Disciplined
      (fun l => .label l ∈ guarded.stmts ∧ ∀ t ∈ guarded.traps, t.handler ≠ l)
  := lower_disciplined rfl lower_guarded (guarded_stacked _) guarded_enteredByThrows

end ClassForge
