import ClassForge.Proofs.Build.Limits

/-!
# Classes with optimized code

The optimizer keeps code linked and puts in no calls and no texts, so a class that is compiled
without it is compiled with it as well, unless it has become too large. That can happen: a value
plus one is stored in three bytes, but to store the value and then increment the local takes four,
and a number of opposite sign may need an entry of its own.
-/

namespace ClassForge

/-! ### What rewriting puts in -/

/-- Whether the entry is a number. -/
def PoolEntry.isNumber : PoolEntry → Bool
  | .integer _ | .float _ | .long _ | .double _ => true
  | .utf8 _ | .string _ | .classRef _ | .fieldRef _ | .methodRef _ | .interfaceMethodRef _
  | .nameAndType .. => false

/-- A number refers to nothing else. -/
theorem PoolEntry.closure_of_isNumber {e : PoolEntry} (h : e.isNumber = true) :
  e.closure = [e]
  := by
  cases e <;> first | rfl | contradiction

/-- What is negated is a number. -/
theorem Constant.isNumber_of_negated? {c negated : Constant} (h : c.negated? = some negated)
    {e : PoolEntry} (he : e ∈ (Instruction.constant negated).poolNeeds) :
  e.isNumber = true
  := by
  have hform {entry : PoolEntry} {wide : Bool} (hform : negated.form = .pooled entry wide) :
      entry.isNumber = true := by
    cases c <;> simp only [Constant.negated?] at h <;> grind [Constant.form, PoolEntry.isNumber]
  rw [Instruction.poolNeeds] at he
  split at he
  · next hpooled =>
    obtain rfl := List.mem_singleton.mp he
    apply hform hpooled
  · contradiction

namespace Peephole

variable {window replacement : List Instruction}

/-- Rules put in no entries but numbers. -/
theorem Replaces.poolNeeds (h : Replaces window replacement) :
  ∀ e ∈ replacement.flatMap Instruction.poolNeeds,
    e.isNumber = true ∨ e ∈ window.flatMap Instruction.poolNeeds
  := by
  intro e he
  cases h with
  | foldNegation h =>
      left
      apply Constant.isNumber_of_negated? h
      simpa using he
  | duplicateRepeat h =>
      right
      simpa [Instruction.poolNeeds] using he
  | _ => simp [Instruction.poolNeeds] at he

/-- The optimizer puts in no entries but numbers. -/
theorem optimize_needs (code : MethodCode) :
  ∀ e ∈ (optimize code).needs, e.isNumber = true ∨ e ∈ code.needs
  := by
  apply optimize_preserves fun code' => ∀ e ∈ code'.needs, e.isNumber = true ∨ e ∈ code.needs
  · rintro _ _ ⟨p, rfl, rfl⟩ h e he
    have hcatch : p.target.handlers.filterMap (fun h => h.catchType.map PoolEntry.ofClass)
        = p.source.handlers.filterMap fun h => h.catchType.map PoolEntry.ofClass :=
      List.filterMap_map
    have hrest (he : e ∈ p.source.needs) : e.isNumber = true ∨ e ∈ code.needs := h e he
    rw [MethodCode.needs, hcatch, Site.target] at he
    rw [MethodCode.needs, Site.source] at hrest
    simp only [List.flatMap_append, List.mem_append] at he hrest
    obtain ((he | he) | he) | he := he
    · apply hrest (.inl (.inl (.inl he)))
    · obtain hnumber | he := p.replaces.poolNeeds e he
      · left
        apply hnumber
      · apply hrest (.inl (.inl (.inr he)))
    · apply hrest (.inl (.inr he))
    · apply hrest (.inr he)
  · intro e he
    right
    apply he

/-- The optimizer puts in no calls. -/
theorem mem_invoke_of_optimize (code : MethodCode) {method : MethodRef} {mode : InvokeMode} :
  .invoke method mode ∈ (optimize code).instructions → .invoke method mode ∈ code.instructions
  := by
  intro hmem
  have hall : ∀ i ∈ (optimize code).instructions,
      i = .invoke method mode → .invoke method mode ∈ code.instructions := by
    refine optimize_forall ?_ code ?_
    · rintro window replacement hreplaces _ _ hmem rfl
      apply absurd hmem (hreplaces.not_mem.1 method mode)
    · rintro _ hmem rfl
      apply hmem
  apply hall _ hmem rfl

end Peephole

/-! ### Plans -/

/-- The plan of the method with its code optimized. -/
def MethodPlan.optimized (m : MethodPlan) : MethodPlan :=
  { m with code := m.code.map Peephole.optimize }

/-- The plan of the class with its code optimized. -/
def ClassPlan.optimized (p : ClassPlan) : ClassPlan :=
  { p with methods := p.methods.map MethodPlan.optimized }

/-- With the optimizer the code of a method is planned as without it, and then optimized. -/
theorem Method.planCode_peephole (self : Ty) (m : Method) :
  (m.planCode self .peephole).outcome
    = (m.planCode self .none).outcome.map (Option.map Peephole.optimize)
  := by
  unfold Method.planCode
  split
  · rfl
  · rfl
  · rfl
  · rw [Traced.outcome_bind, Traced.outcome_bind]
    cases (m.lower self).outcome <;> rfl

/-- With the optimizer a method is planned as without it, but for its code. -/
theorem Method.plan_peephole {self : Ty} {m : Method} {p : MethodPlan}
    (h : (m.plan self .none).outcome = .ok p) :
  (m.plan self .peephole).outcome = .ok p.optimized
  := by
  rw [Method.plan, Traced.outcome_bind] at h ⊢
  obtain ⟨code, hcode, h⟩ := Except.bind_eq_ok_iff.mp h
  obtain rfl := Except.ok.inj h
  refine Except.bind_eq_ok_iff.mpr ⟨code.map Peephole.optimize, ?_, rfl⟩
  apply Except.mapError_eq_ok_iff.mpr
  rw [Method.planCode_peephole, Except.mapError_eq_ok_iff.mp hcode]
  rfl

/-- To optimize the code of a class is to optimize the code of its plan. -/
theorem ClassModel.plan_peephole {c : ClassModel} {p : ClassPlan}
    (h : (c.plan .none).outcome = .ok p) :
  (c.plan .peephole).outcome = .ok p.optimized
  := by
  obtain ⟨hfields, hmethods, rfl, hsignature⟩ := ClassModel.plan_eq_ok h
  have hoptimized : p.model.methods.mapM (fun m => (m.plan p.model.type.toTy .peephole).outcome)
      = .ok p.optimized.methods := by
    apply Except.mapM_eq_ok_iff.mpr
    apply List.forall₂_map_right_iff.mpr
    apply (Except.mapM_eq_ok_iff.mp hmethods).imp
    intro m p' h
    apply Method.plan_peephole h
  rw [ClassModel.plan, Traced.outcome_bind]
  apply Except.bind_eq_ok_iff.mpr ⟨_, hfields, _⟩
  rw [Traced.outcome_bind, Traced.outcome_mapM]
  apply Except.bind_eq_ok_iff.mpr ⟨_, hoptimized, _⟩
  rw [← hsignature]
  rfl

/-- Beyond what the code needs, optimized code needs numbers only. -/
theorem MethodPlan.needs_optimized (m : MethodPlan) :
  ∀ e ∈ m.optimized.needs, e.isNumber = true ∨ e ∈ m.needs
  := by
  intro e he
  cases hcode : m.code with
  | none =>
      right
      have hsame : m.optimized = m := by rw [optimized, hcode, Option.map_none, ← hcode]
      rwa [hsame] at he
  | some code =>
      have hneeds := Peephole.optimize_needs code e
      simp only [MethodPlan.needs, optimized, hcode, Option.map_some, List.mem_append,
        List.mem_cons] at he ⊢
      tauto

namespace ClassPlan

variable {p : ClassPlan} {pool : FrozenPool} {version : ClassVersion}

theorem exists_of_mem_optimized {m : MethodPlan} (hm : m ∈ p.optimized.methods)
    {code : MethodCode} (hcode : code ∈ m.code) :
  ∃ m' ∈ p.methods, ∃ code' ∈ m'.code, Peephole.optimize code' = code
  := by
  obtain ⟨m', hm', rfl⟩ := List.mem_map.mp hm
  obtain ⟨code', hcode', rfl⟩ := Option.map_eq_some_iff.mp hcode
  use m', hm', code', hcode'

/-- A class with optimized code needs nothing else but numbers. -/
theorem needs_optimized (p : ClassPlan) :
  ∀ e ∈ p.optimized.needs, e.isNumber = true ∨ e ∈ p.needs
  := by
  intro e he
  simp only [needs, List.mem_append] at he ⊢
  obtain he | he | he | he := he
  · exact .inr (.inl he)
  · exact .inr (.inr (.inl he))
  · obtain ⟨_, hmem, he⟩ := List.mem_flatMap.mp he
    obtain ⟨m, hm, rfl⟩ := List.mem_map.mp hmem
    obtain hnumber | he := m.needs_optimized e he
    · exact .inl hnumber
    · exact .inr (.inr (.inr (.inl (List.mem_flatMap.mpr ⟨m, hm, he⟩))))
  · exact .inr (.inr (.inr (.inr he)))

/-- A class with optimized code has no new texts. -/
theorem utf8_mem_of_optimized {text : String} (h : .utf8 text ∈ p.optimized.entries) :
  .utf8 text ∈ p.entries
  := by
  obtain ⟨need, hneed, hmem⟩ := mem_entries_iff.mp h
  apply mem_entries_iff.mpr
  obtain hnumber | hneed := p.needs_optimized need hneed
  · rw [PoolEntry.closure_of_isNumber hnumber] at hmem
    obtain rfl := List.mem_singleton.mp hmem
    contradiction
  · use need

/-- The optimizer keeps a class linked. -/
theorem Linked.optimized (h : p.Linked) :
  p.optimized.Linked
  := by
  constructor
  · intro m hm code hcode
    obtain ⟨m', hm', code', hcode', rfl⟩ := exists_of_mem_optimized hm hcode
    apply Peephole.optimize_linked code' (h.code m' hm' code' hcode')
  · intro m hm code hcode
    obtain ⟨m', hm', code', hcode', rfl⟩ := exists_of_mem_optimized hm hcode
    apply Optimizer.peephole_keepsSwitchesMade code' (h.switches m' hm' code' hcode')
  · intro text htext
    apply h.texts text (utf8_mem_of_optimized htext)

/-- The code of a method that is not optimized is the code that the method is lowered to. -/
theorem exists_lower_of_plan {c : ClassModel} (hplan : (c.plan .none).outcome = .ok p)
    {m : MethodPlan} (hm : m ∈ p.methods) {code : MethodCode} (hcode : code ∈ m.code) :
  ∃ method ∈ c.methods, ∃ body, method.body = some body
    ∧ (method.lower c.type.toTy).outcome = .ok code
  := by
  obtain ⟨-, hmethods, -, -⟩ := ClassModel.plan_eq_ok hplan
  obtain ⟨method, hmethod, hm⟩ := (Except.mapM_eq_ok_iff.mp hmethods).exists_of_mem_right hm
  obtain ⟨hplanned, -, -, -⟩ := Method.plan_eq_ok hm
  rw [show m.code = some code from hcode] at hplanned
  obtain ⟨-, hnone⟩ | ⟨body, lowered, hbody, hlower, hcode⟩ := Method.planCode_eq_ok hplanned
  · contradiction
  · obtain rfl : code = lowered := Option.some.inj hcode
    exact ⟨method, hmethod, body, hbody, hlower⟩

/-- A class that was written without its code being optimized is linked, unless it has large
switches. -/
theorem linked_of_classFile {c : ClassModel} {file : ClassFile}
    (hmoderate : ∀ m ∈ c.methods, ∀ body ∈ m.body, body.SwitchesModerate)
    (hplan : (c.plan .none).outcome = .ok p) (hpool : p.pool.outcome = .ok pool)
    (hfile : (p.classFile version pool).outcome = .ok file) :
  p.Linked
  := by
  constructor
  · intro m hm code hcode
    obtain ⟨out, hout⟩ := exists_assemble_of_classFile hfile hm hcode
    obtain ⟨method, -, body, -, hlower⟩ := exists_lower_of_plan hplan hm hcode
    apply Method.linked_of_encodable (Method.lower_eq_ok.mp hlower)
    apply MethodCode.encodable_of_assemble hout
  · intro m hm code hcode
    obtain ⟨method, hmethod, body, hbody, hlower⟩ := exists_lower_of_plan hplan hm hcode
    apply Method.switchesMade_of_lower hbody (hmoderate method hmethod body hbody) hlower
  · intro text htext
    obtain ⟨cp, hsound, rfl⟩ := exists_sound_of_pool hpool
    obtain ⟨-, hneeds⟩ := pool_eq_ok hpool
    obtain ⟨need, hneed, hmem⟩ := mem_entries_iff.mp htext
    have hstored :=
      hsound.mem_of_reflTransGen (hneeds need hneed) (PoolEntry.mem_closure_iff.mp hmem)
    obtain ⟨i, hi⟩ := hsound.mem_indices_iff.mp hstored
    apply Nat.le_of_not_lt
    intro hlong
    apply hsound.records_ne_ok hi hlong (madeInto_of_ok hfile).constPool

end ClassPlan

/-! ### Compiling -/

/-- Whether the constant pool, some code or the distance of a branch has become too large. -/
def CompileError.isOversize : CompileError → Bool
  | .pool source => source.isOverflow
  | .encode _ _ source =>
    match source with
    | .codeTooLong _ | .branchOutOfRange .. | .branchGrew .. => true
    | _ => false
  | _ => false

/-- Where calls can be counted, what goes beyond the limits is too large. -/
theorem MethodCode.Exceeds.isOversize {pool : FrozenPool} {code : MethodCode} {e : CompileError}
    (h : code.Exceeds pool e) (hcalls : code.CallsCounted) :
  e.root.isOversize = true
  := by
  cases h with
  | length h =>
      obtain ⟨-⟩ := h
      rfl
  | instruction _ hk _ h =>
      cases h with
      | outOfRange | grew => rfl
      | arguments hmany => apply absurd (hcalls _ (List.mem_of_getElem? hk)) hmany

theorem CompileError.Overflow.isOversize {e : CompileError} (h : e.Overflow) :
  e.root.isOversize = true
  := by
  obtain ⟨source, hroot, hoverflow⟩ := h
  rw [hroot]
  apply hoverflow

namespace ClassModel

variable {c : ClassModel} {version : ClassVersion}

/-- A class that is built without its code being optimized is refused with it only for its
size. -/
theorem build_peephole_failsOnly {p : ClassPlan} {file : ClassFile}
    (hplan : (c.plan .none).outcome = .ok p) (hlinked : p.Linked)
    (h : (c.build version .none).outcome = .ok file) :
  FailsOnly (fun e => e.root.isOversize = true) (c.build version .peephole).outcome
  := by
  have hwithin : p.WithinLimits := (exists_build_iff hplan hlinked).mp ⟨file, h⟩
  apply build_failsOnly (plan_peephole hplan) hlinked.optimized
  · intro _ e he
    apply he.isOversize
  · intro pool _ m hm code hcode e he
    apply he.isOversize
    intro method hmem
    obtain ⟨m', hm', code', hcode', rfl⟩ := ClassPlan.exists_of_mem_optimized hm hcode
    apply hwithin.calls m' hm' code' hcode' method (Peephole.mem_invoke_of_optimize code' hmem)

/-- A class that is compiled, to bytes or to a listing, without its code being optimized is
compiled with it exactly if the optimized class is within the limits of the format. Otherwise the
error says what has become too large. No switch may have so many cases that 32 bits do not hold its
length. -/
theorem compiles_peephole_iff
    (hmoderate : ∀ m ∈ c.methods, ∀ body ∈ m.body, body.SwitchesModerate)
    (h : (∃ bytes, (c.compile ⟨version, .none⟩).outcome = .ok bytes)
      ∨ ∃ text, (c.listing? ⟨version, .none⟩).outcome = .ok text) :
  ∃ p, (c.plan .none).outcome = .ok p ∧ (c.plan .peephole).outcome = .ok p.optimized
    ∧ (c.Compiles ⟨version, .peephole⟩ ↔ p.optimized.WithinLimits)
    ∧ ∀ e, (c.compile ⟨version, .peephole⟩).outcome = .error e
        ∨ (c.listing? ⟨version, .peephole⟩).outcome = .error e →
      e.root.isOversize = true
  := by
  rw [outcome_compile, outcome_listing?] at h
  obtain ⟨file, hbuild⟩ : ∃ file, (c.build version .none).outcome = .ok file := by
    cases hbuild : (c.build version .none).outcome with
    | error e => simp [hbuild, Except.map] at h
    | ok file => use file
  obtain ⟨p, pool, hplan, hpool, hfile⟩ := exists_plan_of_build hbuild
  have hlinked := ClassPlan.linked_of_classFile hmoderate hplan hpool hfile
  have hfails := build_peephole_failsOnly hplan hlinked hbuild
  use p, hplan, plan_peephole hplan
  constructor
  · rw [compiles_iff]
    apply exists_build_iff (plan_peephole hplan) hlinked.optimized
  · intro e he
    rw [outcome_compile, outcome_listing?] at he
    cases hbuild : (c.build version .peephole).outcome with
    | error e' =>
        obtain rfl : e' = e := by simpa [hbuild, Except.map] using he
        apply hfails.of_error hbuild
    | ok file => simp [hbuild, Except.map] at he

end ClassModel

/-! ### A class at the limit -/

/-- A body that stores a value plus one and then returns, `n + 1` times over. -/
def paddedBody (n : Nat) : Body :=
  ⟨[], .assign (.var "a") (.arith .add (.var "b") (.literal (.int 1)) .int)
    :: List.replicate (n + 1) (.ret none), []⟩

/-- The method with this body. -/
def paddedMethod (n : Nat) : Method :=
  ⟨"pad", staticFlag, [], [⟨"a", .int⟩, ⟨"b", .int⟩], .void, [], some (paddedBody n)⟩

/-- The class with this method. -/
def padded (n : Nat) : ClassModel :=
  ⟨⟨⟨[], ["A"]⟩, []⟩, none, [], 0x21, [], [], [paddedMethod n], [], none⟩

/-- The code that the method is lowered to. -/
def paddedCode (n : Nat) : MethodCode :=
  ⟨[.load 1 .int, .constant (.int 1), .arith .add .int, .store 0 .int]
    ++ List.replicate (n + 1) (.ret none), [], 2⟩

/-- The code that the optimizer makes of it. -/
def improvedPadded (n : Nat) : MethodCode :=
  ⟨[.load 1 .int, .store 0 .int, .increment 0 1] ++ List.replicate (n + 1) (.ret none), [], 2⟩

/-- The plan of the class, with some code of the method. -/
def paddedPlan (n : Nat) (code : MethodCode) : ClassPlan :=
  ⟨padded n, [], [⟨paddedMethod n, "(II)V", none, some code⟩], none⟩

/-- Returns are emitted one after another. -/
theorem Gen.forEach_ret {scope : Scope} (h : scope.method.result.isVoid = true)
    (n index labels : Nat) :
  forEach (Stmt.code scope) (List.replicate n (.ret none)) index labels
    = .ok ⟨(), List.replicate n (.ret none), labels⟩
  := by
  induction n generalizing index with
  | zero => rfl
  | succ n ih =>
      have hret : Stmt.code scope (.ret none) = emit (.ret none) := by
        rw [Stmt.code, if_pos h]
      rw [List.replicate_succ, forEach_cons, hret]
      apply bind_eq_ok.mpr ⟨_, _, rfl, ih _, _⟩
      rfl

/-- Returns have no labels. -/
theorem positionsFrom_ret (positions : Positions) (index n : Nat) :
  positionsFrom positions index (List.replicate n (.ret none)) = .ok positions
  := by
  induction n generalizing index with
  | zero => rfl
  | succ n ih =>
      rw [List.replicate_succ, positionsFrom]
      · apply ih
      · simp

theorem isStatic_padded (n : Nat) :
  (paddedMethod n).isStatic = true
  := by
  change hasFlag staticFlag staticFlag = true
  rfl

/-- The padded method is lowered to an addition and as many returns as it has. -/
theorem lower_padded (n : Nat) :
  ((paddedMethod n).lower (.object ⟨[], ["A"]⟩ [])).outcome = .ok (paddedCode n)
  := by
  have hlocals : Locals.ofMethod (paddedMethod n) (paddedBody n)
      = .ok ⟨[⟨"a", .int, 0⟩, ⟨"b", .int, 1⟩], 2⟩ := by
    rw [Locals.ofMethod, isStatic_padded]
    rfl
  have hout : Gen.forEach (Stmt.code ⟨.object ⟨[], ["A"]⟩ [], paddedMethod n,
      ⟨[⟨"a", .int, 0⟩, ⟨"b", .int, 1⟩], 2⟩⟩) (paddedBody n).stmts 0 0
        = .ok ⟨(), (paddedCode n).instructions, 0⟩ := by
    rw [paddedBody, Gen.forEach_cons]
    apply Gen.bind_eq_ok.mpr ⟨_, _, rfl, Gen.forEach_ret rfl _ _ _, _⟩
    rfl
  have hreturn : withReturn .void (paddedCode n).instructions = (paddedCode n).instructions := by
    rw [withReturn, paddedCode, List.replicate_succ', ← List.append_assoc, List.getLast?_concat]
  have hresolve : resolveTraps (withReturn .void (paddedCode n).instructions) [] = .ok [] := by
    have hpositions : positionsFrom ∅ 0 (paddedCode n).instructions = .ok ∅ := by
      simp [paddedCode, positionsFrom, positionsFrom_ret]
    have htargets : (paddedCode n).instructions.flatMap Instruction.targets = [] := by
      apply List.flatMap_eq_nil_iff.mpr
      intro i hi
      obtain rfl | rfl | rfl | rfl | rfl : i = .load 1 .int ∨ i = .constant (.int 1)
          ∨ i = .arith .add .int ∨ i = .store 0 .int ∨ i = .ret none := by
        simpa [paddedCode] using hi
      all_goals rfl
    rw [hreturn, resolveTraps_of_positions hpositions]
    · rfl
    · rw [checkTargets, htargets]
      rfl
  have hlower := Method.lower_of_forEach (m := paddedMethod n) rfl hlocals hout hresolve
  rw [hlower, isStatic_padded]
  change Except.ok (MethodCode.mk (withReturn .void (paddedCode n).instructions) [] 2) = _
  rw [hreturn]
  rfl

/-- There is nothing to rewrite among returns. -/
theorem Peephole.scan_ret (done : List Instruction) (index n : Nat) (applied : List (Rule × Nat)) :
  scan done index [] applied (List.replicate n (.ret none))
    = ⟨done.reverse ++ List.replicate n (.ret none), [], applied.reverse⟩
  := by
  induction n generalizing done index with
  | zero => simp [scan]
  | succ n ih =>
      have hstep : step? (.ret none :: List.replicate n (.ret none)) = none := by
        cases n <;> rfl
      rw [List.replicate_succ, scan, hstep]
      simp [ih]

/-- In the padded method the addition is the only thing that is rewritten. -/
theorem optimize_padded (n : Nat) :
  Peephole.optimize (paddedCode n) = improvedPadded n
  := by
  have hdelta : Peephole.delta? .add 1 = some 1 := rfl
  have hfirst : Peephole.pass (paddedCode n).instructions []
      = ⟨(improvedPadded n).instructions, [], [(.storeThenIncrement, 1)]⟩ := by
    simp [Peephole.pass, paddedCode, improvedPadded, Peephole.scan, Peephole.step?,
      Peephole.dropPopped?, Peephole.incrementInPlace?, Peephole.storeThenIncrement?,
      Peephole.compareWithNull?, Peephole.foldNegation?, Peephole.duplicateRepeat?, hdelta,
      anyStraddles, shiftAll, Peephole.scan_ret]
  have hsecond : Peephole.pass (improvedPadded n).instructions []
      = ⟨(improvedPadded n).instructions, [], []⟩ := by
    have hincrement :
        Peephole.step? (.increment 0 1 :: List.replicate (n + 1) (.ret none)) = none := rfl
    have hstore {code : List Instruction} :
        Peephole.step? (.store 0 .int :: .increment 0 1 :: code) = none := rfl
    have hload {code : List Instruction} :
        Peephole.step? (.load 1 .int :: .store 0 .int :: code) = none := rfl
    simp [Peephole.pass, improvedPadded, Peephole.scan, hload, hstore, hincrement,
      Peephole.scan_ret]
  have hpasses : Peephole.passes (paddedCode n).instructions []
      = [⟨(improvedPadded n).instructions, [], [(.storeThenIncrement, 1)]⟩,
        ⟨(improvedPadded n).instructions, [], []⟩] := by
    rw [Peephole.passes, hfirst, if_neg (List.cons_ne_nil _ _), Peephole.passes, hsecond,
      if_pos rfl]
  rw [Peephole.optimize, show (paddedCode n).handlers = [] from rfl, hpasses]
  rfl

/-- The plan of the class with the padded method. -/
theorem plan_padded (n : Nat) :
  ((padded n).plan .none).outcome = .ok (paddedPlan n (paddedCode n))
  := by
  have hcode : ((paddedMethod n).planCode (.object ⟨[], ["A"]⟩ []) .none).outcome
      = .ok (some (paddedCode n)) := by
    have hbodiless : (paddedMethod n).isBodiless = false := by
      change hasFlag staticFlag (abstractFlag ||| nativeFlag) = false
      rfl
    rw [Method.planCode, hbodiless]
    change ((paddedMethod n).lower _ >>= _).outcome = _
    rw [Traced.outcome_bind, lower_padded]
    rfl
  have hmethod : ((paddedMethod n).plan (.object ⟨[], ["A"]⟩ []) .none).outcome
      = .ok ⟨paddedMethod n, "(II)V", none, some (paddedCode n)⟩ := by
    rw [Method.plan, Traced.outcome_bind]
    apply Except.bind_eq_ok_iff.mpr ⟨_, Except.mapError_eq_ok_iff.mpr hcode, _⟩
    rfl
  have hsignature : (padded n).signature? = none := by
    simp [ClassModel.signature?, ClassModel.isGeneric, padded]
  have hmethods : (padded n).methods.mapM
      (fun m => (m.plan (padded n).type.toTy .none).outcome)
        = .ok [⟨paddedMethod n, "(II)V", none, some (paddedCode n)⟩] :=
    Except.mapM_eq_ok_iff.mpr (.cons hmethod .nil)
  rw [ClassModel.plan, Traced.outcome_bind]
  apply Except.bind_eq_ok_iff.mpr ⟨[], rfl, _⟩
  rw [Traced.outcome_bind, Traced.outcome_mapM]
  apply Except.bind_eq_ok_iff.mpr ⟨_, hmethods, _⟩
  rw [hsignature]
  rfl

theorem needs_padded (n : Nat) :
  (paddedCode n).needs = []
  := by
  simp [MethodCode.needs, paddedCode, Instruction.poolNeeds, Constant.form]

/-- The pool of the class holds its name and what its method needs, however long the method is. -/
theorem entries_padded (n : Nat) {code : MethodCode} (h : code.needs = []) :
  (paddedPlan n code).entries
    = [.utf8 "A", .classRef "A", .utf8 "pad", .utf8 "(II)V", .utf8 "Code"]
  := by
  have hneeds : (paddedPlan n code).needs
      = [.classRef "A", .utf8 "pad", .utf8 "(II)V", .utf8 "Code"] := by
    have hentry : ClassType.entry ⟨⟨[], ["A"]⟩, []⟩ = .classRef "A" := rfl
    simp [ClassPlan.needs, ClassPlan.headNeeds, paddedPlan, padded, paddedMethod, hentry,
      signatureNeeds, ClassPlan.innerNeeds, ClassPlan.sourceNeeds, MethodPlan.needs, h]
  rw [ClassPlan.entries, hneeds]
  rfl

/-- The code of the padded method is linked. -/
theorem linked_padded (n : Nat) :
  (paddedPlan n (paddedCode n)).Linked
  := by
  constructor
  · intro m hm code hcode
    obtain rfl := List.mem_singleton.mp hm
    obtain rfl := Option.some.inj hcode
    apply Method.linked_of_encodable (Method.lower_eq_ok.mp (lower_padded n))
    rintro i hi elem rfl
    simp [paddedCode] at hi
  · intro m hm code hcode
    obtain rfl := List.mem_singleton.mp hm
    obtain rfl := Option.some.inj hcode
    intro s hs
    simp [paddedCode] at hs
  · intro text htext
    rw [entries_padded n (needs_padded n)] at htext
    obtain rfl | rfl | rfl | rfl : text = "A" ∨ text = "pad" ∨ text = "(II)V" ∨ text = "Code" := by
      simpa using htext
    all_goals decide

theorem switchesModerate_padded (n : Nat) :
  ∀ m ∈ (padded n).methods, ∀ body ∈ m.body, body.SwitchesModerate
  := by
  simp [padded, paddedMethod, paddedBody, Body.SwitchesModerate]

/-- Each return takes one byte. -/
theorem reserved_ret (pool : FrozenPool) (code : List Instruction) (n : Nat) :
  reserved pool (code ++ List.replicate n (.ret none)) = reserved pool code + n
  := by
  induction n with
  | zero => simp
  | succ n ih =>
      rw [List.replicate_succ', ← List.append_assoc, reserved_concat, ih]
      rfl

/-- The class is within the limits if the code of its method is not too long. -/
theorem withinLimits_padded_iff {n size : Nat} {code : MethodCode} (hneeds : code.needs = [])
    (hsize : ∀ pool, reserved pool code.instructions = size)
    (hbranch : ∀ test target, .branch test target ∉ code.instructions)
    (hinvoke : ∀ method mode, .invoke method mode ∉ code.instructions) :
  (paddedPlan n code).WithinLimits ↔ size ≤ 65535
  := by
  have hpool : 1 + ConstantPool.totalWidth (paddedPlan n code).entries ≤ 65535 := by
    rw [entries_padded n hneeds]
    decide
  constructor
  · intro h
    have hlimits := h.code _ (ClassPlan.pool_of_fits hpool) _ (List.mem_singleton_self _) code rfl
    rw [← hsize]
    apply hlimits.length
  · intro hle
    use hpool
    · intro pool _ m hm code' hcode
      obtain rfl := List.mem_singleton.mp hm
      obtain rfl := Option.some.inj hcode
      constructor
      · rwa [hsize]
      · intro k k' test target hk
        apply absurd (List.mem_of_getElem? hk) (hbranch test target)
    · intro m hm code' hcode method hmem
      obtain rfl := List.mem_singleton.mp hm
      obtain rfl := Option.some.inj hcode
      apply absurd hmem (hinvoke method .interface)

/-- Without the optimizer the class is compiled up to 65535 bytes of code. -/
theorem compiles_padded_none_iff {n : Nat} :
  (padded n).Compiles ⟨{}, .none⟩ ↔ n ≤ 65530
  := by
  have hsize (pool : FrozenPool) : reserved pool (paddedCode n).instructions = n + 5 := by
    rw [paddedCode, reserved_ret]
    change 4 + (n + 1) = n + 5
    omega
  rw [ClassModel.compiles_iff, ClassModel.exists_build_iff (plan_padded n) (linked_padded n),
    withinLimits_padded_iff (needs_padded n) hsize]
  · omega
  · simp [paddedCode]
  · simp [paddedCode]

/-- Optimized, the code is a byte longer, so there is room for one return less. -/
theorem withinLimits_optimized_padded_iff {n : Nat} :
  (paddedPlan n (paddedCode n)).optimized.WithinLimits ↔ n ≤ 65529
  := by
  have hneeds : (improvedPadded n).needs = [] := by
    simp [MethodCode.needs, improvedPadded, Instruction.poolNeeds]
  have hsize (pool : FrozenPool) : reserved pool (improvedPadded n).instructions = n + 6 := by
    rw [improvedPadded, reserved_ret]
    change 5 + (n + 1) = n + 6
    omega
  have hoptimized : (paddedPlan n (paddedCode n)).optimized = paddedPlan n (improvedPadded n) := by
    rw [← optimize_padded]
    rfl
  rw [hoptimized, withinLimits_padded_iff hneeds hsize]
  · omega
  · simp [improvedPadded]
  · simp [improvedPadded]

/-- With one byte left the optimized class is compiled, with none left it is refused. -/
theorem padded_compiles_peephole :
  ((padded 65529).Compiles ⟨{}, .none⟩ ∧ (padded 65529).Compiles ⟨{}, .peephole⟩)
    ∧ (padded 65530).Compiles ⟨{}, .none⟩
    ∧ ∃ e, ((padded 65530).compile ⟨{}, .peephole⟩).outcome = .error e
      ∧ e.root.isOversize = true
  := by
  have hcompiles : (padded 65529).Compiles ⟨{}, .none⟩ :=
    compiles_padded_none_iff.mpr (Nat.le_succ _)
  have hcompiles' : (padded 65530).Compiles ⟨{}, .none⟩ :=
    compiles_padded_none_iff.mpr (Nat.le_refl _)
  obtain ⟨p, hplan, -, hiff, -⟩ :=
    ClassModel.compiles_peephole_iff (switchesModerate_padded _) (.inl hcompiles.1)
  obtain ⟨p', hplan', -, hiff', herror⟩ :=
    ClassModel.compiles_peephole_iff (switchesModerate_padded _) (.inl hcompiles'.1)
  obtain rfl := Except.ok.inj ((plan_padded _).symm.trans hplan)
  obtain rfl := Except.ok.inj ((plan_padded _).symm.trans hplan')
  rw [withinLimits_optimized_padded_iff] at hiff hiff'
  refine ⟨⟨hcompiles, hiff.mpr (Nat.le_refl _)⟩, hcompiles', ?_⟩
  cases hout : ((padded 65530).build {} .peephole).outcome with
  | error e =>
      have hcompile : ((padded 65530).compile ⟨{}, .peephole⟩).outcome = .error e := by
        rw [ClassModel.outcome_compile, hout]
        rfl
      use e, hcompile
      apply herror e (.inl hcompile)
  | ok file =>
      have hle := hiff'.mp (ClassModel.compiles_iff.mpr ⟨file, hout⟩)
      omega

/-- A class that is compiled only without the optimizer. -/
theorem padded_refused_peephole :
  (∃ bytes, ((padded 65530).compile ⟨{}, .none⟩).outcome = .ok bytes)
    ∧ ¬ ∃ bytes, ((padded 65530).compile ⟨{}, .peephole⟩).outcome = .ok bytes
  := by
  use (compiles_padded_none_iff.mpr (Nat.le_refl _)).1
  rw [ClassModel.exists_compile_iff, ClassModel.exists_build_iff
    (ClassModel.plan_peephole (plan_padded 65530)) (linked_padded 65530).optimized,
    withinLimits_optimized_padded_iff]
  omega

end ClassForge
