import ClassForge.Proofs.Assembly.Resolution
import ClassForge.Proofs.Linking.Lowering
import ClassForge.Proofs.Peephole.Preservation
import ClassForge.Proofs.Pool.Resolution

/-!
# From traps to exception entries

A trap names the labels of its range and of its handler. Lowering puts the places of the two
labels into a handler, every step of rewriting moves these places along with the labels, and
assembly puts their offsets into an exception entry. So whatever is rewritten before, within or
after the range, the entry has the offsets of the labels of the trap, and a trap has no entry
exactly if no bytes are left between its labels.
-/

namespace ClassForge

open Machine

/-- The offset of a label in code whose instructions have the offsets. -/
def MethodCode.offsetOf? (code : MethodCode) (offsets : List Nat) (l : Label) : Option Nat := do
  offsets[← placeOf? code.instructions l]?

/-- The exception entry is that of the trap, with the offsets of its labels. -/
structure ExceptionEntry.Guards (offsetOf? : Label → Option Nat) (pool : FrozenPool) (t : Trap)
    (e : ExceptionEntry) : Prop where
  start : offsetOf? t.start = some e.start.toNat
  stop : offsetOf? t.stop = some e.stop.toNat
  handler : offsetOf? t.handler = some e.handler.toNat
  start_lt_stop : e.start < e.stop
  catchAll : e.catchType = 0 ↔ t.catchType = none
  catchType : ∀ type, t.catchType = some type → pool.classIndex type = .ok e.catchType

/-! ### Handlers of traps -/

/-- The handler is that of the trap, with the places of its labels. -/
structure Trap.Marks (code : List Instruction) (t : Trap) (h : Handler) : Prop where
  start : placeOf? code t.start = some h.start
  stop : placeOf? code t.stop = some h.stop
  le : h.start ≤ h.stop
  handler : ∃ place, placeOf? code t.handler = some place
  target : h.target = t.handler
  catchType : h.catchType = t.catchType

/-- The handler of a trap marks the places of the labels of the trap. -/
theorem Trap.marks_of_handlerAt {positions : Positions} {code : List Instruction} {t : Trap}
    {h : Handler} (hpositions : positionsFrom ∅ 0 code = .ok positions)
    (hh : t.handlerAt positions = .ok h) :
  t.Marks code h
  := by
  have hplace {l : Label} {place : Nat} (hl : trapPosition positions l = .ok place) :
      placeOf? code l = some place := by
    apply placeOf?_of_positions hpositions
    exact (getElem?_of_positions hpositions).mp (trapPosition_eq_ok.mp hl)
  obtain ⟨start, hstart, hh⟩ := Except.bind_eq_ok_iff.mp hh
  obtain ⟨stop, hstop, hh⟩ := Except.bind_eq_ok_iff.mp hh
  obtain ⟨handler, hhandler, hh⟩ := Except.bind_eq_ok_iff.mp hh
  split at hh
  · contradiction
  · next hle =>
    obtain rfl := Except.ok.inj hh
    exact ⟨hplace hstart, hplace hstop, Nat.le_of_not_lt hle, ⟨handler, hplace hhandler⟩, rfl, rfl⟩

/-- The handlers of the code are those of the traps, in order. -/
abbrev MethodCode.Traps (code : MethodCode) (traps : List Trap) : Prop :=
  List.Forall₂ (Trap.Marks code.instructions) traps code.handlers

/-- Lowering gives code the handlers of the traps. -/
theorem Method.traps_of_lower {self : Ty} {m : Method} {body : Body} {code : MethodCode}
    (hbody : m.body = some body) (h : (m.lower self).outcome = .ok code) :
  code.Traps body.traps
  := by
  rw [Method.lower_eq_ok] at h
  obtain ⟨body', locals, out, handlers, hbody', -, -, hhandlers, rfl⟩ := Method.lowerBody_eq_ok h
  obtain rfl := Option.some.inj (hbody.symm.trans hbody')
  obtain ⟨positions, hpositions, -, hhandlers⟩ := resolveTraps_eq_ok hhandlers
  exact (Except.mapM_eq_ok_iff.mp hhandlers).imp fun _ _ => Trap.marks_of_handlerAt hpositions

/-! ### Rewriting -/

namespace Peephole

namespace Site

variable {p : Site}

/-- Places outside of the window keep their order. -/
theorem moved_mono {place place' : Nat} (h : p.Outside place) (h' : p.Outside place')
    (hle : place ≤ place') :
  p.moved place ≤ p.moved place'
  := by
  have hlt := p.start_lt_stop
  rcases h' with h' | h'
  · rwa [moved_of_lt (by omega), moved_of_lt (by omega)]
  · obtain ⟨n, rfl⟩ := Nat.exists_eq_add_of_le h'
    rw [moved_add]
    rcases h with h | h
    · rw [moved_of_lt (by omega)]
      omega
    · obtain ⟨m, rfl⟩ := Nat.exists_eq_add_of_le h
      rw [moved_add]
      omega

/-- The handler of a trap is moved along with the labels. -/
theorem marks (p : Site) {t : Trap} {h : Handler} (hmarks : t.Marks p.source.instructions h) :
  t.Marks p.target.instructions (h.shift p.stop p.window.length p.replacement.length)
  := by
  obtain ⟨place, hplace⟩ := hmarks.handler
  constructor
  case start =>
    rw [p.placeOf?_moved, hmarks.start]
    rfl
  case stop =>
    rw [p.placeOf?_moved, hmarks.stop]
    rfl
  case le =>
    exact moved_mono (outside_of_placeOf? hmarks.start) (outside_of_placeOf? hmarks.stop) hmarks.le
  case handler =>
    use p.moved place
    rw [p.placeOf?_moved, hplace]
    rfl
  case target => exact hmarks.target
  case catchType => exact hmarks.catchType

theorem traps (p : Site) {traps : List Trap} (h : p.source.Traps traps) :
  p.target.Traps traps
  := List.forall₂_map_right_iff.mpr (h.imp fun _ _ => p.marks)

end Site

theorem optimize_traps {code : MethodCode} {traps : List Trap} (h : code.Traps traps) :
  (optimize code).Traps traps
  := by
  apply optimize_preserves (MethodCode.Traps · traps) _ code h
  rintro _ _ ⟨p, rfl, rfl⟩ h
  exact p.traps h

end Peephole

/-- The optimizers keep the handlers of the traps. -/
theorem Optimizer.traps_run {optimizer : Optimizer}
    (hoptimizer : optimizer = .peephole ∨ optimizer = .none) {code : MethodCode}
    {traps : List Trap} (h : code.Traps traps) :
  (optimizer.run code).Traps traps
  := by
  rcases hoptimizer with rfl | rfl
  · exact Peephole.optimize_traps h
  · exact h

/-! ### Assembly -/

/-- The offset of a label is that of its first place in the code. -/
theorem LabelOffset.placeOf? {code : List Instruction} {offsets : List Nat} {l : Label}
    {offset : Nat} (h : LabelOffset code offsets l offset) :
  ∃ place, Machine.placeOf? code l = some place ∧ offsets[place]? = some offset
  := by
  obtain ⟨place, hplace, hoffset⟩ := h
  use place
  refine ⟨?_, hoffset⟩
  cases hfound : Machine.placeOf? code l with
  | none =>
      have hmem := List.mem_of_getElem? ((hplace place).mpr rfl)
      have hnone := List.findIdx?_eq_none_iff.mp hfound _ hmem
      simp at hnone
  | some place' => rw [(hplace place').mp (getElem?_of_placeOf? hfound)]

section

variable {code : MethodCode} {pool : ConstantPool} {layout : Layout} {t : Trap} {h : Handler}

theorem MethodCode.offsetOf?_of_place {offsets : List Nat} {l : Label} {place : Nat}
    (hplace : placeOf? code.instructions l = some place) :
  code.offsetOf? offsets l = offsets[place]?
  := by
  rw [offsetOf?, hplace]
  rfl

/-- A label that stands in the code has an offset. -/
theorem Layout.Covers.exists_offsetOf? {pool : FrozenPool}
    (hcovers : layout.Covers pool code.instructions) {l : Label} {place : Nat}
    (hplace : placeOf? code.instructions l = some place) :
  ∃ offset, code.offsetOf? layout.boundaries l = some offset
  := by
  obtain ⟨hlt, -⟩ := List.getElem?_eq_some_iff.mp (getElem?_of_placeOf? hplace)
  have hlt : place < layout.boundaries.length := by
    rw [hcovers.length]
    exact Nat.lt_succ_of_lt hlt
  rw [MethodCode.offsetOf?_of_place hplace]
  exact ⟨_, List.getElem?_eq_getElem hlt⟩

/-- The handlers whose ranges have bytes are those of the traps between whose labels there are
bytes. -/
theorem MethodCode.Traps.filter {traps : List Trap} (h : code.Traps traps) (offsets : List Nat) :
  List.Forall₂ (Trap.Marks code.instructions)
    (traps.filter fun t => code.offsetOf? offsets t.start ≠ code.offsetOf? offsets t.stop)
    (code.handlers.filter fun h => offsets[h.start]? ≠ offsets[h.stop]?)
  := by
  apply List.rel_filter _ h
  intro t h hmarks
  beta_reduce
  rw [offsetOf?_of_place hmarks.start, offsetOf?_of_place hmarks.stop]

/-- The entry of the handler of a trap is that of the trap. -/
theorem Trap.Marks.guards (hsound : pool.Sound) (hmade : SwitchesMade code.instructions)
    (hcovers : layout.Covers pool.freeze code.instructions) (hmarks : t.Marks code.instructions h)
    (hne : code.offsetOf? layout.boundaries t.start ≠ code.offsetOf? layout.boundaries t.stop)
    {e : ExceptionEntry}
    (hdescribes : e.Describes code.instructions layout.boundaries pool.freeze h) :
  e.Guards (code.offsetOf? layout.boundaries) pool.freeze t
  := by
  have hindex {type : Ty} (htype : t.catchType = some type) :
      pool.index? (.ofClass type) = some e.catchType :=
    hdescribes.catchType type (hmarks.catchType.trans htype)
  have hstart := (MethodCode.offsetOf?_of_place hmarks.start).trans hdescribes.start
  have hstop := (MethodCode.offsetOf?_of_place hmarks.stop).trans hdescribes.stop
  constructor
  case start => exact hstart
  case stop => exact hstop
  case handler =>
    obtain ⟨place, hplace, hoffset⟩ := hdescribes.handler.placeOf?
    rw [hmarks.target] at hplace
    exact (MethodCode.offsetOf?_of_place hplace).trans hoffset
  case start_lt_stop =>
    rw [UInt16.lt_iff_toNat_lt]
    apply Nat.lt_of_le_of_ne (hcovers.le hmade hmarks.le hdescribes.start hdescribes.stop)
    intro heq
    rw [hstart, hstop, heq] at hne
    contradiction
  case catchAll =>
    constructor
    · intro hzero
      cases htype : t.catchType with
      | none => rfl
      | some type =>
          exact absurd hzero (hsound.ne_zero (hsound.index?_eq_some_iff.mp (hindex htype)))
    · intro hnone
      exact hdescribes.catchAll (hmarks.catchType.trans hnone)
  case catchType =>
    intro type htype
    exact ConstantPool.indexOf_freeze.mpr (hindex htype)

end

/-- Adds one to `n`, and gives zero if that fails. -/
def attempt : Body :=
  ⟨[], [.label ⟨"start"⟩,
      .assign (.var "n") (.arith .add (.var "n") (.literal (.int 1)) .int),
      .label ⟨"stop"⟩,
      .label ⟨"rest"⟩,
      .ret (some (.var "n")),
      .label ⟨"failed"⟩,
      .ret (some (.literal (.int 0)))],
    [⟨⟨"start"⟩, ⟨"stop"⟩, ⟨"failed"⟩, some (.object .object [])⟩,
      ⟨⟨"stop"⟩, ⟨"rest"⟩, ⟨"failed"⟩, none⟩]⟩

/-- The method with this body. -/
def attemptMethod : Method :=
  ⟨"attempt", staticFlag, [], [⟨"n", .int⟩], .int, [], some attempt⟩

/-- The code that the method is lowered to. -/
def attemptCode : MethodCode :=
  ⟨[.label ⟨"start"⟩, .load 0 .int, .constant (.int 1), .arith .add .int, .store 0 .int,
      .label ⟨"stop"⟩, .label ⟨"rest"⟩, .load 0 .int, .ret (some .int), .label ⟨"failed"⟩,
      .constant (.int 0), .ret (some .int)],
    [⟨0, 5, ⟨"failed"⟩, some (.object .object [])⟩, ⟨5, 6, ⟨"failed"⟩, none⟩], 1⟩

/-- The code that the optimizer makes of it. -/
def improvedAttempt : MethodCode :=
  ⟨[.label ⟨"start"⟩, .increment 0 1, .label ⟨"stop"⟩, .label ⟨"rest"⟩, .load 0 .int,
      .ret (some .int), .label ⟨"failed"⟩, .constant (.int 0), .ret (some .int)],
    [⟨0, 2, ⟨"failed"⟩, some (.object .object [])⟩, ⟨2, 3, ⟨"failed"⟩, none⟩], 1⟩

/-- The method is lowered to its code, and the trap to one handler. -/
theorem lower_attempt :
  (attemptMethod.lower (.object ⟨[], ["Attempt"]⟩ [])).outcome = .ok attemptCode
  := by
  have hout : Gen.forEach (Stmt.code ⟨.object ⟨[], ["Attempt"]⟩ [], attemptMethod,
      ⟨[⟨"n", .int, 0⟩], 1⟩⟩) attempt.stmts 0 0 = .ok ⟨(), attemptCode.instructions, 0⟩ := rfl
  have hpositions : ∃ positions, positionsFrom ∅ 0 attemptCode.instructions = .ok positions
      ∧ checkTargets positions attemptCode.instructions = .ok () := by
    simp [attemptCode, positionsFrom, checkTargets, Instruction.targets]
  obtain ⟨positions, hpositions, htargets⟩ := hpositions
  have hresolve : resolveTraps attemptCode.instructions attempt.traps
      = .ok attemptCode.handlers := by
    have hstart : trapPosition positions ⟨"start"⟩ = .ok 0 :=
      trapPosition_of_positions hpositions rfl
    have hstop : trapPosition positions ⟨"stop"⟩ = .ok 5 :=
      trapPosition_of_positions hpositions rfl
    have hrest : trapPosition positions ⟨"rest"⟩ = .ok 6 :=
      trapPosition_of_positions hpositions rfl
    have hfailed : trapPosition positions ⟨"failed"⟩ = .ok 9 :=
      trapPosition_of_positions hpositions rfl
    rw [resolveTraps_of_positions hpositions htargets]
    apply Except.mapM_eq_ok_iff.mpr (.cons _ (.cons _ .nil))
    · rw [Trap.handlerAt, hstart, hstop, hfailed]
      rfl
    · rw [Trap.handlerAt, hstop, hrest, hfailed]
      rfl
  apply Method.lower_of_forEach rfl rfl hout hresolve

/-- In the code of the method the addition becomes an increment, and the handler moves with it. -/
theorem optimize_attempt :
  Peephole.optimize attemptCode = improvedAttempt
  := by
  have hdelta : Peephole.delta? .add 1 = some 1 := rfl
  have hfirst : Peephole.pass attemptCode.instructions attemptCode.handlers
      = ⟨improvedAttempt.instructions, improvedAttempt.handlers, [(.incrementInPlace, 1)]⟩ := by
    simp [Peephole.pass, attemptCode, improvedAttempt, Peephole.scan, Peephole.step?,
      Peephole.dropPopped?, Peephole.incrementInPlace?, Peephole.storeThenIncrement?,
      Peephole.compareWithNull?, Peephole.foldNegation?, Peephole.duplicateRepeat?, hdelta,
      anyStraddles, Handler.straddles, shiftAll, Handler.shift, shiftPlace]
  have hsecond : Peephole.pass improvedAttempt.instructions improvedAttempt.handlers
      = ⟨improvedAttempt.instructions, improvedAttempt.handlers, []⟩ := by
    simp [Peephole.pass, improvedAttempt, Peephole.scan, Peephole.step?, Peephole.dropPopped?,
      Peephole.incrementInPlace?, Peephole.storeThenIncrement?, Peephole.compareWithNull?,
      Peephole.foldNegation?, Peephole.duplicateRepeat?]
  have hpasses : Peephole.passes attemptCode.instructions attemptCode.handlers
      = [⟨improvedAttempt.instructions, improvedAttempt.handlers, [(.incrementInPlace, 1)]⟩,
        ⟨improvedAttempt.instructions, improvedAttempt.handlers, []⟩] := by
    rw [Peephole.passes, hfirst, if_neg (List.cons_ne_nil _ _), Peephole.passes, hsecond,
      if_pos rfl]
  rw [Peephole.optimize, hpasses]
  rfl

/-- A pool that is asked for one class has it after its name. -/
theorem ConstantPool.classIndex_serveAll (t : Ty) :
  (serveAll [.classOf t]).freeze.classIndex t = .ok 2
  := by
  have hnone (e : PoolEntry) : empty.index? e = none := by
    simp [index?, empty]
  have htext := store_of_fits (hnone (.utf8 t.entryName)) (Nat.le_of_ble_eq_true rfl)
  have hclass : store (.ofClass t) (empty.push (.utf8 t.entryName))
      = .ok 2 ((empty.push (.utf8 t.entryName)).push (.ofClass t)) :=
    store_of_fits (index?_push.trans (hnone _)) (Nat.le_of_ble_eq_true rfl)
  have hintern : intern (.ofClass t) empty
      = .ok 2 ((empty.push (.utf8 t.entryName)).push (.ofClass t)) := by
    rw [intern_of_none (hnone _)]
    apply EStateM.bind_eq_ok_iff.mpr ⟨(), _, _, hclass⟩
    apply EStateM.bind_eq_ok_iff.mpr ⟨(), _, EStateM.discard_eq_ok_iff.mpr ⟨_, htext⟩, rfl⟩
  have hserved : serveAll [.classOf t]
      = (empty.push (.utf8 t.entryName)).push (.ofClass t) := congrArg EStateM.Result.state hintern
  apply indexOf_freeze.mpr
  rw [hserved, index?_push, if_pos rfl]
  rfl

/-- The optimized code is assembled if the root class has the second index. -/
theorem assemble_improvedAttempt {pool : FrozenPool}
    (hindex : pool.classIndex (.object .object []) = .ok 2) :
  (improvedAttempt.assemble pool).outcome
    = .ok ⟨[0x84, 0, 1, 0x1a, 0xac, 0x03, 0xac], 2, 1, [⟨0, 3, 5, 2⟩],
      [0, 0, 3, 3, 3, 4, 5, 5, 6, 7]⟩
  := by
  have hzero : Instruction.constantSize (.int 0) pool = .ok 1 := rfl
  have hlayout : ∃ labels, Layout.of pool improvedAttempt.instructions
        = .ok ⟨9, [6, 5, 5, 4, 3, 3, 3, 0, 0], 7, labels⟩
      ∧ labels.resolve ⟨"failed"⟩ = .ok 5 := by
    use ⟨(((((∅ : Std.HashMap Label Nat).insert ⟨"start"⟩ 0).insert ⟨"stop"⟩ 3).insert ⟨"rest"⟩
      3).insert ⟨"failed"⟩ 5)⟩
    constructor
    · simp [Layout.of, improvedAttempt, Layout.add, Layout.bindLabel_label, Layout.bindLabel_of_ne,
        Instruction.size, hzero, LabelTable.empty, Layout.atInstruction, Except.mapError, pure,
        Except.pure, bind, Except.bind, wrap32]
    · simp only [LabelTable.resolve_eq_ok, Std.HashMap.getElem?_insert]
      simp
  obtain ⟨labels, hlayout, hfailed⟩ := hlayout
  have hbytes : encodeFrom labels pool 0 [] improvedAttempt.instructions
      [0, 0, 3, 3, 3, 4, 5, 5, 6, 7] = .ok [0x84, 0, 1, 0x1a, 0xac, 0x03, 0xac] := rfl
  have htable : (exceptionTable [0, 0, 3, 3, 3, 4, 5, 5, 6, 7] labels pool
      improvedAttempt.handlers).outcome = .ok [⟨0, 3, 5, 2⟩] := by
    simp only [improvedAttempt, exceptionTable, Handler.entry?, Handler.catchIndex, hindex, hfailed]
    rfl
  exact MethodCode.assemble_of_ok hlayout hbytes htable

theorem switchesModerate_attempt :
  attempt.SwitchesModerate
  := by
  simp [Body.SwitchesModerate, attempt]

end ClassForge
