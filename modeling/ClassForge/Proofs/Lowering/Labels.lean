import ClassForge.Lowering.Method
import ClassForge.Proofs.Machine.Step
import ClassForge.Proofs.Outcome

/-!
# Places of labels

Code whose labels have been given places has every label once: a label has a place exactly if
it stands there.
-/

namespace ClassForge

open Machine

/-- The labels of code with one more instruction in front. -/
theorem exists_label_cons_iff {i : Instruction} {rest : List Instruction} {l : Label}
    {index place : Nat} :
  (∃ n, (i :: rest)[n]? = some (.label l) ∧ index + n = place)
    ↔ (i = .label l ∧ index = place)
      ∨ ∃ n, rest[n]? = some (.label l) ∧ index + 1 + n = place
  := by
  constructor
  · rintro ⟨n, hn, hplace⟩
    cases n with
    | zero =>
        left
        apply And.intro (Option.some.inj hn) hplace
    | succ n =>
        right
        use n, hn
        omega
  · rintro (⟨rfl, hplace⟩ | ⟨n, hn, hplace⟩)
    · use 0, rfl, hplace
    · use n + 1, hn
      omega

/-- The places found are those known before and those of the labels in the code. -/
theorem getElem?_of_positionsFrom {positions positions' : Positions} {index : Nat}
    {code : List Instruction} (h : positionsFrom positions index code = .ok positions') (l : Label)
    (place : Nat) :
  positions'[l]? = some place
    ↔ positions[l]? = some place ∨ ∃ n, code[n]? = some (.label l) ∧ index + n = place
  := by
  fun_induction positionsFrom positions index code with
  | case1 positions index =>
      obtain rfl := Except.ok.inj h
      simp
  | case2 positions index l' rest hcontains => contradiction
  | case3 positions index l' rest hcontains ih =>
      rw [ih h, exists_label_cons_iff, Std.HashMap.getElem?_insert]
      by_cases hl : l' = l
      · subst hl
        have hnone : positions[l']? = none := by simpa using hcontains
        simp [hnone]
      · simp [hl]
  | case4 positions index i rest hi ih =>
      have hne : i ≠ .label l := hi l
      rw [ih h, exists_label_cons_iff]
      simp [hne]

/-- A label has the place where it stands. -/
theorem getElem?_of_positions {positions : Positions} {code : List Instruction}
    (h : positionsFrom ∅ 0 code = .ok positions) {l : Label} {place : Nat} :
  positions[l]? = some place ↔ code[place]? = some (.label l)
  := by
  rw [getElem?_of_positionsFrom h]
  simp

theorem getElem?_of_placeOf? {code : List Instruction} {l : Label} {place : Nat}
    (h : placeOf? code l = some place) :
  code[place]? = some (.label l)
  := by
  obtain ⟨hlt, hlabel, -⟩ := List.findIdx?_eq_some_iff_getElem.mp h
  rw [List.getElem?_eq_getElem hlt, of_decide_eq_true hlabel]

/-- Code with a place for every label has every label once. -/
theorem placeOf?_of_positions {positions : Positions} {code : List Instruction}
    (h : positionsFrom ∅ 0 code = .ok positions) {l : Label} {place : Nat}
    (hplace : code[place]? = some (.label l)) :
  placeOf? code l = some place
  := by
  cases hfound : placeOf? code l with
  | none =>
      have hnone := List.findIdx?_eq_none_iff.mp hfound _ (List.mem_of_getElem? hplace)
      simp at hnone
  | some place' =>
      have hplace' := (getElem?_of_positions h).mpr (getElem?_of_placeOf? hfound)
      rwa [(getElem?_of_positions h).mpr hplace, eq_comm] at hplace'

theorem trapPosition_eq_ok {positions : Positions} {l : Label} {place : Nat} :
  trapPosition positions l = .ok place ↔ positions[l]? = some place
  := by
  unfold trapPosition
  cases positions[l]? <;> simp

theorem trapPosition_of_positions {positions : Positions} {code : List Instruction}
    (h : positionsFrom ∅ 0 code = .ok positions) {l : Label} {place : Nat}
    (hplace : code[place]? = some (.label l)) :
  trapPosition positions l = .ok place
  := trapPosition_eq_ok.mpr ((getElem?_of_positions h).mpr hplace)

/-! ### The code of a method -/

theorem resolveTraps_eq_ok {code : List Instruction} {traps : List Trap} {handlers : List Handler}
    (h : resolveTraps code traps = .ok handlers) :
  ∃ positions, positionsFrom ∅ 0 code = .ok positions ∧ checkTargets positions code = .ok ()
    ∧ traps.mapM (Trap.handlerAt positions) = .ok handlers
  := by
  obtain ⟨positions, hpositions, h⟩ := Except.bind_eq_ok_iff.mp h
  obtain ⟨_, htargets, h⟩ := Except.bind_eq_ok_iff.mp h
  use positions

/-- Traps are resolved one by one once the labels have their positions. -/
theorem resolveTraps_of_positions {code : List Instruction} {traps : List Trap}
    {positions : Positions} (hpositions : positionsFrom ∅ 0 code = .ok positions)
    (htargets : checkTargets positions code = .ok ()) :
  resolveTraps code traps = traps.mapM (Trap.handlerAt positions)
  := by
  rw [resolveTraps, hpositions]
  change checkTargets positions code >>= _ = _
  rw [htargets]
  rfl

/-- The code of a method consists of the code of its statements, with a return at the end and
the handlers of its traps. -/
theorem Method.lowerBody_eq_ok {self : Ty} {m : Method} {code : MethodCode}
    (h : m.lowerBody self = .ok code) :
  ∃ body locals out handlers, m.body = some body ∧ Locals.ofMethod m body = .ok locals
    ∧ Gen.forEach (Stmt.code ⟨self, m, locals⟩) body.stmts 0 0 = .ok out
    ∧ resolveTraps (withReturn m.result out.code) body.traps = .ok handlers
    ∧ .ofParams (withReturn m.result out.code) handlers m.isStatic m.paramTypes = code
  := by
  unfold Method.lowerBody at h
  cases hbody : m.body with
  | none =>
      rw [hbody] at h
      contradiction
  | some body =>
      rw [hbody] at h
      obtain ⟨locals, hlocals, h⟩ := Except.bind_eq_ok_iff.mp h
      obtain ⟨out, hout, h⟩ := Except.bind_eq_ok_iff.mp h
      obtain ⟨handlers, hhandlers, h⟩ := Except.bind_eq_ok_iff.mp h
      use body, locals, out, handlers, rfl, Except.mapError_eq_ok_iff.mp hlocals, hout,
        Except.mapError_eq_ok_iff.mp hhandlers
      apply Except.ok.inj h

theorem Method.lower_eq_ok {self : Ty} {m : Method} {code : MethodCode} :
  (m.lower self).outcome = .ok code ↔ m.lowerBody self = .ok code
  := by
  simp [Method.lower, Except.bind_eq_ok_iff]

/-- The code of a method from that of its statements. -/
theorem Method.lower_of_forEach {self : Ty} {m : Method} {body : Body} {locals : Locals}
    {out : Emitted Unit} {handlers : List Handler} (hbody : m.body = some body)
    (hlocals : Locals.ofMethod m body = .ok locals)
    (hout : Gen.forEach (Stmt.code ⟨self, m, locals⟩) body.stmts 0 0 = .ok out)
    (hhandlers : resolveTraps (withReturn m.result out.code) body.traps = .ok handlers) :
  (m.lower self).outcome
    = .ok (.ofParams (withReturn m.result out.code) handlers m.isStatic m.paramTypes)
  := by
  rw [Method.lower_eq_ok, Method.lowerBody, hbody]
  change (Locals.ofMethod m body).mapError _ >>= _ = _
  apply Except.bind_eq_ok_iff.mpr ⟨_, Except.mapError_eq_ok_iff.mpr hlocals, _⟩
  apply Except.bind_eq_ok_iff.mpr ⟨_, hout, _⟩
  apply Except.bind_eq_ok_iff.mpr ⟨_, Except.mapError_eq_ok_iff.mpr hhandlers, _⟩
  rfl

end ClassForge
