import ClassForge.Proofs.Linking.Assembly
import Mathlib.Data.List.NodupEquivFin

/-!
# What can be assembled

Assembly succeeds exactly if every label that is needed stands in the code, none stands twice,
the ranges of handlers lie within the code, and the code is within the limits of the format. That
nothing else is refused has been seen; here it is shown that nothing of it is let through. A jump
that is always taken has a far form, but layout reserves the near one, so it is refused if it does
not reach. A handler that protects no bytes is left out before its label is looked for.
-/

namespace ClassForge

variable {pool : FrozenPool} {labels : LabelTable}

/-! ### Targets -/

/-- A switch is encoded only if all its targets have offsets. -/
theorem Switch.exists_resolve {s : Switch} {fallback : Label} {cases : List (Int32 × Label)}
    {offset : Nat} {bytes : List UInt8} (hs : ofCases fallback cases = .ok s)
    (h : Instruction.switchBytes s offset labels = .ok bytes) :
  ∀ l ∈ (Instruction.switch s).targets, ∃ place, labels.resolve l = .ok place
  := by
  obtain ⟨-, -, hsorted, hform⟩ := ofCases_eq_ok hs
  intro l hl
  cases hkind : s.form with
  | table low high =>
      obtain ⟨distance, parts, ⟨place, hfallback, -⟩, hparts, -⟩ := switchBytes_table hkind h
      obtain rfl | hl := List.mem_cons.mp hl
      · use place
      · obtain ⟨c, hc, rfl⟩ := List.mem_map.mp hl
        obtain ⟨hlow, hhigh⟩ := le_of_formFor hsorted (hform.symm.trans hkind) hc
        obtain ⟨_, _, place, hplace, -⟩ := hparts.exists_of_mem_left (mem_tableKeys hlow hhigh)
        rw [target_of_mem hsorted hc] at hplace
        use place
  | lookup =>
      obtain ⟨distance, parts, ⟨place, hfallback, -⟩, hparts, -⟩ := switchBytes_lookup hkind h
      obtain rfl | hl := List.mem_cons.mp hl
      · use place
      · obtain ⟨c, hc, rfl⟩ := List.mem_map.mp hl
        obtain ⟨_, _, _, ⟨place, hplace, -⟩, -⟩ := hparts.exists_of_mem_left hc
        use place

/-- The labels that an instruction refers to have places if it can be encoded. -/
theorem Instruction.exists_resolve {i : Instruction} {offset : Nat} {bytes : List UInt8}
    (hmade : ∀ s, i = .switch s → s.Moderate) (h : i.encode labels pool offset = .ok bytes) :
  ∀ l ∈ i.targets, ∃ place, labels.resolve l = .ok place
  := by
  cases i with
  | branch test target =>
      obtain ⟨place, hplace, -⟩ := Except.bind_eq_ok_iff.mp h
      intro l hl
      obtain rfl := List.mem_singleton.mp hl
      use place
  | switch s =>
      obtain ⟨fallback, cases, -, hs⟩ := hmade s rfl
      apply Switch.exists_resolve hs h
  | _ => apply List.forall_mem_nil

/-! ### Labels -/

/-- No label stands twice in code that has a layout. -/
theorem Layout.Covers.count_label_le {code : List Instruction} {layout : Layout}
    (hcovers : layout.Covers pool code) (l : Label) :
  code.count (.label l) ≤ 1
  := by
  by_contra hcount
  obtain ⟨k, k', hlt, hk, hk'⟩ := List.duplicate_iff_exists_distinct_get.mp
    (List.duplicate_iff_two_le_count.mpr (Nat.lt_of_not_le hcount))
  have heq : k.val = k'.val := by
    apply hcovers.unique (l := l)
    · rw [hk, List.get_eq_getElem, List.getElem?_eq_getElem]
    · rw [hk', List.get_eq_getElem, List.getElem?_eq_getElem]
  apply Nat.ne_of_lt hlt heq

theorem Layout.Covers.label_mem {code : List Instruction} {layout : Layout}
    (hcovers : layout.Covers pool code) {l : Label} {place : Nat}
    (h : layout.labels.resolve l = .ok place) :
  .label l ∈ code
  := by
  obtain ⟨k, hk, -⟩ := hcovers.labels.mp (LabelTable.resolve_eq_ok.mp h)
  apply List.mem_of_getElem? hk

/-! ### Code -/

/-- In code that has been assembled everything resolves. -/
theorem MethodCode.resolves_of_assemble {code : MethodCode} {out : AssembledCode}
    (hmade : SwitchesMade code.instructions) (h : (code.assemble pool).outcome = .ok out) :
  code.Resolves pool
  := by
  obtain ⟨layout, hlayout, hbytes, htable, -⟩ := MethodCode.assemble_eq_ok h
  have hcovers := Layout.covers_of hlayout
  obtain ⟨hbounds, hentries⟩ := hcovers.exceptionTable_eq_ok htable
  have hranges : ∀ h ∈ code.handlers,
      h.start ≤ code.instructions.length ∧ h.stop ≤ code.instructions.length := by
    intro h hh
    obtain ⟨hstart, hstop⟩ := hbounds h hh
    rw [hcovers.length] at hstart hstop
    use Nat.le_of_lt_succ hstart, Nat.le_of_lt_succ hstop
  refine ⟨hcovers.count_label_le, ?_, hranges, ?_⟩
  · intro i hi l hl
    obtain ⟨k, hk⟩ := List.mem_iff_getElem?.mp hi
    obtain ⟨_, part, -, hencode, -⟩ := hcovers.exists_encode hbytes hk
    have hmade : ∀ s, i = .switch s → s.Moderate := by
      rintro s rfl
      apply hmade s hi
    obtain ⟨place, hplace⟩ := Instruction.exists_resolve hmade hencode l hl
    apply hcovers.label_mem hplace
  · intro h hh hne
    obtain ⟨hstart, hstop⟩ := hranges h hh
    have hmem : h ∈ code.handlers.filter
        fun h => layout.boundaries[h.start]? ≠ layout.boundaries[h.stop]? := by
      rw [List.mem_filter, hcovers.boundary_eq hmade hstart, hcovers.boundary_eq hmade hstop]
      simpa using ⟨hh, hne⟩
    obtain ⟨e, -, hdescribes⟩ := hentries.exists_of_mem_left hmem
    apply hcovers.label_mem (hcovers.labelOffset_iff.mpr hdescribes.handler)

/-- With so few arguments that 16 bits count them, the calls through interfaces are accepted
exactly up to 254 of them. -/
theorem MethodCode.callsCounted_iff {code : MethodCode}
    (hcounted : ∀ method mode, .invoke method mode ∈ code.instructions →
      slotsOf method.type.params ≤ 65534) :
  code.CallsCounted ↔ ∀ method, .invoke method .interface ∈ code.instructions →
    slotsOf method.type.params ≤ 254
  := by
  have hiff (method : MethodRef) (hmem : .invoke method .interface ∈ code.instructions) :
      method.type.argSlots + 1 ≤ 255 ↔ slotsOf method.type.params ≤ 254 := by
    have hle := hcounted method .interface hmem
    rw [UInt16.le_iff_toNat_le, UInt16.toNat_add, MethodType.argSlots, UInt16.toNat_ofNat']
    change (slotsOf method.type.params % 65536 + 1) % 65536 ≤ 255 ↔ _
    omega
  apply forall₂_congr hiff

/-- Code whose entries are in the pool can be assembled exactly if everything in it resolves, it is
within the limits, and no call through an interface has more than 254 slots of arguments. -/
theorem exists_assemble_iff {code : MethodCode} {pool : FrozenPool}
    (hencodable : ∀ i ∈ code.instructions, i.Encodable) (hmade : SwitchesMade code.instructions)
    (hcounted : ∀ method mode, .invoke method mode ∈ code.instructions →
      slotsOf method.type.params ≤ 65534)
    (hneeds : ∀ e ∈ code.needs, e ∈ pool.indices) :
  (∃ out, (code.assemble pool).outcome = .ok out) ↔ code.Resolves pool ∧ code.WithinLimits pool
    ∧ ∀ method, .invoke method .interface ∈ code.instructions → slotsOf method.type.params ≤ 254
  := by
  rw [← MethodCode.callsCounted_iff hcounted]
  constructor
  · rintro ⟨out, h⟩
    use MethodCode.resolves_of_assemble hmade h, MethodCode.withinLimits_of_assemble hmade h
    apply MethodCode.callsCounted_of_assemble h
  · rintro ⟨hresolves, hlimits, hcalls⟩
    have hfails := hresolves.assemble_failsOnly hmade hencodable hneeds
    apply hfails.exists_ok (hlimits.not_exceeds hcalls hmade)

/-- The loop around a switch with one more handler, which protects no bytes and whose label is
nowhere. -/
def idleLoop : MethodCode :=
  { switchLoop with handlers := ⟨3, 4, ⟨"nowhere"⟩, none⟩ :: switchLoop.handlers }

/-- The loop can be assembled, although a label is missing. -/
theorem exists_assemble_idleLoop :
  (∀ i ∈ idleLoop.instructions, i.Encodable) ∧ SwitchesMade idleLoop.instructions
    ∧ (∀ method mode, .invoke method mode ∉ idleLoop.instructions)
    ∧ (∀ e ∈ idleLoop.needs, e ∈ noEntries.indices)
    ∧ .label ⟨"nowhere"⟩ ∉ idleLoop.instructions
    ∧ ∃ out, (idleLoop.assemble noEntries).outcome = .ok out
  := by
  have hencodable := MethodCode.encodable_of_assemble assemble_switchLoop
  have hresolves := MethodCode.resolves_of_assemble switchesMade_switchLoop assemble_switchLoop
  have hlimits := MethodCode.withinLimits_of_assemble switchesMade_switchLoop assemble_switchLoop
  have hmade : SwitchesMade idleLoop.instructions := switchesMade_switchLoop
  have hcalls : ∀ method mode, .invoke method mode ∉ idleLoop.instructions := by
    simp [idleLoop, switchLoop, Instruction.goto]
  have hneeds : ∀ e ∈ idleLoop.needs, e ∈ noEntries.indices := List.forall_mem_nil _
  refine ⟨hencodable, hmade, hcalls, hneeds, by decide, ?_⟩
  apply (@exists_assemble_iff idleLoop noEntries hencodable hmade
    (fun method mode hmem => absurd hmem (hcalls method mode)) hneeds).mpr
  refine ⟨⟨hresolves.unique, hresolves.targets, ?_, ?_⟩, ⟨hlimits.length, hlimits.branches⟩, ?_⟩
  · apply List.forall_mem_cons.mpr ⟨⟨by decide, by decide⟩, hresolves.ranges⟩
  · apply List.forall_mem_cons.mpr ⟨?_, hresolves.handlers⟩
    intro hne
    apply absurd _ hne
    rfl
  · intro method hmem
    apply absurd hmem (hcalls method .interface)

end ClassForge
