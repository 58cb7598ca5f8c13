import ClassForge.Proofs.Assembly.Resolution

/-!
# Limits of the format

Code takes at most 65535 bytes, a branch reaches 32768 bytes back and 32767 bytes ahead, and a
call through an interface counts at most 255 slots for its receiver and its arguments. The
offsets that matter here are those that layout reserves, where every branch has its near size.
Code that has been assembled is within the limits.
-/

namespace ClassForge

variable {pool : FrozenPool}

/-- The bytes to reserve for an instruction at `offset`, none where an entry is missing. -/
def Instruction.room (pool : FrozenPool) (offset : Nat) (i : Instruction) : Nat :=
  match i.size pool offset with
  | .ok size => size
  | .error _ => 0

theorem Instruction.room_of_size {i : Instruction} {offset size : Nat}
    (h : i.size pool offset = .ok size) :
  i.room pool offset = size
  := by
  rw [Instruction.room, h]

/-- The bytes to reserve for some code. -/
def reserved (pool : FrozenPool) (code : List Instruction) : Nat :=
  code.foldl (fun offset i => offset + i.room pool offset) 0

theorem reserved_concat (code : List Instruction) (i : Instruction) :
  reserved pool (code ++ [i]) = reserved pool code + i.room pool (reserved pool code)
  := List.foldl_append

/-- More code takes no less space. -/
theorem reserved_le_append (code rest : List Instruction) :
  reserved pool code ≤ reserved pool (code ++ rest)
  := by
  induction rest generalizing code with
  | nil => simp only [List.append_nil, Nat.le_refl]
  | cons i rest ih =>
      rw [List.append_cons]
      apply Nat.le_trans _ (ih (code ++ [i]))
      rw [reserved_concat]
      apply Nat.le_add_right

/-- Offsets are found by adding up what is reserved. -/
theorem Layout.Covers.boundary_eq {code : List Instruction} {layout : Layout}
    (hcovers : layout.Covers pool code) (hmade : SwitchesMade code) {k : Nat}
    (hk : k ≤ code.length) :
  layout.boundaries[k]? = some (reserved pool (code.take k))
  := by
  induction k with
  | zero => apply hcovers.first
  | succ k ih =>
      obtain ⟨offset, size, hoffset, hsize, hnext⟩ :=
        hcovers.next hmade (List.getElem?_eq_getElem hk)
      obtain rfl := Option.some.inj ((ih (Nat.le_of_succ_le hk)).symm.trans hoffset)
      rw [hnext, ← List.take_append_getElem hk, reserved_concat, Instruction.room_of_size hsize]

theorem Layout.Covers.size_eq {code : List Instruction} {layout : Layout}
    (hcovers : layout.Covers pool code) (hmade : SwitchesMade code) :
  layout.size = reserved pool code
  := by
  have hlast := hcovers.boundary_eq hmade (Nat.le_refl code.length)
  rw [hcovers.last, List.take_length] at hlast
  apply Option.some.inj hlast

/-- A branch at an offset reaches the other place. -/
def InReach (start place : Nat) : Prop :=
  -32768 ≤ (place : Int) - start ∧ (place : Int) - start ≤ 32767

/-- The code is short enough, and its branches reach their targets. -/
structure MethodCode.WithinLimits (pool : FrozenPool) (code : MethodCode) : Prop where
  length : reserved pool code.instructions ≤ 65535
  branches : ∀ {k k' : Nat} {test target}, code.instructions[k]? = some (.branch test target) →
    code.instructions[k']? = some (.label target) →
    InReach (reserved pool (code.instructions.take k)) (reserved pool (code.instructions.take k'))

/-- The calls through interfaces have few enough arguments, as 16 bits count them. -/
def MethodCode.CallsCounted (code : MethodCode) : Prop :=
  ∀ method, .invoke method .interface ∈ code.instructions → method.type.argSlots + 1 ≤ 255

/-- A call through an interface is encoded only if its operand counts the slots. -/
theorem invokeBytes_eq_ok {method : MethodRef} {bytes : List UInt8}
    (h : Instruction.invokeBytes method .interface pool = .ok bytes) :
  method.type.argSlots + 1 ≤ 255
  := by
  obtain ⟨_, -, h⟩ := Except.bind_eq_ok_iff.mp h
  simp only [ne_eq, not_true_eq_false, if_false] at h
  split at h
  · next hle => apply hle
  · contradiction

variable {code : MethodCode} {out : AssembledCode}

/-- Code that has been assembled is within the limits. -/
theorem MethodCode.withinLimits_of_assemble (hmade : SwitchesMade code.instructions)
    (h : (code.assemble pool).outcome = .ok out) :
  code.WithinLimits pool
  := by
  obtain ⟨layout, hlayout, hbytes, -, -⟩ := MethodCode.assemble_eq_ok h
  have hcovers := Layout.covers_of hlayout
  have hoffset {k : Nat} {i : Instruction} (hk : code.instructions[k]? = some i) :
      layout.boundaries[k]? = some (reserved pool (code.instructions.take k)) :=
    hcovers.boundary_eq hmade (Nat.le_of_lt (List.getElem?_eq_some_iff.mp hk).1)
  constructor
  · rw [← hcovers.size_eq hmade]
    apply hcovers.size_le
  · intro k k' test target hk hk'
    obtain ⟨_, part, _, -, -, hencode, hsize⟩ := hcovers.exists_append hmade hbytes hk (hoffset hk)
    have hlength : part.length = 3 := (Except.ok.inj hsize).symm
    obtain ⟨place, hplace, hlow, hhigh, -⟩ := branchBytes_eq_ok hencode hlength
    have hlabel := hcovers.labels.mpr ⟨k', hk', hoffset hk'⟩
    obtain rfl := Except.ok.inj (hplace.symm.trans (LabelTable.resolve_eq_ok.mpr hlabel))
    use hlow

/-- In code that has been assembled the arguments of calls are counted. -/
theorem MethodCode.callsCounted_of_assemble (h : (code.assemble pool).outcome = .ok out) :
  code.CallsCounted
  := by
  obtain ⟨layout, hlayout, hbytes, -, -⟩ := MethodCode.assemble_eq_ok h
  intro method hmem
  obtain ⟨k, hk⟩ := List.mem_iff_getElem?.mp hmem
  obtain ⟨_, part, -, hencode, -⟩ := (Layout.covers_of hlayout).exists_encode hbytes hk
  apply invokeBytes_eq_ok hencode

end ClassForge
