import ClassForge.Proofs.Assembly.Encoding
import ClassForge.Proofs.Assembly.Layout

/-!
# Assembled code

What assembly gives is laid out as the offsets say: the bytes of each instruction stand
between its offset and the next, the distances in branches and switches lead from there to the
labels they name, and the exception table holds the offsets of handlers.
-/

namespace ClassForge

/-- The label stands once in the code, at an instruction with the offset. -/
def LabelOffset (code : List Instruction) (offsets : List Nat) (l : Label) (offset : Nat) : Prop :=
  ∃ j : Nat, (∀ k : Nat, code[k]? = some (.label l) ↔ k = j) ∧ offsets[j]? = some offset

/-- The exception entry is that of the handler. -/
structure ExceptionEntry.Describes (code : List Instruction) (offsets : List Nat)
    (pool : FrozenPool) (h : Handler) (e : ExceptionEntry) : Prop where
  start : offsets[h.start]? = some e.start.toNat
  stop : offsets[h.stop]? = some e.stop.toNat
  handler : LabelOffset code offsets h.target e.handler.toNat
  catchType : ∀ type, h.catchType = some type →
    pool.indices[PoolEntry.ofClass type]? = some e.catchType
  catchAll : h.catchType = none → e.catchType = 0

/-- The assembled code has the instructions and handlers of the code where its offsets say. -/
structure AssembledCode.LaidOut (code : MethodCode) (pool : FrozenPool) (out : AssembledCode) :
    Prop where
  offsets_length : out.offsets.length = code.instructions.length + 1
  offsets_first : out.offsets[0]? = some 0
  offsets_sorted : out.offsets.Pairwise (· ≤ ·)
  offsets_last : out.offsets[code.instructions.length]? = some out.code.length
  code_length_le : out.code.length ≤ 65535
  /-- Every instruction is encoded where its offset is, with labels at their offsets. -/
  encoded : ∃ labels : LabelTable,
    (∀ l offset, labels.resolve l = .ok offset
      ↔ LabelOffset code.instructions out.offsets l offset)
    ∧ ∀ {k i start stop}, code.instructions[k]? = some i → out.offsets[k]? = some start →
      out.offsets[k + 1]? = some stop →
      i.encode labels pool start = .ok ((out.code.drop start).take (stop - start))
  /-- The two bytes after the opcode of a branch hold the distance to its target. -/
  branches : ∀ {k : Nat} {test target} {start : Nat},
    code.instructions[k]? = some (.branch test target) → out.offsets[k]? = some start →
    ∃ (distance : Int) (place : Nat), Bytes.int16At? out.code (start + 1) = some distance
      ∧ LabelOffset code.instructions out.offsets target place ∧ start + distance = place
  /-- The distances of a switch lead to its targets. -/
  switches : ∀ {k : Nat} {s} {start : Nat}, code.instructions[k]? = some (.switch s) →
    out.offsets[k]? = some start → ∀ field ∈ s.distanceFields start,
    ∃ (distance : Int) (place : Nat), Bytes.int32At? out.code field.1 = some distance
      ∧ LabelOffset code.instructions out.offsets field.2 place ∧ start + distance = place
  handlers : ∀ h ∈ code.handlers, h.start < out.offsets.length ∧ h.stop < out.offsets.length
  /-- Each handler whose range has bytes has one entry, in the order of the handlers. -/
  table : List.Forall₂ (ExceptionEntry.Describes code.instructions out.offsets pool)
    (code.handlers.filter fun h => out.offsets[h.start]? ≠ out.offsets[h.stop]?) out.table

variable {code : List Instruction} {pool : FrozenPool} {layout : Layout}

/-- A label resolves to an offset exactly if the offset is that of its instruction. -/
theorem Layout.Covers.labelOffset_iff (hcovers : layout.Covers pool code) {l : Label}
    {offset : Nat} :
  layout.labels.resolve l = .ok offset ↔ LabelOffset code layout.boundaries l offset
  := by
  rw [LabelTable.resolve_eq_ok, hcovers.labels]
  constructor
  · rintro ⟨j, hj, hoffset⟩
    use j
    constructor
    · intro k
      constructor
      · intro hk
        apply hcovers.unique hk hj
      · rintro rfl
        apply hj
    · apply hoffset
  · rintro ⟨j, hj, hoffset⟩
    use j, (hj j).mpr rfl

/-! ### The exception table -/

theorem handlerOffset_eq_ok {boundaries : List Nat} {index offset : Nat} :
  handlerOffset boundaries index = .ok offset ↔ boundaries[index]? = some offset
  := by
  unfold handlerOffset
  cases boundaries[index]? <;> simp

/-- The entry of a handler: none if the handler protects no bytes, and otherwise the offsets of its
bounds and its target, and what it catches. -/
theorem Handler.entry?_eq_ok {boundaries : List Nat} {labels : LabelTable} {h : Handler}
    {e? : Option ExceptionEntry} (hentry : (h.entry? boundaries labels pool).outcome = .ok e?) :
  ∃ start stop, boundaries[h.start]? = some start ∧ boundaries[h.stop]? = some stop
    ∧ (start = stop ∧ e? = none ∨ start ≠ stop ∧ ∃ target catchType,
      labels.resolve h.target = .ok target ∧ h.catchIndex pool = .ok catchType
      ∧ e? = some ⟨UInt16.ofNat start, UInt16.ofNat stop, UInt16.ofNat target, catchType⟩)
  := by
  rw [Handler.entry?, Traced.outcome_bind] at hentry
  obtain ⟨start, hstart, hentry⟩ := Except.bind_eq_ok_iff.mp hentry
  rw [Traced.outcome_bind] at hentry
  obtain ⟨stop, hstop, hentry⟩ := Except.bind_eq_ok_iff.mp hentry
  use start, stop, handlerOffset_eq_ok.mp hstart, handlerOffset_eq_ok.mp hstop
  split at hentry
  · next heq =>
    left
    use heq
    apply (Except.ok.inj hentry).symm
  · next hne =>
    right
    use hne
    rw [Traced.outcome_bind] at hentry
    obtain ⟨target, htarget, hentry⟩ := Except.bind_eq_ok_iff.mp hentry
    rw [Traced.outcome_bind] at hentry
    obtain ⟨catchType, hcatch, hentry⟩ := Except.bind_eq_ok_iff.mp hentry
    use target, catchType, Except.mapError_eq_ok_iff.mp htarget, hcatch
    apply (Except.ok.inj hentry).symm

theorem toNat_ofNat_of_le {n : Nat} (h : n ≤ 65535) :
  (UInt16.ofNat n).toNat = n
  := UInt16.toNat_ofNat_of_lt (Nat.lt_succ_of_le h)

/-- The entry of a handler whose range has bytes. -/
theorem Layout.Covers.describes (hcovers : layout.Covers pool code) {h : Handler}
    {start stop target : Nat} {catchType : UInt16}
    (hstart : layout.boundaries[h.start]? = some start)
    (hstop : layout.boundaries[h.stop]? = some stop)
    (htarget : layout.labels.resolve h.target = .ok target)
    (hcatch : h.catchIndex pool = .ok catchType) :
  ExceptionEntry.Describes code layout.boundaries pool h
    ⟨UInt16.ofNat start, UInt16.ofNat stop, UInt16.ofNat target, catchType⟩
  := by
  obtain ⟨j, hj, hplace⟩ := hcovers.labelOffset_iff.mp htarget
  constructor
  · rw [hstart, toNat_ofNat_of_le (hcovers.bounded hstart)]
  · rw [hstop, toNat_ofNat_of_le (hcovers.bounded hstop)]
  · use j, hj
    rw [hplace, toNat_ofNat_of_le (hcovers.bounded hplace)]
  · intro type htype
    rw [Handler.catchIndex, htype] at hcatch
    have hindex := Except.mapError_eq_ok_iff.mp hcatch
    unfold FrozenPool.classIndex FrozenPool.indexOf at hindex
    split at hindex
    · next index hsome =>
      rw [hsome, Except.ok.inj hindex]
    · contradiction
  · intro hnone
    rw [Handler.catchIndex, hnone] at hcatch
    apply (Except.ok.inj hcatch).symm

/-- The entries of handlers whose ranges have bytes, in order. -/
theorem Layout.Covers.exceptionTable_eq_ok (hcovers : layout.Covers pool code)
    {handlers : List Handler} {table : List ExceptionEntry}
    (htable : (exceptionTable layout.boundaries layout.labels pool handlers).outcome = .ok table) :
  (∀ h ∈ handlers, h.start < layout.boundaries.length ∧ h.stop < layout.boundaries.length)
    ∧ List.Forall₂ (ExceptionEntry.Describes code layout.boundaries pool)
      (handlers.filter fun h => layout.boundaries[h.start]? ≠ layout.boundaries[h.stop]?) table
  := by
  induction handlers generalizing table with
  | nil =>
      obtain rfl := Except.ok.inj htable
      simp
  | cons h handlers ih =>
      rw [exceptionTable, Traced.outcome_bind] at htable
      obtain ⟨e?, hentry, htable⟩ := Except.bind_eq_ok_iff.mp htable
      rw [Traced.outcome_bind] at htable
      obtain ⟨entries, hentries, htable⟩ := Except.bind_eq_ok_iff.mp htable
      obtain rfl := Except.ok.inj htable
      obtain ⟨hbounds, hforall⟩ := ih hentries
      obtain ⟨start, stop, hstart, hstop, hentry⟩ := Handler.entry?_eq_ok hentry
      constructor
      · intro h' hmem
        obtain rfl | hmem := List.mem_cons.mp hmem
        · use (List.getElem?_eq_some_iff.mp hstart).1, (List.getElem?_eq_some_iff.mp hstop).1
        · apply hbounds h' hmem
      · obtain ⟨rfl, rfl⟩ | ⟨hne, target, catchType, htarget, hcatch, rfl⟩ := hentry
        · rw [List.filter_cons_of_neg (by simp [hstart, hstop])]
          apply hforall
        · rw [List.filter_cons_of_pos (by simp [hstart, hstop, hne])]
          apply List.Forall₂.cons (hcovers.describes hstart hstop htarget hcatch) hforall

/-! ### The code -/

/-- What assembled code consists of. -/
theorem MethodCode.assemble_eq_ok {code : MethodCode} {out : AssembledCode}
    (h : (code.assemble pool).outcome = .ok out) :
  ∃ layout, Layout.of pool code.instructions = .ok layout
    ∧ encodeFrom layout.labels pool 0 [] code.instructions layout.boundaries = .ok out.code
    ∧ (exceptionTable layout.boundaries layout.labels pool code.handlers).outcome = .ok out.table
    ∧ out.offsets = layout.boundaries
  := by
  rw [MethodCode.assemble, Traced.outcome_bind] at h
  obtain ⟨layout, hlayout, h⟩ := Except.bind_eq_ok_iff.mp h
  rw [Traced.outcome_bind] at h
  obtain ⟨bytes, hbytes, h⟩ := Except.bind_eq_ok_iff.mp h
  rw [Traced.outcome_bind] at h
  obtain ⟨table, htable, h⟩ := Except.bind_eq_ok_iff.mp h
  obtain rfl := Except.ok.inj h
  use layout, hlayout, hbytes, htable

/-- Code is assembled once it has a layout, bytes and an exception table. -/
theorem MethodCode.assemble_of_ok {code : MethodCode} {bytes : List UInt8}
    {table : List ExceptionEntry} (hlayout : Layout.of pool code.instructions = .ok layout)
    (hbytes : encodeFrom layout.labels pool 0 [] code.instructions layout.boundaries = .ok bytes)
    (htable : (exceptionTable layout.boundaries layout.labels pool code.handlers).outcome
      = .ok table) :
  (code.assemble pool).outcome
    = .ok ⟨bytes, code.maxStack, code.maxLocals, table, layout.boundaries⟩
  := by
  rw [MethodCode.assemble, Traced.outcome_bind]
  apply Except.bind_eq_ok_iff.mpr ⟨_, hlayout, _⟩
  rw [Traced.outcome_bind]
  apply Except.bind_eq_ok_iff.mpr ⟨_, hbytes, _⟩
  rw [Traced.outcome_bind]
  apply Except.bind_eq_ok_iff.mpr ⟨_, htable, _⟩
  rfl

/-- Each instruction is encoded at its offset, to as many bytes as 32 bits hold of its size. -/
theorem Layout.Covers.exists_encode (hcovers : layout.Covers pool code) {bytes : List UInt8}
    (h : encodeFrom layout.labels pool 0 [] code layout.boundaries = .ok bytes) {k : Nat}
    {i : Instruction} (hk : code[k]? = some i) :
  ∃ start part, layout.boundaries[k]? = some start
    ∧ i.encode layout.labels pool start = .ok part
    ∧ i.size pool start = .ok (wrap32 part.length)
  := by
  obtain ⟨start, size, hstart, hsize, hstop⟩ := hcovers.step hk
  obtain ⟨part, hpart⟩ := exists_encodeBetween h hk hstart hstop
  obtain ⟨hencode, hlength⟩ := encodeBetween_eq_ok hpart
  use start, part, hstart, hencode
  have hstart := hcovers.bounded hstart
  have hlt := Instruction.size_lt_wrap hsize
  rw [hsize]
  congr 1
  unfold wrap32 at hlength ⊢
  omega

/-- The bytes of an instruction stand between its offset and the next, as they are encoded
there. -/
theorem Layout.Covers.slice (hcovers : layout.Covers pool code) (hmade : SwitchesMade code)
    {bytes : List UInt8}
    (h : encodeFrom layout.labels pool 0 [] code layout.boundaries = .ok bytes) :
  layout.size = bytes.length
    ∧ ∀ {k i start stop}, code[k]? = some i → layout.boundaries[k]? = some start →
      layout.boundaries[k + 1]? = some stop →
      i.encode layout.labels pool start = .ok ((bytes.drop start).take (stop - start))
  := by
  have hlength := hcovers.length
  have hfirst := hcovers.first
  have hlast := hcovers.last
  have hsorted := hcovers.pairwise_le hmade
  have hbounded : ∀ offset ∈ layout.boundaries, offset ≤ 65535 := by
    intro offset hmem
    obtain ⟨k, hk⟩ := List.mem_iff_getElem?.mp hmem
    apply hcovers.bounded hk
  cases hboundaries : layout.boundaries with
  | nil =>
      rw [hboundaries] at hfirst
      contradiction
  | cons first boundaries =>
      rw [hboundaries] at h hlength hfirst hlast hsorted hbounded
      obtain rfl := Option.some.inj hfirst
      obtain ⟨rest, hrest, hend, hslice⟩ := encodeFrom_eq_ok h (Nat.succ.inj hlength) hsorted
        (List.forall_mem_cons.mp hbounded).2 hmade
      rw [List.reverse_nil, List.flatten_nil, List.nil_append] at hrest
      subst hrest
      constructor
      · rw [hend, Nat.zero_add] at hlast
        apply (Option.some.inj hlast).symm
      · intro k i start stop hk hstart hstop
        obtain ⟨start', stop', hstart', hstop', hencode⟩ := hslice hk
        rw [hstart] at hstart'
        rw [hstop] at hstop'
        obtain rfl := Option.some.inj hstart'
        obtain rfl := Option.some.inj hstop'
        apply hencode

section

variable {bytes : List UInt8} {k start : Nat}

/-- The bytes around those of an instruction. -/
theorem Layout.Covers.exists_append (hcovers : layout.Covers pool code) (hmade : SwitchesMade code)
    (h : encodeFrom layout.labels pool 0 [] code layout.boundaries = .ok bytes) {i : Instruction}
    (hk : code[k]? = some i) (hstart : layout.boundaries[k]? = some start) :
  ∃ before part after, bytes = before ++ part ++ after ∧ before.length = start
    ∧ i.encode layout.labels pool start = .ok part ∧ i.size pool start = .ok part.length
  := by
  obtain ⟨hsize, hslice⟩ := hcovers.slice hmade h
  obtain ⟨start', size, hstart', hi, hnext⟩ := hcovers.next hmade hk
  rw [hstart] at hstart'
  obtain rfl := Option.some.inj hstart'
  have hle : start + size ≤ bytes.length := by
    obtain ⟨hlt, -⟩ := List.getElem?_eq_some_iff.mp hnext
    rw [hcovers.length] at hlt
    rw [← hsize]
    apply hcovers.le hmade (Nat.le_of_lt_succ hlt) hnext hcovers.last
  obtain ⟨before, after, hbytes, hbefore⟩ :=
    exists_append_of_slice (Nat.le_add_right start size) hle rfl
  refine ⟨before, _, after, hbytes, hbefore, hslice hk hstart hnext, ?_⟩
  rw [hi, List.length_take, List.length_drop, Nat.add_sub_cancel_left, Nat.min_eq_left (by omega)]

/-- The distance of a branch leads from it to the offset of its target. -/
theorem Layout.Covers.branch (hcovers : layout.Covers pool code) (hmade : SwitchesMade code)
    (h : encodeFrom layout.labels pool 0 [] code layout.boundaries = .ok bytes)
    {test : BranchTest} {target : Label} (hk : code[k]? = some (.branch test target))
    (hstart : layout.boundaries[k]? = some start) :
  ∃ (distance : Int) (place : Nat), Bytes.int16At? bytes (start + 1) = some distance
    ∧ LabelOffset code layout.boundaries target place ∧ start + distance = place
  := by
  obtain ⟨before, part, after, rfl, rfl, hencode, hsize⟩ := hcovers.exists_append hmade h hk hstart
  have hlength : part.length = 3 := (Except.ok.inj hsize).symm
  obtain ⟨place, hplace, hlow, hhigh, rfl⟩ := branchBytes_eq_ok hencode hlength
  use (place : Int) - before.length, place
  have hread := Bytes.int16At?_append (before ++ [Instruction.branchOpcode test]) after hlow hhigh
  constructor
  · rw [List.length_append] at hread
    simpa using hread
  · use hcovers.labelOffset_iff.mp hplace
    omega

/-- Every distance of a switch leads from it to the offset of its target. -/
theorem Layout.Covers.switch (hcovers : layout.Covers pool code) (hmade : SwitchesMade code)
    (h : encodeFrom layout.labels pool 0 [] code layout.boundaries = .ok bytes) {s : Switch}
    (hk : code[k]? = some (.switch s)) (hstart : layout.boundaries[k]? = some start)
    {field : Nat × Label} (hfield : field ∈ s.distanceFields start) :
  ∃ (distance : Int) (place : Nat), Bytes.int32At? bytes field.1 = some distance
    ∧ LabelOffset code layout.boundaries field.2 place ∧ start + distance = place
  := by
  obtain ⟨before, part, after, rfl, rfl, hencode, -⟩ := hcovers.exists_append hmade h hk hstart
  obtain ⟨before', distance, after', ⟨place, hplace, rfl⟩, rfl, hfield⟩ :=
    switchBytes_eq_ok hencode hfield
  have hle := hcovers.bounded hstart
  have hle' : place ≤ 65535 := by
    obtain ⟨j, -, hj⟩ := hcovers.labelOffset_iff.mp hplace
    apply hcovers.bounded hj
  use (place : Int) - before.length, place
  have hread := Bytes.int32At?_append (n := (place : Int) - before.length) (before ++ before')
    (after' ++ after) (by omega) (by omega)
  constructor
  · rw [List.length_append, hfield] at hread
    simpa [distanceBytes] using hread
  · use hcovers.labelOffset_iff.mp hplace
    omega

end

/-- What assembly gives is laid out as its offsets say, unless there is a large switch. -/
theorem assemble_laidOut {code : MethodCode} {pool : FrozenPool} {out : AssembledCode}
    (hmade : SwitchesMade code.instructions) (h : (code.assemble pool).outcome = .ok out) :
  out.LaidOut code pool
  := by
  obtain ⟨layout, hlayout, hbytes, htable, hoffsets⟩ := MethodCode.assemble_eq_ok h
  have hcovers := Layout.covers_of hlayout
  obtain ⟨hsize, hslice⟩ := hcovers.slice hmade hbytes
  obtain ⟨hbounds, htable⟩ := hcovers.exceptionTable_eq_ok htable
  constructor
  · rw [hoffsets, hcovers.length]
  · rw [hoffsets, hcovers.first]
  · rw [hoffsets]
    apply hcovers.pairwise_le hmade
  · rw [hoffsets, hcovers.last, hsize]
  · rw [← hsize]
    apply hcovers.size_le
  · rw [hoffsets]
    use layout.labels, fun l offset => hcovers.labelOffset_iff
  · rw [hoffsets]
    intro k test target start hk hstart
    apply hcovers.branch hmade hbytes hk hstart
  · rw [hoffsets]
    intro k s start hk hstart field hfield
    apply hcovers.switch hmade hbytes hk hstart hfield
  · rw [hoffsets]
    apply hbounds
  · rw [hoffsets]
    apply htable

/-- A loop around a switch on a local, with handlers for parts of it. The last of them protects
no bytes. -/
def switchLoop : MethodCode :=
  ⟨[.label ⟨"again"⟩, .load 0 .int,
      .switch ⟨⟨"done"⟩, [(1, ⟨"again"⟩), (3, ⟨"done"⟩)], .table 1 3⟩,
      .label ⟨"done"⟩, .goto ⟨"again"⟩],
    [⟨0, 3, ⟨"done"⟩, none⟩, ⟨2, 3, ⟨"again"⟩, none⟩, ⟨3, 4, ⟨"again"⟩, none⟩], 1⟩

/-- The pool without entries. -/
def noEntries : FrozenPool :=
  ⟨#[], ∅, 1⟩

/-- The loop when it is assembled. -/
def assembledLoop : AssembledCode where
  code := [0x1a, 0xaa, 0, 0, 0, 0, 0, 27, 0, 0, 0, 1, 0, 0, 0, 3, 0xff, 0xff, 0xff, 0xff,
    0, 0, 0, 27, 0, 0, 0, 27, 0xa7, 0xff, 0xe4]
  maxStack := 2
  maxLocals := 1
  table := [⟨0, 28, 28, 0⟩, ⟨1, 28, 0, 0⟩]
  offsets := [0, 0, 1, 28, 28, 31]

/-- The layout of the loop, with the offsets of its two labels. -/
theorem exists_layout_switchLoop :
  ∃ labels, Layout.of noEntries switchLoop.instructions = .ok ⟨5, [28, 28, 1, 0, 0], 31, labels⟩
    ∧ labels.resolve ⟨"again"⟩ = .ok 0 ∧ labels.resolve ⟨"done"⟩ = .ok 28
  := by
  use ⟨((∅ : Std.HashMap Label Nat).insert ⟨"again"⟩ 0).insert ⟨"done"⟩ 28⟩
  constructor
  · simp [Layout.of, switchLoop, Layout.add, Layout.bindLabel_label, Layout.bindLabel_of_ne,
      Instruction.size, LabelTable.empty, Layout.atInstruction, Except.mapError, pure, Except.pure,
      bind, Except.bind, Instruction.switchLength, wrap32, switchPadding, Switch.span,
      Instruction.goto]
  · simp only [LabelTable.resolve_eq_ok, Std.HashMap.getElem?_insert]
    simp

/-- The loop is assembled. -/
theorem assemble_switchLoop :
  (switchLoop.assemble noEntries).outcome = .ok assembledLoop
  := by
  obtain ⟨labels, hlayout, hagain, hdone⟩ := exists_layout_switchLoop
  have hswitch : Instruction.switchBytes ⟨⟨"done"⟩, [(1, ⟨"again"⟩), (3, ⟨"done"⟩)], .table 1 3⟩ 1
      labels = .ok ((assembledLoop.code.drop 1).take 27) := by
    have hkeys : Instruction.tableKeys 1 3 = [1, 2, 3] := by decide
    simp only [Instruction.switchBytes, hkeys, hdone]
    simp [Switch.target, List.lookup_cons, hagain, hdone]
    rfl
  have hbranch : Instruction.branchBytes .always ⟨"again"⟩ 28 labels = .ok [0xa7, 0xff, 0xe4] := by
    simp only [Instruction.branchBytes, hagain]
    rfl
  have hbytes : encodeFrom labels noEntries 0 [] switchLoop.instructions [0, 0, 1, 28, 28, 31]
      = .ok assembledLoop.code := by
    simp only [switchLoop, encodeFrom, encodeBetween, Instruction.encode, Instruction.goto, hswitch,
      hbranch]
    rfl
  have htable : (exceptionTable [0, 0, 1, 28, 28, 31] labels noEntries switchLoop.handlers).outcome
      = .ok assembledLoop.table := by
    simp only [switchLoop, exceptionTable, Handler.entry?, hagain, hdone]
    rfl
  exact MethodCode.assemble_of_ok hlayout hbytes htable

/-- The switch of the loop is made from two cases. -/
theorem switchesMade_switchLoop :
  SwitchesMade switchLoop.instructions
  := by
  intro s hs
  obtain rfl : s = ⟨⟨"done"⟩, [(1, ⟨"again"⟩), (3, ⟨"done"⟩)], .table 1 3⟩ := by
    simpa [switchLoop, Instruction.goto] using hs
  use ⟨"done"⟩, [(1, ⟨"again"⟩), (3, ⟨"done"⟩)], by decide
  rw [Switch.ofCases, List.mergeSort_of_pairwise (by decide)]
  rfl

/-- The assembled loop is laid out as its offsets say. -/
theorem switchLoop_laidOut :
  SwitchesMade switchLoop.instructions
    ∧ (switchLoop.assemble noEntries).outcome = .ok assembledLoop
    ∧ assembledLoop.LaidOut switchLoop noEntries
  := ⟨switchesMade_switchLoop, assemble_switchLoop,
    assemble_laidOut switchesMade_switchLoop assemble_switchLoop⟩

end ClassForge
