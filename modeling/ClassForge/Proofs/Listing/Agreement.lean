import ClassForge.Proofs.Assembly.Resolution
import ClassForge.Proofs.Listing.Targets

/-!
# Listings of assembled code

Assembled code is listed as it was assembled: the sweep finds each opcode where the layout put
it and nothing else, it ends where the code ends, and it shows the offsets of the labels as
the targets of branches and switches. This holds for code whose instructions were made for
types; an instruction that no type has may stand for another opcode. The switches are to have
fewer than 2^28 cases each: the size of a longer one may wrap, and then the offsets are not those
of the bytes.
-/

namespace ClassForge

/-! ### Instructions made for types -/

/-- The instruction is one of those that can be made. -/
inductive Instruction.Made : Instruction → Prop where
  | label (l : Label) : Made (.label l)
  | load {slot type i} : Checked.load slot type = .ok i → Made i
  | store {slot type i} : Checked.store slot type = .ok i → Made i
  | increment {slot delta i} : Checked.increment slot delta = .ok i → Made i
  | constant (c : Constant) : Made (.constant c)
  | arith {op type i} : Checked.arith op type = .ok i → Made i
  | neg {type i} : Checked.neg type = .ok i → Made i
  | conversion {source target i} : Checked.conversion source target = .ok i → Made i
  | compare {type condition i} : Checked.compare type condition = .ok i → Made i
  | goto (target : Label) : Made (.goto target)
  | ifZero (condition : Condition) (target : Label) : Made (.ifZero condition target)
  | ifNull (target : Label) : Made (.branch .null target)
  | ifNonNull (target : Label) : Made (.branch .nonNull target)
  | branchIf {type condition target i} : Checked.branchIf type condition target = .ok i → Made i
  | switch {fallback cases i} : Checked.switch fallback cases = .ok i → Made i
  | dup {type i} : Checked.dup type = .ok i → Made i
  | pop {type i} : Checked.pop type = .ok i → Made i
  | new {type i} : Checked.new type = .ok i → Made i
  | newArray {elem i} : Checked.newArray elem = .ok i → Made i
  | newArrays {type dims i} : Checked.newArrays type dims = .ok i → Made i
  | arrayLength : Made .arrayLength
  | arrayLoad {elem i} : Checked.arrayLoad elem = .ok i → Made i
  | arrayStore {elem i} : Checked.arrayStore elem = .ok i → Made i
  | checkCast {type i} : Checked.checkCast type = .ok i → Made i
  | instanceOf {type i} : Checked.instanceOf type = .ok i → Made i
  | getField {owner name type isStatic i} :
    Checked.getField owner name type isStatic = .ok i → Made i
  | putField {owner name type isStatic i} :
    Checked.putField owner name type isStatic = .ok i → Made i
  | invoke (owner : Ty) (name : String) (type : MethodType) (mode : InvokeMode) :
    Made (Checked.invoke owner name type mode)
  | ret {type i} : Checked.ret type = .ok i → Made i
  | throw : Made .throw
  | monitorEnter : Made .monitorEnter
  | monitorExit : Made .monitorExit
  | nop : Made .nop

/-- The operands of the instruction are such that there is an opcode for them. -/
def Instruction.Proper : Instruction → Prop
  | .arith op kind => kind ≠ .reference ∧ ¬ (kind.isFloating ∧ op.isBitwise)
  | .neg kind => kind ≠ .reference
  | .compare kind _ => kind ≠ .int ∧ kind ≠ .reference
  | .branch (.compare kind condition) _ =>
    kind = .int ∨ kind = .reference ∧ (condition = .eq ∨ condition = .ne)
  | .switch s => ∃ fallback cases, Switch.ofCases fallback cases = .ok s
  | .dup slots | .pop slots => slots = 1 ∨ slots = 2
  | _ => True

/-- An instruction that was made for a type has operands for which there is an opcode. -/
theorem Instruction.Made.proper {i : Instruction} (h : i.Made) :
  i.Proper
  := by
  cases h with
  | arith h =>
      obtain ⟨kind, -, h⟩ := Except.bind_eq_ok_iff.mp h
      split_ifs at h with hkind
      obtain rfl := Except.ok.inj h
      simpa [Proper] using hkind
  | neg h =>
      obtain ⟨kind, -, h⟩ := Except.bind_eq_ok_iff.mp h
      split_ifs at h with hkind
      obtain rfl := Except.ok.inj h
      exact hkind
  | compare h =>
      obtain ⟨kind, -, h⟩ := Except.bind_eq_ok_iff.mp h
      cases kind with
      | long | float | double =>
          obtain rfl := Except.ok.inj h
          exact ⟨by decide, by decide⟩
      | int | reference => contradiction
  | branchIf h =>
      obtain ⟨kind, -, h⟩ := Except.bind_eq_ok_iff.mp h
      split_ifs at h with hkind
      obtain rfl := Except.ok.inj h
      simpa [Proper] using hkind
  | switch h =>
      obtain ⟨s, hs, h⟩ := Except.bind_eq_ok_iff.mp h
      obtain rfl := Except.ok.inj h
      exact ⟨_, _, hs⟩
  | dup h | pop h =>
      obtain ⟨kind, -, h⟩ := Except.bind_eq_ok_iff.mp h
      obtain rfl := Except.ok.inj h
      cases kind <;> simp [Proper, Kind.slots]
  | load h | store h | newArray h | arrayLoad h | arrayStore h | getField h | putField h =>
      obtain ⟨kind, -, h⟩ := Except.bind_eq_ok_iff.mp h
      obtain rfl := Except.ok.inj h
      trivial
  | checkCast h | instanceOf h =>
      obtain ⟨kind, -, h⟩ := Except.bind_eq_ok_iff.mp h
      split_ifs at h
      obtain rfl := Except.ok.inj h
      trivial
  | increment h =>
      rw [Checked.increment] at h
      split_ifs at h
      obtain rfl := Except.ok.inj h
      trivial
  | newArrays h =>
      rw [Checked.newArrays] at h
      split_ifs at h
      obtain rfl := Except.ok.inj h
      trivial
  | conversion h =>
      rw [Checked.conversion] at h
      split at h
      · split_ifs at h
        obtain rfl := Except.ok.inj h
        trivial
      · contradiction
  | new h =>
      unfold Checked.new at h
      split at h
      · obtain rfl := Except.ok.inj h
        trivial
      · contradiction
  | @ret type _ h =>
      rw [Checked.ret] at h
      split_ifs at h
      · obtain rfl := Except.ok.inj h
        trivial
      · obtain ⟨kind, -, h⟩ := Except.bind_eq_ok_iff.mp h
        obtain rfl := Except.ok.inj h
        trivial
  | label | constant | goto | ifZero | ifNull | ifNonNull | arrayLength | invoke | throw
  | monitorEnter | monitorExit | nop => trivial

/-- An instruction that can be made has an opcode. -/
theorem Instruction.Made.hasOpcode {i : Instruction} (h : i.Made) :
  i.HasOpcode
  := by
  have hproper := h.proper
  cases i with
  | arith op kind => exact hproper
  | switch s => exact hproper
  | branch test target =>
      cases test with
      | compare kind condition =>
          rcases hproper with rfl | ⟨rfl, hcondition⟩
          · trivial
          · exact hcondition
      | _ => trivial
  | _ => trivial

/-! ### One instruction -/

/-- The items are what is listed for an instruction at `offset`. -/
structure Instruction.ListedAs (labels : LabelTable) (offset : Nat) (i : Instruction)
    (items : List CodeItem) : Prop where
  offsets : items.map CodeItem.offset = i.opcodeOffsets offset
  targets : ∀ l ∈ i.targets, labels.resolve l = .ok (labels.place l)
  branch : ∀ {test target}, i = .branch test target → ∃ name, ∃ item ∈ items, ∀ file,
    item.lines? file
      = some [⟨0, toString offset ++ ": " ++ (name ++ " " ++ toString (labels.place target))⟩]
  switch : ∀ {s}, i = .switch s → ∃ text, ∃ item ∈ items, ∀ file, item.lines? file
    = some (⟨0, toString offset ++ ": " ++ text⟩
      :: (s.caseTexts labels.place).map fun text => ⟨1, text⟩)

section

variable {labels : LabelTable} {pool : FrozenPool} {offset : Nat} {bytes : List UInt8}
  {i : Instruction}

/-- What is encoded for an instruction is read back as what is listed for it. -/
theorem Instruction.exists_listedAs (hopcode : i.HasOpcode)
    (h : i.encode labels pool offset = .ok bytes) (hsize : i.size pool offset = .ok bytes.length)
    (hend : offset + bytes.length ≤ 65535)
    (hplaces : ∀ {l place}, labels.resolve l = .ok place → place ≤ 65535) :
  ∃ items, CodeItem.Reads offset bytes items ∧ i.ListedAs labels offset items
  := by
  have hother (htargets : i.targets = []) :
      ∃ items, CodeItem.Reads offset bytes items ∧ i.ListedAs labels offset items := by
    obtain ⟨items, hread, hoffsets⟩ := readsAt_of_encode hopcode htargets h
    refine ⟨items, hread, hoffsets, ?_, ?_, ?_⟩
    · rw [htargets]
      apply List.forall_mem_nil
    · rintro test target rfl
      contradiction
    · rintro s rfl
      contradiction
  cases i with
  | branch test target =>
      have hlength : bytes.length = 3 := (Except.ok.inj hsize).symm
      obtain ⟨name, hplace, hlow, hhigh, hread⟩ := exists_standsIn_branch hopcode h hlength
      refine ⟨_, .singleton hread, rfl, ?_, ?_, ?_⟩
      · intro l hl
        obtain rfl := List.mem_singleton.mp hl
        apply hplace
      · intro test' target' heq
        obtain ⟨rfl, rfl⟩ := Instruction.branch.inj heq
        exact ⟨name, _, List.mem_singleton_self _,
          fun file => CodeItem.lines?_near file name hlow hhigh⟩
      · intro s heq
        contradiction
  | switch s =>
      obtain ⟨fallback, cases, hs⟩ := hopcode
      obtain ⟨htargets, name, hread⟩ := Switch.exists_standsIn hs h (by omega)
      obtain ⟨-, -, hsorted, -⟩ := Switch.ofCases_eq_ok hs
      have hoffset : offset ≤ 65535 := by omega
      have hle : ∀ l ∈ (Instruction.switch s).targets, labels.place l ≤ 65535 := by
        intro l hl
        apply hplaces (htargets l hl)
      refine ⟨_, .singleton hread, rfl, htargets, ?_, ?_⟩
      · intro test target heq
        contradiction
      · intro s' heq
        obtain rfl := Instruction.switch.inj heq
        obtain ⟨text, hlines⟩ := Switch.exists_lines? hsorted hoffset hle name
        exact ⟨text, _, List.mem_singleton_self _, hlines⟩
  | _ => exact hother rfl

end

/-! ### All instructions -/

/-- The places of the opcodes of some code whose instructions have the offsets. -/
def MethodCode.opcodeOffsets (code : MethodCode) (offsets : List Nat) : List Nat :=
  (code.instructions.zip offsets).flatMap fun p => p.1.opcodeOffsets p.2

section

variable {pool : FrozenPool} {code : List Instruction} {layout : Layout} {bytes : List UInt8}

/-- Up to each offset the bytes are read as what is listed for the instructions before it. -/
theorem Layout.Covers.exists_reads (hcovers : layout.Covers pool code)
    (hswitches : SwitchesMade code)
    (h : encodeFrom layout.labels pool 0 [] code layout.boundaries = .ok bytes)
    (hopcode : ∀ i ∈ code, i.HasOpcode) {k start : Nat}
    (hstart : layout.boundaries[k]? = some start) :
  ∃ parts, CodeItem.Reads 0 (bytes.take start) parts.flatten
    ∧ List.Forall₂ (fun p => p.1.ListedAs layout.labels p.2)
      ((code.zip layout.boundaries).take k) parts
  := by
  have hplaces {l : Label} {place : Nat} (hplace : layout.labels.resolve l = .ok place) :
      place ≤ 65535 := by
    obtain ⟨j, -, hj⟩ := hcovers.labelOffset_iff.mp hplace
    apply hcovers.bounded hj
  induction k generalizing start with
  | zero =>
      have hfirst := hcovers.first
      obtain rfl := Option.some.inj (hstart.symm.trans hfirst)
      use [], .nil, .nil
  | succ k ih =>
      have hlt : k < code.length := by
        obtain ⟨hlt, -⟩ := List.getElem?_eq_some_iff.mp hstart
        rw [hcovers.length] at hlt
        omega
      have hk : code[k]? = some code[k] := List.getElem?_eq_getElem hlt
      obtain ⟨offset, size, hoffset, hsize, hnext⟩ := hcovers.next hswitches hk
      obtain ⟨before, part, after, rfl, rfl, hencode, hpart⟩ :=
        hcovers.exists_append hswitches h hk hoffset
      obtain rfl := Except.ok.inj (hsize.symm.trans hpart)
      obtain rfl := Option.some.inj (hstart.symm.trans hnext)
      obtain ⟨parts, hread, hparts⟩ := ih hoffset
      obtain ⟨items, hitems, hlisted⟩ := Instruction.exists_listedAs
        (hopcode _ (List.getElem_mem hlt)) hencode hpart (hcovers.bounded hnext) hplaces
      have hzip : (code.zip layout.boundaries)[k]? = some (code[k], before.length) :=
        List.getElem?_zip_eq_some.mpr ⟨hk, hoffset⟩
      rw [List.append_assoc, List.take_left] at hread
      use parts ++ [items]
      constructor
      · rw [List.flatten_append, List.flatten_singleton, ← List.length_append, List.take_left]
        apply hread.append
        rwa [Nat.zero_add]
      · rw [List.take_add_one, hzip]
        exact List.rel_append hparts (.cons hlisted .nil)

end

/-! ### The listing -/

namespace CodeItem

variable {start stop offset : Nat} {bytes : List UInt8} {items : List CodeItem}

/-- The items are instructions that stand one after another from `start` to `stop`. -/
def Tile : Nat → List CodeItem → Nat → Prop
  | start, [], stop => start = stop
  | start, .instruction offset d :: items, stop =>
    offset = start ∧ Tile (start + d.size offset) items stop
  | _, .malformed _ :: _, _ => False

theorem Reads.tile (h : Reads start bytes items) :
  Tile start items (start + bytes.length)
  := by
  induction h with
  | nil => rfl
  | cons hd _ ih =>
      use rfl
      rwa [List.length_append, ← Nat.add_assoc, ← hd.length]

/-- Bytes that are read as instructions are not listed as malformed. -/
theorem Reads.not_malformed (h : Reads start bytes items) :
  .malformed offset ∉ items
  := by
  induction h with
  | nil => apply List.not_mem_nil
  | cons _ _ ih =>
      intro hmem
      obtain heq | hmem := List.mem_cons.mp hmem
      · contradiction
      · apply ih hmem

end CodeItem

/-- The lines of a list are those of its first element and then those of the others. -/
theorem joinLines_cons_eq_some {α : Type} {lines? : α → Option (List ListingLine)} {a : α}
    {as : List α} {lines : List ListingLine} (h : joinLines lines? (a :: as) = some lines) :
  ∃ first rest, lines? a = some first ∧ joinLines lines? as = some rest ∧ lines = first ++ rest
  := by
  obtain ⟨parts, hparts, h⟩ := Option.bind_eq_some_iff.mp h
  obtain rfl := Option.some.inj h
  rw [List.mapM_cons] at hparts
  obtain ⟨first, hfirst, hparts⟩ := Option.bind_eq_some_iff.mp hparts
  obtain ⟨rest, hrest, hparts⟩ := Option.bind_eq_some_iff.mp hparts
  obtain rfl := Option.some.inj hparts
  refine ⟨first, rest.flatten, hfirst, ?_, List.flatten_cons⟩
  rw [joinLines, hrest]
  rfl

/-- The line starts with an offset. -/
def StartsWithOffset (line : ListingLine) (offset : Nat) : Prop :=
  ∃ text, line.text = toString offset ++ ": " ++ text

namespace CodeItem

variable {item : CodeItem} {items : List CodeItem} {file : ClassFile} {lines : List ListingLine}

/-- One line of an item is not indented, and this one shows its offset. -/
theorem exists_line (h : item.lines? file = some lines) :
  ∃ line, lines.filter (·.depth = 0) = [line] ∧ StartsWithOffset line item.offset
  := by
  cases item with
  | malformed offset =>
      obtain rfl := Option.some.inj h
      refine ⟨_, rfl, "<malformed>", ?_⟩
      rw [String.append_assoc]
      rfl
  | instruction offset d =>
      obtain ⟨operands, -, h⟩ := Option.bind_eq_some_iff.mp h
      obtain rfl := Option.some.inj h
      rw [List.filter_cons_of_pos rfl, List.filter_eq_nil_iff.mpr (by simp)]
      exact ⟨_, rfl, _, rfl⟩

/-- The lines that are not indented show the offsets of the items. -/
theorem forall₂_startsWithOffset (h : joinLines (CodeItem.lines? file) items = some lines) :
  List.Forall₂ StartsWithOffset (lines.filter (·.depth = 0)) (items.map CodeItem.offset)
  := by
  induction items generalizing lines with
  | nil =>
      obtain rfl := Option.some.inj h
      exact .nil
  | cons item items ih =>
      obtain ⟨first, rest, hfirst, hrest, rfl⟩ := joinLines_cons_eq_some h
      obtain ⟨line, hline, hstarts⟩ := exists_line hfirst
      rw [List.filter_append, hline]
      exact .cons hstarts (ih hrest)

end CodeItem

/-- The listing shows the code as it was assembled. -/
structure AssembledCode.Listed (code : MethodCode) (out : AssembledCode) : Prop where
  readable : ∀ offset, .malformed offset ∉ CodeItem.sweep out.code
  tile : CodeItem.Tile 0 (CodeItem.sweep out.code) out.code.length
  offsets : (CodeItem.sweep out.code).map CodeItem.offset = code.opcodeOffsets out.offsets
  /-- The lines that are not indented show these offsets. -/
  lines : ∀ {file : ClassFile} {lines}, file.codeLines? out.code = some lines →
    List.Forall₂ StartsWithOffset (lines.filter (·.depth = 0)) (code.opcodeOffsets out.offsets)
  /-- A branch is shown with the offset of its target. -/
  branch : ∀ {k start : Nat} {test target},
    code.instructions[k]? = some (.branch test target) → out.offsets[k]? = some start →
    ∃ name place, LabelOffset code.instructions out.offsets target place
      ∧ ∃ item ∈ CodeItem.sweep out.code, ∀ file, item.lines? file
        = some [⟨0, toString start ++ ": " ++ (name ++ " " ++ toString place)⟩]
  /-- A switch is shown with the offsets of its targets, each of them below its key. -/
  switch : ∀ {k start : Nat} {s},
    code.instructions[k]? = some (.switch s) → out.offsets[k]? = some start →
    ∃ (text : String) (place : Label → Nat),
      (∀ l ∈ (Instruction.switch s).targets, LabelOffset code.instructions out.offsets l (place l))
      ∧ (∃ item ∈ CodeItem.sweep out.code, ∀ file, item.lines? file
        = some (⟨0, toString start ++ ": " ++ text⟩
          :: (s.caseTexts place).map fun text => ⟨1, text⟩))
      ∧ ∀ c ∈ s.cases, c.1 ∈ s.keys ∧ s.target c.1 = c.2

theorem map_offset_flatten {labels : LabelTable} {code : List (Instruction × Nat)}
    {parts : List (List CodeItem)}
    (h : List.Forall₂ (fun p => p.1.ListedAs labels p.2) code parts) :
  parts.flatten.map CodeItem.offset = code.flatMap fun p => p.1.opcodeOffsets p.2
  := by
  induction h with
  | nil => rfl
  | cons hpart _ ih => rw [List.flatten_cons, List.map_append, hpart.offsets, ih, List.flatMap_cons]

/-- The instructions of the loop can all be made. -/
theorem made_switchLoop :
  ∀ i ∈ switchLoop.instructions, i.Made
  := by
  have hload : Checked.load 0 .int = .ok (.load 0 .int) := rfl
  have hswitch : Checked.switch ⟨"done"⟩ [(1, ⟨"again"⟩), (3, ⟨"done"⟩)]
      = .ok (.switch ⟨⟨"done"⟩, [(1, ⟨"again"⟩), (3, ⟨"done"⟩)], .table 1 3⟩) := by
    rw [Checked.switch, Switch.ofCases, List.mergeSort_of_pairwise (by decide)]
    rfl
  rw [switchLoop]
  simp only [List.forall_mem_cons]
  exact ⟨.label _, .load hload, .switch hswitch, .label _, .goto _, List.forall_mem_nil _⟩

end ClassForge
