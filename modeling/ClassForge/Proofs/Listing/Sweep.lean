import ClassForge.Proofs.Listing.Circles
import ClassForge.Proofs.Listing.Operands

/-!
# Sweeps over any bytes

Bytes that nobody has assembled are swept as well. The sweep reads one instruction after another,
and it ends with the code or before what cannot be read as an instruction: an opcode without a name,
operands that an opcode does not take, or operands that the code is too short for.

The instructions that are read are shown in order, unless one of them has a constant whose
references go in a circle.
-/

namespace ClassForge

/-! ### One instruction -/

/-- An opcode has no name exactly if it comes after the last one. -/
theorem Opcode.mnemonic?_eq_none_iff {opcode : UInt8} :
  mnemonic? opcode = none ↔ gotoW < opcode
  := by
  have hsize : mnemonics.size = 201 := by rfl
  rw [mnemonic?, Array.getElem?_eq_none_iff, hsize]
  rw [UInt8.lt_iff_toNat_lt]
  exact Nat.succ_le_iff

namespace Decoded

/-- No instruction can be read off the front of some code, which stands at `offset`: its opcode is
unknown, it does not take the operands, or the code is too short for them. -/
inductive Unreadable (offset : Nat) : List UInt8 → Prop where
  | unknown {opcode rest} : Opcode.gotoW < opcode → Unreadable offset (opcode :: rest)
  | refused {opcode rest} : Opcode.Refuses offset opcode rest → Unreadable offset (opcode :: rest)
  | truncated {opcode rest} :
    Opcode.Truncates offset opcode rest → Unreadable offset (opcode :: rest)

/-- The instruction is read at `offset` of some code. The reader comes to stand right behind it, and
that is within the code. -/
structure ReadAt (code : List UInt8) (offset : Nat) (d : Decoded) : Prop where
  within : offset + d.size offset ≤ code.length
  readable : ¬ Unreadable offset (code.drop offset)
  read : ∃ opcode, code[offset]? = some opcode ∧ Opcode.mnemonic? opcode = some d.name
    ∧ Operands.read offset (Opcode.form opcode) (code.drop (offset + 1))
      = .ok (d.operands, code.drop (offset + d.size offset))

variable {code : List UInt8} {offset : Nat} {d : Decoded}

theorem Unreadable.lt_length (h : Unreadable offset (code.drop offset)) :
  offset < code.length
  := by
  apply Nat.lt_of_not_le
  intro hle
  rw [List.drop_eq_nil_of_le hle] at h
  contradiction

theorem drop_eq_cons {opcode : UInt8} (h : code[offset]? = some opcode) :
  code.drop offset = opcode :: code.drop (offset + 1)
  := by
  obtain ⟨hlt, rfl⟩ := List.getElem?_eq_some_iff.mp h
  apply List.drop_eq_getElem_cons hlt

theorem ReadAt.ofCode?_eq (h : d.ReadAt code offset) :
  ofCode? offset (code.drop offset) = some d
  := by
  obtain ⟨opcode, hopcode, hname, hread⟩ := h.read
  rw [drop_eq_cons hopcode, ofCode?, hname, hread]
  rfl

/-- An opcode with a name is read with the operands that stand after it. -/
theorem readAt_of_standsIn {opcode : UInt8} {name : String} {operands : Operands}
    {bytes rest : List UInt8} (hopcode : code[offset]? = some opcode)
    (hname : Opcode.mnemonic? opcode = some name) (hrest : code.drop (offset + 1) = bytes ++ rest)
    (hstands : Operands.StandsIn offset (Opcode.form opcode) bytes operands)
    (hlength : Opcode.operandLength? offset opcode (code.drop (offset + 1)) = some bytes.length)
    (hrefuses : ¬ Opcode.Refuses offset opcode (code.drop (offset + 1))) :
  ReadAt code offset ⟨name, operands⟩
  := by
  have hall := congrArg List.length hrest
  rw [List.length_drop, List.length_append] at hall
  have hend : offset + (⟨name, operands⟩ : Decoded).size offset = offset + 1 + bytes.length := by
    rw [size, hstands.length, Nat.add_assoc]
  constructor
  · obtain ⟨hlt, -⟩ := List.getElem?_eq_some_iff.mp hopcode
    rw [hend]
    omega
  · rw [drop_eq_cons hopcode]
    intro hunreadable
    cases hunreadable with
    | unknown hunknown =>
        rw [Opcode.mnemonic?_eq_none_iff.mpr hunknown] at hname
        contradiction
    | refused hrefused => apply hrefuses hrefused
    | truncated htruncated =>
        have hlt := htruncated _ hlength
        rw [List.length_drop] at hlt
        omega
  · refine ⟨opcode, hopcode, hname, ?_⟩
    have hbehind : code.drop (offset + 1 + bytes.length) = rest := by
      rw [← List.drop_drop, hrest, List.drop_left]
    rw [hend, hbehind, hrest, hstands.read]

/-- At every place of some code there is an instruction, or a reason why there is none. -/
theorem exists_readAt_or_unreadable (h : offset < code.length) :
  (∃ d : Decoded, d.ReadAt code offset)
    ∨ ofCode? offset (code.drop offset) = none ∧ Unreadable offset (code.drop offset)
  := by
  have hopcode := List.getElem?_eq_getElem h
  rw [drop_eq_cons hopcode]
  cases hname : Opcode.mnemonic? code[offset] with
  | none =>
      right
      use by rw [ofCode?, hname]; rfl
      exact .unknown (Opcode.mnemonic?_eq_none_iff.mp hname)
  | some name =>
      obtain ⟨operands, bytes, rest, hrest, hstands, hlength, hrefuses⟩ | ⟨hfault, hreason⟩ :=
        Operands.settled offset code[offset] (code.drop (offset + 1))
      · left
        use ⟨name, operands⟩
        apply readAt_of_standsIn hopcode hname hrest hstands hlength hrefuses
      · right
        obtain ⟨fault, hfault⟩ := hfault
        use by rw [ofCode?, hname, hfault]; rfl
        obtain hrefuses | htruncates := hreason
        · exact .refused hrefuses
        · exact .truncated htruncates

end Decoded

/-! ### All instructions -/

namespace CodeItem

open Decoded

variable {code : List UInt8} {start stop : Nat} {items : List CodeItem}

/-- The sweep goes on behind an instruction that it has read. -/
theorem sweepOnto_of_readAt {offset : Nat} {d : Decoded} (h : d.ReadAt code offset)
    (done : List CodeItem) :
  sweepOnto done offset (code.drop offset)
    = sweepOnto (.instruction offset d :: done) (offset + d.size offset)
      (code.drop (offset + d.size offset))
  := by
  have hread := h.ofCode?_eq
  obtain ⟨opcode, hopcode, -⟩ := h.read
  rw [drop_eq_cons hopcode] at hread ⊢
  rw [sweepOnto.eq_def]
  simp only [hread, List.drop_drop, Decoded.size, Nat.add_assoc]

theorem sweepOnto_of_unreadable {offset : Nat}
    (hread : ofCode? offset (code.drop offset) = none) (h : Unreadable offset (code.drop offset))
    (done : List CodeItem) :
  sweepOnto done offset (code.drop offset) = (.malformed offset :: done).reverse
  := by
  rw [List.drop_eq_getElem_cons h.lt_length] at hread ⊢
  rw [sweepOnto.eq_def]
  simp only [hread]

/-- From `start` on, the sweep of some code finds instructions up to `stop`, one after another, each
of them read to its end within the code, and then `last`: nothing if the code ends there, and else
the mark of the first instruction that cannot be read. -/
structure Swept (code : List UInt8) (start stop : Nat) (items last : List CodeItem) : Prop where
  tile : Tile start items stop
  read : ∀ {offset d}, .instruction offset d ∈ items → d.ReadAt code offset
  stops : stop = code.length ∧ last = []
    ∨ Unreadable stop (code.drop stop) ∧ last = [.malformed stop]

theorem Swept.stop_le {last : List CodeItem} (h : Swept code start stop items last) :
  stop ≤ code.length
  := by
  obtain ⟨hstop, -⟩ | ⟨hunreadable, -⟩ := h.stops
  · exact Nat.le_of_eq hstop
  · exact Nat.le_of_lt hunreadable.lt_length

/-- One more instruction in front. -/
theorem Swept.cons {d : Decoded} {last : List CodeItem} (hd : d.ReadAt code start)
    (h : Swept code (start + d.size start) stop items last) :
  Swept code start stop (.instruction start d :: items) last
  := by
  refine ⟨⟨rfl, h.tile⟩, ?_, h.stops⟩
  intro offset d' hmem
  obtain heq | hmem := List.mem_cons.mp hmem
  · obtain ⟨rfl, rfl⟩ := CodeItem.instruction.inj heq
    exact hd
  · exact h.read hmem

/-- The sweep ends, from wherever it starts: every item leaves fewer bytes. -/
theorem exists_swept (h : start ≤ code.length) :
  ∃ stop items last, Swept code start stop items last
    ∧ ∀ done, sweepOnto done start (code.drop start) = done.reverse ++ (items ++ last)
  := by
  induction hleft : code.length - start using Nat.strong_induction_on generalizing start with
  | h left ih =>
      obtain hlt | rfl := Nat.lt_or_eq_of_le h
      · obtain ⟨d, hd⟩ | ⟨hnone, hunreadable⟩ := exists_readAt_or_unreadable hlt
        · have hwithin := hd.within
          have hsize : 0 < d.size start := by
            rw [Decoded.size]
            omega
          obtain ⟨stop, items, last, hswept, hsweep⟩ := ih _ (by omega) hwithin rfl
          refine ⟨stop, .instruction start d :: items, last, hswept.cons hd, ?_⟩
          intro done
          rw [sweepOnto_of_readAt hd, hsweep, List.reverse_cons, List.append_assoc]
          rfl
        · refine ⟨start, [], [.malformed start], ⟨rfl, ?_, .inr ⟨hunreadable, rfl⟩⟩, ?_⟩
          · intro offset d hmem
            contradiction
          · intro done
            rw [sweepOnto_of_unreadable hnone hunreadable, List.reverse_cons]
            rfl
      · refine ⟨code.length, [], [], ⟨rfl, ?_, .inl ⟨rfl, rfl⟩⟩, ?_⟩
        · intro offset d hmem
          contradiction
        · intro done
          rw [List.drop_length, sweepOnto.eq_def, List.append_nil, List.append_nil]

/-- Nothing in a tiling stands before its start. -/
theorem Tile.le_offset (h : Tile start items stop) {offset : Nat}
    (hoffset : offset ∈ items.map CodeItem.offset ++ [stop]) :
  start ≤ offset
  := by
  induction items generalizing start with
  | nil =>
      obtain rfl := List.mem_singleton.mp hoffset
      exact Nat.le_of_eq h
  | cons first items ih =>
      cases first with
      | malformed place => exact h.elim
      | instruction place d =>
          obtain ⟨rfl, htile⟩ := h
          obtain rfl | hoffset := List.mem_cons.mp hoffset
          · exact Nat.le_refl _
          · exact Nat.le_trans (Nat.le_add_right _ _) (ih htile hoffset)

/-- Instructions that stand one after another have offsets that increase, up to their end. -/
theorem Tile.pairwise_offset (h : Tile start items stop) :
  (items.map CodeItem.offset ++ [stop]).Pairwise (· < ·)
  := by
  induction items generalizing start with
  | nil => exact List.pairwise_singleton _ _
  | cons first items ih =>
      cases first with
      | malformed offset => exact h.elim
      | instruction offset d =>
          obtain ⟨rfl, htile⟩ := h
          rw [List.map_cons, List.cons_append, List.pairwise_cons]
          refine ⟨?_, ih htile⟩
          intro offset' hmem
          have hle := htile.le_offset hmem
          rw [Decoded.size] at hle
          change offset < offset'
          omega

/-- The offsets of what is swept increase. -/
theorem Swept.pairwise_offset {last : List CodeItem} (h : Swept code start stop items last) :
  ((items ++ last).map CodeItem.offset).Pairwise (· < ·)
  := by
  have hall := h.tile.pairwise_offset
  rw [List.map_append]
  obtain ⟨-, rfl⟩ | ⟨-, rfl⟩ := h.stops
  · apply List.Pairwise.sublist _ hall
    apply (List.append_sublist_append_left _).mpr (List.nil_sublist _)
  · exact hall

end CodeItem

/-! ### What is shown -/

/-- The index of the constant that is shown with operands. -/
def Operands.constant? : Operands → Option UInt16
  | .pool8 index => some index.toUInt16
  | .pool16 index | .dynamicCall index | .interfaceCall index _ | .arrays index _ => some index
  | _ => Option.none

/-- The line tells that no instruction can be read at an offset. -/
def ShowsMalformed (line : ListingLine) : Prop :=
  line.depth = 0 ∧ ∃ offset : Nat, line.text = toString offset ++ ": <malformed>"

/-- The lines of two lists are those of the first and then those of the second. -/
theorem joinLines_append_eq_some {α : Type} {lines? : α → Option (List ListingLine)}
    {as bs : List α} {lines : List ListingLine} (h : joinLines lines? (as ++ bs) = some lines) :
  ∃ first rest, joinLines lines? as = some first ∧ joinLines lines? bs = some rest
    ∧ lines = first ++ rest
  := by
  induction as generalizing lines with
  | nil => exact ⟨[], lines, rfl, h, rfl⟩
  | cons a as ih =>
      obtain ⟨own, others, hown, hothers, rfl⟩ := joinLines_cons_eq_some h
      obtain ⟨first, rest, hfirst, hrest, rfl⟩ := ih hothers
      refine ⟨own ++ first, rest, ?_, hrest, (List.append_assoc _ _ _).symm⟩
      obtain ⟨parts, hparts, hflat⟩ := Option.bind_eq_some_iff.mp hfirst
      obtain rfl := Option.some.inj hflat
      rw [joinLines, List.mapM_cons, hown, hparts]
      rfl

namespace ClassFile

variable {c : ClassFile} {code : List UInt8}

/-- The text of operands is given exactly if what they refer to comes to an end. -/
theorem isSome_text?_iff (operands : Operands) (offset : Nat) :
  (operands.text? c offset).isSome ↔ ∀ index ∈ operands.constant?, c.Ends index
  := by
  have hpool (index : UInt16) : (Operands.poolText? c index).isSome ↔ c.Ends index := by
    rw [← exists_summary?_iff, ← Option.isSome_iff_exists]
    cases h : c.summary? index <;> simp [Operands.poolText?, h]
  cases operands with
  | pool8 index | pool16 index | dynamicCall index =>
      simp [Operands.text?, Operands.constant?, hpool]
  | interfaceCall index count | arrays index count =>
      simp only [Operands.text?, Operands.constant?, Option.mem_some_iff, forall_eq', ← hpool]
      cases Operands.poolText? c index <;> rfl
  | _ => simp [Operands.text?, Operands.constant?]

theorem isSome_instructionLines?_iff {offset : Nat} {d : Decoded} :
  ((CodeItem.instruction offset d).lines? c).isSome ↔ ∀ index ∈ d.operands.constant?, c.Ends index
  := by
  rw [← isSome_text?_iff _ offset]
  cases h : d.operands.text? c offset <;> simp [CodeItem.lines?, h]

theorem isSome_codeLines?_iff :
  (c.codeLines? code).isSome ↔ ∀ item ∈ CodeItem.sweep code, (item.lines? c).isSome
  := by
  rw [← isSome_mapM_iff, codeLines?, joinLines]
  cases (CodeItem.sweep code).mapM (CodeItem.lines? c) <;> simp

end ClassFile

/-- No opcode has the name that is shown for what cannot be read. -/
theorem Opcode.mnemonic?_ne_malformed (opcode : UInt8) :
  mnemonic? opcode ≠ some "<malformed>"
  := by
  intro h
  have hmem : "<malformed>" ∈ mnemonics.toList := by
    rw [mnemonic?, ← Array.getElem?_toList] at h
    exact List.mem_of_getElem? h
  revert hmem
  decide

namespace CodeItem

variable {c : ClassFile} {code : List UInt8} {offset start stop : Nat} {d : Decoded}
  {items : List CodeItem} {lines : List ListingLine}

/-- A text behind an offset is the one that is shown for what cannot be read. -/
theorem eq_malformed_of_showsMalformed {text : String}
    (h : ShowsMalformed ⟨0, toString offset ++ ": " ++ text⟩) :
  text = "<malformed>"
  := by
  obtain ⟨-, offset', htext⟩ := h
  have hdigits : ':' ∉ (toString offset').toList := by
    intro hmem
    change _ ∈ (Nat.repr offset').toList at hmem
    rw [Nat.toList_repr] at hmem
    have hdigit := Nat.isDigit_of_mem_toDigits (by decide) (by decide) hmem
    contradiction
  have hchars : (toString offset').toList ++ ':' :: " <malformed>".toList
      = (toString offset).toList ++ ':' :: ' ' :: text.toList := by
    simpa [String.toList_append] using congrArg String.toList htext.symm
  obtain ⟨-, -, hrest⟩ := (List.append_cons_inj_of_notMem hdigits (by decide)).mp hchars
  apply String.toList_inj.mp
  exact (List.cons.inj hrest).2.symm

/-- The lines of an instruction do not tell that it cannot be read: there is a space between its
name and its operands. -/
theorem not_showsMalformed (hread : d.ReadAt code offset)
    (h : (CodeItem.instruction offset d).lines? c = some lines) :
  ∀ line ∈ lines, ¬ ShowsMalformed line
  := by
  obtain ⟨operands, -, h⟩ := Option.bind_eq_some_iff.mp h
  obtain rfl := Option.some.inj h
  obtain ⟨opcode, -, hname, -⟩ := hread.read
  intro line hline hmalformed
  obtain rfl | hline := List.mem_cons.mp hline
  · have htext := eq_malformed_of_showsMalformed hmalformed
    split_ifs at htext
    · rw [htext] at hname
      apply Opcode.mnemonic?_ne_malformed opcode hname
    · have hspace : ' ' ∈ (d.name ++ " " ++ operands).toList := by
        simp
      rw [htext] at hspace
      exact absurd hspace (by decide)
  · obtain ⟨text, -, rfl⟩ := List.mem_map.mp hline
    exact absurd hmalformed.1 Nat.one_ne_zero

/-- An instruction has no more lines than bytes. -/
theorem length_lines_le (h : (CodeItem.instruction offset d).lines? c = some lines) :
  lines.length ≤ d.size offset
  := by
  obtain ⟨operands, -, h⟩ := Option.bind_eq_some_iff.mp h
  obtain rfl := Option.some.inj h
  rw [List.length_cons, List.length_map, Decoded.size, Nat.add_comm]
  apply Nat.add_le_add_left
  cases d.operands with
  | table fallback low high distances =>
      simp only [Operands.cases, Operands.size, tableCases, List.length_append, List.length_mapIdx,
        List.length_singleton]
      omega
  | lookup fallback cases =>
      simp only [Operands.cases, Operands.size, List.length_append, List.length_map,
        List.length_singleton]
      omega
  | _ => exact Nat.zero_le _

/-- What is shown of instructions that stand one after another. -/
theorem Tile.shown (htile : Tile start items stop)
    (hread : ∀ {offset d}, .instruction offset d ∈ items → d.ReadAt code offset)
    (h : joinLines (CodeItem.lines? c) items = some lines) :
  (∀ line ∈ lines, ¬ ShowsMalformed line) ∧ start + lines.length ≤ stop
  := by
  induction items generalizing start lines with
  | nil =>
      obtain rfl := Option.some.inj h
      exact ⟨List.forall_mem_nil _, Nat.le_of_eq htile⟩
  | cons first items ih =>
      cases first with
      | malformed offset => exact htile.elim
      | instruction offset d =>
          obtain ⟨rfl, htile⟩ := htile
          obtain ⟨own, rest, hown, hrest, rfl⟩ := joinLines_cons_eq_some h
          obtain ⟨hothers, hle⟩ := ih htile (fun hmem => hread (List.mem_cons_of_mem _ hmem)) hrest
          have hown' := length_lines_le hown
          constructor
          · intro line hline
            obtain hline | hline := List.mem_append.mp hline
            · apply not_showsMalformed (hread List.mem_cons_self) hown line hline
            · apply hothers line hline
          · rw [List.length_append]
            omega

end CodeItem

/-- What a class file shows of code with the instructions, which ends at `stop` or cannot be read on
from there. -/
structure ClassFile.ShowsSwept (c : ClassFile) (code : List UInt8) (stop : Nat)
    (items : List CodeItem) : Prop where
  /-- There are lines exactly if the references from every constant that is shown end. -/
  exists_lines_iff : (∃ lines, c.codeLines? code = some lines)
    ↔ ∀ {offset d}, .instruction offset d ∈ items → ∀ index ∈ d.operands.constant?, c.Ends index
  /-- The lines show the offsets of the instructions in order. One more line, the last, tells of the
  instruction that cannot be read, and no other does. -/
  lines : ∀ {lines}, c.codeLines? code = some lines → ∃ shown,
    lines = shown ++ (if stop < code.length then [⟨0, toString stop ++ ": <malformed>"⟩] else [])
      ∧ List.Forall₂ StartsWithOffset (shown.filter (·.depth = 0)) (items.map CodeItem.offset)
      ∧ (∀ line ∈ shown, ¬ ShowsMalformed line) ∧ lines.length ≤ code.length

section

variable {code : List UInt8} {stop : Nat} {items last : List CodeItem} {c : ClassFile}

/-- The lines of a sweep are those of its instructions, and one more if it stopped before the end.
-/
theorem CodeItem.Swept.exists_shown (h : Swept code 0 stop items last) {lines : List ListingLine}
    (hlines : joinLines (CodeItem.lines? c) (items ++ last) = some lines) :
  ∃ shown, joinLines (CodeItem.lines? c) items = some shown
    ∧ lines = shown ++ (if stop < code.length then [⟨0, toString stop ++ ": <malformed>"⟩] else [])
  := by
  obtain ⟨shown, others, hshown, hothers, rfl⟩ := joinLines_append_eq_some hlines
  use shown, hshown
  obtain ⟨rfl, rfl⟩ | ⟨hunreadable, rfl⟩ := h.stops
  · obtain rfl := Option.some.inj hothers
    rw [if_neg (Nat.lt_irrefl _)]
    rfl
  · obtain rfl := Option.some.inj hothers
    rw [if_pos hunreadable.lt_length]
    rfl

/-- The listing shows what has been swept. -/
theorem CodeItem.Swept.showsSwept (h : Swept code 0 stop items last)
    (hsweep : sweep code = items ++ last) (c : ClassFile) :
  c.ShowsSwept code stop items
  := by
  constructor
  · rw [← Option.isSome_iff_exists, ClassFile.isSome_codeLines?_iff, hsweep]
    constructor
    · intro hshown offset d hmem
      apply ClassFile.isSome_instructionLines?_iff.mp
      apply hshown _ (List.mem_append_left _ hmem)
    · intro hends item hitem
      cases item with
      | malformed offset => rfl
      | instruction offset d =>
          apply ClassFile.isSome_instructionLines?_iff.mpr
          obtain hitem | hitem := List.mem_append.mp hitem
          · apply hends hitem
          · obtain ⟨-, rfl⟩ | ⟨-, rfl⟩ := h.stops
            · contradiction
            · cases List.mem_singleton.mp hitem
  · intro lines hlines
    rw [ClassFile.codeLines?, hsweep] at hlines
    obtain ⟨shown, hshown, rfl⟩ := h.exists_shown hlines
    obtain ⟨hnone, hle⟩ := h.tile.shown h.read hshown
    use shown, rfl, CodeItem.forall₂_startsWithOffset hshown, hnone
    have hstop := h.stop_le
    rw [List.length_append]
    split_ifs with hlt
    · rw [List.length_singleton]
      omega
    · rw [List.length_nil]
      omega

end

end ClassForge
