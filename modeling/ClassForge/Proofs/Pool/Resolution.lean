import ClassForge.Proofs.Pool.Capacity
import ClassForge.Proofs.Pool.Records

/-!
# Records followed back to entries

The records of a pool refer to each other by their indices. Followed through these, the record at
the index of an entry leads back to the entry, and every reference goes to a smaller index. The
records that stand for no entry fill the second index of a wide one. Only a text that is too long
keeps a pool from having records.
-/

namespace ClassForge

/-! ### Following references -/

namespace Record

/-- The indices that a record refers to. -/
def references : Record → List UInt16
  | .classRef i | .string i => [i]
  | .fieldRef i j | .methodRef i j | .interfaceMethodRef i j | .nameAndType i j => [i, j]
  | .utf8 .. | .integer _ | .float _ | .long _ | .double _ | .unusable => []

variable (records : List Record)

/-- The record at an index. Indices count from one. -/
def at? (index : UInt16) : Option Record :=
  if index = 0 then none else records[index.toNat - 1]?

/-- The text at an index. -/
def textAt? (index : UInt16) : Option String :=
  match at? records index with
  | some (.utf8 _ bytes) => some (Text.ModifiedUtf8.text bytes)
  | _ => none

/-- The name of the class at an index. -/
def classAt? (index : UInt16) : Option String :=
  match at? records index with
  | some (.classRef name) => textAt? records name
  | _ => none

/-- The name and the descriptor at an index. -/
def nameAndTypeAt? (index : UInt16) : Option (String × String) :=
  match at? records index with
  | some (.nameAndType name descriptor) => do
    return (← textAt? records name, ← textAt? records descriptor)
  | _ => none

/-- The member with its class at one index and its name and type at another. -/
def memberAt? (owner member : UInt16) : Option MemberRef := do
  let name ← classAt? records owner
  let nameAndType ← nameAndTypeAt? records member
  return ⟨name, nameAndType.1, nameAndType.2⟩

/-- The entry that a record stands for, its references being followed. -/
def entry? : Record → Option PoolEntry
  | .utf8 _ bytes => some (.utf8 (Text.ModifiedUtf8.text bytes))
  | .integer value => some (.integer value)
  | .float bits => some (.float bits)
  | .long value => some (.long value)
  | .double bits => some (.double bits)
  | .string text => .string <$> textAt? records text
  | .classRef name => .classRef <$> textAt? records name
  | .nameAndType name descriptor => do
    return .nameAndType (← textAt? records name) (← textAt? records descriptor)
  | .fieldRef owner member => .fieldRef <$> memberAt? records owner member
  | .methodRef owner member => .methodRef <$> memberAt? records owner member
  | .interfaceMethodRef owner member => .interfaceMethodRef <$> memberAt? records owner member
  | .unusable => none

variable {records}

theorem withFiller_cases (r : Record) :
  r.withFiller = [r] ∨ r.withFiller = [r, .unusable]
  := by
  rw [withFiller]
  split
  · exact .inr rfl
  · exact .inl rfl

theorem withFiller_of_length {r : Record} (h : r.withFiller.length = 2) :
  r.withFiller = [r, .unusable]
  := by
  rcases r.withFiller_cases with hnarrow | hwide
  · rw [hnarrow, List.length_singleton] at h
    contradiction
  · exact hwide

/-- What a record takes is itself and, if it is wide, an unusable record. -/
theorem getElem?_withFiller (r : Record) {k : Nat} {found : Record}
    (h : r.withFiller[k]? = some found) :
  k = 0 ∧ found = r ∨ k = 1 ∧ found = .unusable ∧ r.withFiller.length = 2
  := by
  rcases r.withFiller_cases with hnarrow | hwide
  · rw [hnarrow] at h
    match k, h with
    | 0, h => exact .inl ⟨rfl, (Option.some.inj h).symm⟩
  · rw [hwide] at h ⊢
    match k, h with
    | 0, h => exact .inl ⟨rfl, (Option.some.inj h).symm⟩
    | 1, h => exact .inr ⟨rfl, (Option.some.inj h).symm, rfl⟩

end Record

/-! ### The record of an entry -/

namespace FrozenPool

variable {pool : FrozenPool} {e : PoolEntry} {r : Record}

/-- The record of a text has its bytes. -/
theorem record_utf8_eq_ok {text : String} (h : pool.record (.utf8 text) = .ok r) :
  (Text.ModifiedUtf8.encode text).length ≤ 65535
    ∧ ∃ length, r = .utf8 length (Text.ModifiedUtf8.encode text)
  := by
  rw [record, Record.ofText] at h
  split at h
  · next hle =>
    exact ⟨hle, _, (Except.ok.inj h).symm⟩
  · contradiction

/-- Every other entry has a record once its children have indices. -/
theorem exists_record (h : ∀ child ∈ e.children, child ∈ pool.indices)
    (htext : ∀ text, e ≠ .utf8 text) :
  ∃ r, pool.record e = .ok r
  := by
  have hindex {child : PoolEntry} (hchild : child ∈ e.children) :
      ∃ i, pool.indexOf child = .ok i := exists_indexOf (h child hchild)
  have hmember {m : MemberRef} (howner : .classRef m.owner ∈ e.children)
      (hmember : .nameAndType m.name m.descriptor ∈ e.children) :
      ∃ indices, pool.memberIndices m = .ok indices := by
    obtain ⟨i, hi⟩ := hindex howner
    obtain ⟨j, hj⟩ := hindex hmember
    exact Except.exists_bind_eq_ok hi (Except.exists_bind_eq_ok hj ⟨_, rfl⟩)
  cases e with
  | utf8 text => exact absurd rfl (htext text)
  | integer _ | float _ | long _ | double _ => exact ⟨_, rfl⟩
  | string _ | classRef _ =>
      obtain ⟨i, hi⟩ := hindex List.mem_cons_self
      exact Except.exists_bind_eq_ok hi ⟨_, rfl⟩
  | nameAndType _ _ =>
      obtain ⟨i, hi⟩ := hindex List.mem_cons_self
      obtain ⟨j, hj⟩ := hindex (List.mem_cons_of_mem _ List.mem_cons_self)
      exact Except.exists_bind_eq_ok hi (Except.exists_bind_eq_ok hj ⟨_, rfl⟩)
  | fieldRef _ | methodRef _ | interfaceMethodRef _ =>
      obtain ⟨indices, hindices⟩ :=
        hmember List.mem_cons_self (List.mem_cons_of_mem _ List.mem_cons_self)
      exact Except.exists_bind_eq_ok hindices ⟨_, rfl⟩

/-- An entry whose children have indices has no record exactly if it is a text that is too
long. -/
theorem record_eq_error_iff (h : ∀ child ∈ e.children, child ∈ pool.indices) {err : PoolError} :
  pool.record e = .error err ↔ ∃ text, e = .utf8 text
    ∧ 65535 < (Text.ModifiedUtf8.encode text).length
    ∧ err = .utf8TooLong (Text.ModifiedUtf8.encode text).length
  := by
  by_cases htext : ∃ text, e = .utf8 text
  · obtain ⟨text, rfl⟩ := htext
    simp only [record, Record.ofText, PoolEntry.utf8.injEq, exists_eq_left']
    split
    · next hle => simp [Nat.not_lt.mpr hle]
    · next hlt => simp [Nat.lt_of_not_le hlt, eq_comm]
  · obtain ⟨r, hr⟩ := exists_record h (not_exists.mp htext)
    rw [hr]
    constructor
    · intro herror
      contradiction
    · rintro ⟨text, htext', -⟩
      exact absurd ⟨text, htext'⟩ htext

/-- A record refers to the indices of the children of its entry. -/
theorem exists_child_of_reference (h : pool.record e = .ok r) {j : UInt16}
    (hj : j ∈ r.references) :
  ∃ child ∈ e.children, pool.indexOf child = .ok j
  := by
  have hmember {m : MemberRef} {indices : UInt16 × UInt16}
      (hindices : pool.memberIndices m = .ok indices) (hj : j ∈ [indices.1, indices.2]) :
      ∃ child ∈ [.classRef m.owner, .nameAndType m.name m.descriptor],
        pool.indexOf child = .ok j := by
    obtain ⟨owner, howner, hindices⟩ := Except.bind_eq_ok_iff.mp hindices
    obtain ⟨member, hmember, hindices⟩ := Except.bind_eq_ok_iff.mp hindices
    obtain rfl := Except.ok.inj hindices
    obtain rfl | hj := List.mem_cons.mp hj
    · exact ⟨_, List.mem_cons_self, howner⟩
    · obtain rfl := List.mem_singleton.mp hj
      exact ⟨_, List.mem_cons_of_mem _ List.mem_cons_self, hmember⟩
  cases e with
  | utf8 text =>
      obtain ⟨-, length, rfl⟩ := record_utf8_eq_ok h
      contradiction
  | integer _ | float _ | long _ | double _ =>
      obtain rfl := Except.ok.inj h
      contradiction
  | string _ | classRef _ =>
      obtain ⟨i, hi, h⟩ := Except.bind_eq_ok_iff.mp h
      obtain rfl := Except.ok.inj h
      obtain rfl := List.mem_singleton.mp hj
      exact ⟨_, List.mem_cons_self, hi⟩
  | nameAndType _ _ =>
      obtain ⟨i, hi, h⟩ := Except.bind_eq_ok_iff.mp h
      obtain ⟨i', hi', h⟩ := Except.bind_eq_ok_iff.mp h
      obtain rfl := Except.ok.inj h
      obtain rfl | hj := List.mem_cons.mp hj
      · exact ⟨_, List.mem_cons_self, hi⟩
      · obtain rfl := List.mem_singleton.mp hj
        exact ⟨_, List.mem_cons_of_mem _ List.mem_cons_self, hi'⟩
  | fieldRef _ | methodRef _ | interfaceMethodRef _ =>
      obtain ⟨indices, hindices, h⟩ := Except.bind_eq_ok_iff.mp h
      obtain rfl := Except.ok.inj h
      exact hmember hindices hj

/-! ### Where records stand -/

section

variable {entries : List (UInt16 × PoolEntry)} {records : List Record}

/-- What an entry takes stands between what those before and those after it take. -/
theorem exists_append_records {n : Nat} (hnumbered : ConstantPool.NumberedFrom n entries)
    (h : List.Forall₂ (fun entry r => pool.record entry.2 = .ok r) entries records) {i : UInt16}
    (hmem : (i, e) ∈ entries) :
  ∃ r front back, pool.record e = .ok r ∧ n + front.length = i.toNat
    ∧ records.flatMap Record.withFiller = front ++ (r.withFiller ++ back)
  := by
  induction h generalizing n with
  | nil => contradiction
  | @cons entry r entries records hrecord _ ih =>
      obtain ⟨i₀, e₀⟩ := entry
      obtain ⟨rfl, hrest⟩ := hnumbered
      rcases List.mem_cons.mp hmem with heq | hmem
      · obtain ⟨rfl, rfl⟩ := Prod.mk.inj heq
        exact ⟨r, [], records.flatMap Record.withFiller, hrecord, rfl, rfl⟩
      · obtain ⟨r', front, back, hr', hfront, happend⟩ := ih hrest hmem
        refine ⟨r', r.withFiller ++ front, back, hr', ?_, ?_⟩
        · rw [List.length_append, width_of_record hrecord, ← Nat.add_assoc, hfront]
        · rw [List.flatMap_cons, happend, List.append_assoc]

/-- Wherever a record stands, it is that of the entry with this index or it fills the second index
of a wide entry. -/
theorem exists_entry_of_getElem? {n k : Nat} (hnumbered : ConstantPool.NumberedFrom n entries)
    (h : List.Forall₂ (fun entry r => pool.record entry.2 = .ok r) entries records)
    {found : Record} (hk : (records.flatMap Record.withFiller)[k]? = some found) :
  ∃ i e, (i, e) ∈ entries ∧ (pool.record e = .ok found ∧ i.toNat = n + k
    ∨ found = .unusable ∧ e.width = 2 ∧ i.toNat + 1 = n + k)
  := by
  induction h generalizing n k with
  | nil => contradiction
  | @cons entry r entries records hrecord _ ih =>
      obtain ⟨i₀, e₀⟩ := entry
      obtain ⟨rfl, hrest⟩ := hnumbered
      have hwidth := width_of_record hrecord
      rw [List.flatMap_cons] at hk
      by_cases hlt : k < r.withFiller.length
      · rw [List.getElem?_append_left hlt] at hk
        use i₀, e₀, List.mem_cons_self
        obtain ⟨rfl, rfl⟩ | ⟨rfl, rfl, htwo⟩ := r.getElem?_withFiller hk
        · exact .inl ⟨hrecord, rfl⟩
        · exact .inr ⟨rfl, hwidth.symm.trans htwo, rfl⟩
      · have hle := Nat.le_of_not_lt hlt
        rw [List.getElem?_append_right hle] at hk
        obtain ⟨i, e, hmem, hfound⟩ := ih hrest hk
        have hsum : i₀.toNat + e₀.width + (k - r.withFiller.length) = i₀.toNat + k := by
          rw [← hwidth, Nat.add_assoc, Nat.add_sub_cancel' hle]
        rw [hsum] at hfound
        exact ⟨i, e, List.mem_cons_of_mem _ hmem, hfound⟩

end

end FrozenPool

namespace ConstantPool

/-! ### Records that lead back to their entries -/

section

variable {pool : ConstantPool} {records : List Record} {i : UInt16}

/-- The records have at the index of each entry the record of the entry. -/
def Lists (pool : ConstantPool) (records : List Record) : Prop :=
  ∀ {e : PoolEntry} {i : UInt16}, pool.freeze.indexOf e = .ok i →
    ∃ r, pool.freeze.record e = .ok r ∧ Record.at? records i = some r

theorem Lists.textAt? (h : pool.Lists records) {text : String}
    (hi : pool.freeze.textIndex text = .ok i) :
  Record.textAt? records i = some text
  := by
  obtain ⟨r, hrecord, hr⟩ := h hi
  obtain ⟨-, length, rfl⟩ := FrozenPool.record_utf8_eq_ok hrecord
  simp only [Record.textAt?, hr, Text.ModifiedUtf8.text_encode]

/-- The name of a class is followed back to its text. -/
theorem Lists.classAt? (h : pool.Lists records) {name : String}
    (hi : pool.freeze.indexOf (.classRef name) = .ok i) :
  Record.classAt? records i = some name
  := by
  obtain ⟨r, hrecord, hr⟩ := h hi
  obtain ⟨j, hj, hrecord⟩ := Except.bind_eq_ok_iff.mp hrecord
  obtain rfl := Except.ok.inj hrecord
  simp only [Record.classAt?, hr, h.textAt? hj]

/-- The name and the descriptor at an index are followed back to their texts. -/
theorem Lists.nameAndTypeAt? (h : pool.Lists records) {name descriptor : String}
    (hi : pool.freeze.indexOf (.nameAndType name descriptor) = .ok i) :
  Record.nameAndTypeAt? records i = some (name, descriptor)
  := by
  obtain ⟨r, hrecord, hr⟩ := h hi
  obtain ⟨j, hj, hrecord⟩ := Except.bind_eq_ok_iff.mp hrecord
  obtain ⟨k, hk, hrecord⟩ := Except.bind_eq_ok_iff.mp hrecord
  obtain rfl := Except.ok.inj hrecord
  simp only [Record.nameAndTypeAt?, hr, h.textAt? hj, h.textAt? hk]
  rfl

/-- A member is followed back to its class, its name and its descriptor. -/
theorem Lists.memberAt? (h : pool.Lists records) {m : MemberRef} {indices : UInt16 × UInt16}
    (hindices : pool.freeze.memberIndices m = .ok indices) :
  Record.memberAt? records indices.1 indices.2 = some m
  := by
  obtain ⟨owner, howner, hindices⟩ := Except.bind_eq_ok_iff.mp hindices
  obtain ⟨member, hmember, hindices⟩ := Except.bind_eq_ok_iff.mp hindices
  obtain rfl := Except.ok.inj hindices
  rw [Record.memberAt?, h.classAt? howner, h.nameAndTypeAt? hmember]
  rfl

/-- The record of an entry stands for it. -/
theorem Lists.entry? (h : pool.Lists records) {e : PoolEntry} {r : Record}
    (hrecord : pool.freeze.record e = .ok r) :
  r.entry? records = some e
  := by
  cases e with
  | utf8 text =>
      obtain ⟨-, length, rfl⟩ := FrozenPool.record_utf8_eq_ok hrecord
      rw [Record.entry?, Text.ModifiedUtf8.text_encode]
  | integer _ | float _ | long _ | double _ =>
      obtain rfl := Except.ok.inj hrecord
      rfl
  | string _ | classRef _ =>
      obtain ⟨j, hj, hrecord⟩ := Except.bind_eq_ok_iff.mp hrecord
      obtain rfl := Except.ok.inj hrecord
      rw [Record.entry?, h.textAt? hj]
      rfl
  | nameAndType _ _ =>
      obtain ⟨j, hj, hrecord⟩ := Except.bind_eq_ok_iff.mp hrecord
      obtain ⟨k, hk, hrecord⟩ := Except.bind_eq_ok_iff.mp hrecord
      obtain rfl := Except.ok.inj hrecord
      rw [Record.entry?, h.textAt? hj, h.textAt? hk]
      rfl
  | fieldRef _ | methodRef _ | interfaceMethodRef _ =>
      obtain ⟨indices, hindices, hrecord⟩ := Except.bind_eq_ok_iff.mp hrecord
      obtain rfl := Except.ok.inj hrecord
      rw [Record.entry?, h.memberAt? hindices]
      rfl

end

/-! ### Pools and their records -/

/-- The records stand for the entries of the pool. A record at position `k` has the index
`k + 1`. -/
structure StoredAs (pool : ConstantPool) (records : List Record) : Prop where
  length : records.length = pool.freeze.count - 1
  resolves : ∀ {i e}, (i, e) ∈ pool.entries →
    (Record.at? records i).bind (Record.entry? records) = some e
  earlier : ∀ {k r}, records[k]? = some r → ∀ j ∈ r.references, j.toNat < k + 1
  unusable : ∀ {k}, records[k]? = some .unusable
    ↔ ∃ i e, (i, e) ∈ pool.entries ∧ e.width = 2 ∧ i.toNat + 1 = k + 1
  usable : ∀ {k r}, records[k]? = some r → r ≠ .unusable →
    ∃ i e, (i, e) ∈ pool.entries ∧ i.toNat = k + 1

variable {pool : ConstantPool} {records : List Record}

namespace Sound

theorem indexOf_of_mem (h : pool.Sound) {i : UInt16} {e : PoolEntry}
    (hmem : (i, e) ∈ pool.entries) :
  pool.freeze.indexOf e = .ok i
  := indexOf_freeze.mpr (h.index?_eq_some_iff.mpr hmem)

theorem ne_zero (h : pool.Sound) {i : UInt16} {e : PoolEntry} (hmem : (i, e) ∈ pool.entries) :
  i ≠ 0
  := by
  rintro rfl
  have hbounds := h.bounds hmem
  simp at hbounds

/-- Everything that a stored entry refers to has an index. -/
theorem child_mem (h : pool.Sound) {i : UInt16} {e child : PoolEntry}
    (hmem : (i, e) ∈ pool.entries) (hchild : child ∈ e.children) :
  child ∈ pool.freeze.indices
  := by
  obtain ⟨j, hj, -⟩ := h.children hmem child hchild
  exact h.mem_indices_iff.mpr ⟨j, hj⟩

/-- A record refers to smaller indices than that of its entry. -/
theorem lt_of_reference (h : pool.Sound) {i j : UInt16} {e : PoolEntry} {r : Record}
    (hmem : (i, e) ∈ pool.entries) (hrecord : pool.freeze.record e = .ok r)
    (hj : j ∈ r.references) :
  j < i
  := by
  obtain ⟨child, hchild, hindex⟩ := FrozenPool.exists_child_of_reference hrecord hj
  obtain ⟨j', hj', hlt⟩ := h.children hmem child hchild
  obtain rfl := Except.ok.inj (hindex.symm.trans (h.indexOf_of_mem hj'))
  exact hlt

/-- The records of a sound pool stand for its entries. -/
theorem storedAs (h : pool.Sound) (hrecords : pool.freeze.records = .ok records) :
  pool.StoredAs records
  := by
  obtain ⟨parts, hparts, hall⟩ := Except.bind_eq_ok_iff.mp hrecords
  obtain rfl := Except.ok.inj hall
  have hparts := Except.mapM_eq_ok_iff.mp hparts
  have hlists : pool.Lists (parts.flatMap Record.withFiller) := by
    intro e i hindex
    have hmem := h.index?_eq_some_iff.mp (indexOf_freeze.mp hindex)
    obtain ⟨r, hr, hplace⟩ := FrozenPool.getElem?_records h.numbered hparts
      (Array.mem_toList_iff.mpr hmem)
    use r, hr
    rw [Record.at?, if_neg (h.ne_zero hmem), hplace]
  have hentry {k : Nat} {found : Record}
      (hk : (parts.flatMap Record.withFiller)[k]? = some found) := by
    exact FrozenPool.exists_entry_of_getElem? h.numbered hparts hk
  constructor
  case length =>
    rw [FrozenPool.length_records hparts]
    change _ = pool.next - 1
    rw [h.next_eq, Nat.add_sub_cancel_left]
    rfl
  case resolves =>
    intro i e hmem
    obtain ⟨r, hrecord, hr⟩ := hlists (h.indexOf_of_mem hmem)
    rw [hr, Option.bind_some, hlists.entry? hrecord]
  case earlier =>
    intro k found hk j hj
    obtain ⟨i, e, hmem, ⟨hrecord, hi⟩ | ⟨rfl, -⟩⟩ := hentry hk
    · have hlt := UInt16.lt_iff_toNat_lt.mp
        (h.lt_of_reference (Array.mem_toList_iff.mp hmem) hrecord hj)
      rwa [hi, Nat.add_comm] at hlt
    · contradiction
  case unusable =>
    intro k
    constructor
    · intro hk
      obtain ⟨i, e, hmem, ⟨hrecord, -⟩ | ⟨-, hwidth, hi⟩⟩ := hentry hk
      · have hnone := hlists.entry? hrecord
        contradiction
      · exact ⟨i, e, Array.mem_toList_iff.mp hmem, hwidth, hi.trans (Nat.add_comm 1 k)⟩
    · rintro ⟨i, e, hmem, hwidth, hi⟩
      obtain ⟨r, front, back, hrecord, hfront, happend⟩ :=
        FrozenPool.exists_append_records h.numbered hparts (Array.mem_toList_iff.mpr hmem)
      have hwide := Record.withFiller_of_length ((FrozenPool.width_of_record hrecord).trans hwidth)
      obtain rfl : k = front.length + 1 := by omega
      rw [happend, hwide, List.getElem?_append_right (Nat.le_add_right _ 1),
        Nat.add_sub_cancel_left]
      rfl
  case usable =>
    intro k found hk hne
    obtain ⟨i, e, hmem, ⟨-, hi⟩ | ⟨rfl, -⟩⟩ := hentry hk
    · exact ⟨i, e, Array.mem_toList_iff.mp hmem, hi.trans (Nat.add_comm 1 k)⟩
    · contradiction

/-- The records of a sound pool fail only for a text that is too long. -/
theorem records_failsOnly (h : pool.Sound) :
  FailsOnly (fun err => ∃ i text, (i, .utf8 text) ∈ pool.entries
    ∧ 65535 < (Text.ModifiedUtf8.encode text).length
    ∧ err = .utf8TooLong (Text.ModifiedUtf8.encode text).length) pool.freeze.records
  := by
  apply FailsOnly.bind
  · apply FailsOnly.mapM
    rintro ⟨i, e⟩ hmem
    have hmem := Array.mem_toList_iff.mp hmem
    constructor
    intro err herr
    obtain ⟨text, rfl, hlong, rfl⟩ :=
      (FrozenPool.record_eq_error_iff fun _ => h.child_mem hmem).mp herr
    exact ⟨i, text, hmem, hlong, rfl⟩
  · intro records _
    apply FailsOnly.ok

/-- A text that is too long keeps the records of a pool from being made. -/
theorem records_ne_ok (h : pool.Sound) {i : UInt16} {text : String}
    (hmem : (i, .utf8 text) ∈ pool.entries)
    (hlong : 65535 < (Text.ModifiedUtf8.encode text).length) :
  pool.freeze.records ≠ .ok records
  := by
  intro hrecords
  obtain ⟨parts, hparts, -⟩ := Except.bind_eq_ok_iff.mp hrecords
  obtain ⟨r, hrecord, -⟩ := FrozenPool.getElem?_records h.numbered
    (Except.mapM_eq_ok_iff.mp hparts) (Array.mem_toList_iff.mpr hmem)
  obtain ⟨hle, -⟩ := FrozenPool.record_utf8_eq_ok hrecord
  exact Nat.not_lt.mpr hle hlong

end Sound

/-- However a pool came about, its records can be made unless one of its texts is too long, and
then they stand for its entries. If an entry is given an index, then the record that has this
index afterwards leads to the entry. -/
theorem serveAll_records (requests : List Request) :
  let pool := serveAll requests
  ((∃ err, pool.freeze.records = .error err)
      ↔ ∃ i text, (i, .utf8 text) ∈ pool.entries
        ∧ 65535 < (Text.ModifiedUtf8.encode text).length)
    ∧ (∀ err, pool.freeze.records = .error err →
        ∃ i text, (i, .utf8 text) ∈ pool.entries
          ∧ 65535 < (Text.ModifiedUtf8.encode text).length
          ∧ err = .utf8TooLong (Text.ModifiedUtf8.encode text).length)
    ∧ (∀ records, pool.freeze.records = .ok records → pool.StoredAs records)
    ∧ ∀ e i pool' records, intern e pool = .ok i pool' → pool'.freeze.records = .ok records →
      (Record.at? records i).bind (Record.entry? records) = some e
  := by
  intro pool
  have hsound := sound_serveAll requests
  refine ⟨⟨?_, ?_⟩, fun err => hsound.records_failsOnly.of_error, fun records => hsound.storedAs,
    ?_⟩
  · rintro ⟨err, herr⟩
    obtain ⟨i, text, hmem, hlong, -⟩ := hsound.records_failsOnly.of_error herr
    exact ⟨i, text, hmem, hlong⟩
  · rintro ⟨i, text, hmem, hlong⟩
    cases hrecords : pool.freeze.records with
    | error err => exact ⟨err, rfl⟩
    | ok records => exact absurd hrecords (hsound.records_ne_ok hmem hlong)
  · intro e i pool' records hintern hrecords
    have hsound' := hsound.of_intern hintern
    apply (hsound'.storedAs hrecords).resolves (hsound.mem_entries_of_intern hintern)

/-- The records of a long and a field reference: the third place is left unused, and the eighth
leads to the field. -/
theorem serveAll_records_ledger :
  ∃ records, (serveAll ledger).freeze.records = .ok records
    ∧ records.length = 8
    ∧ records[2]? = some .unusable
    ∧ (Record.at? records 8).bind (Record.entry? records)
      = some (.fieldRef ⟨"Ledger", "sum", "J"⟩)
  := by
  obtain ⟨hfails, -, hstored, -⟩ := serveAll_records ledger
  cases hrecords : (serveAll ledger).freeze.records with
  | error err =>
      obtain ⟨i, text, hmem, hlong⟩ := hfails.mp ⟨err, hrecords⟩
      rw [entries_ledger] at hmem
      obtain rfl | rfl | rfl : text = "sum" ∨ text = "Ledger" ∨ text = "J" := by
        simp only [List.mem_toArray, List.mem_cons, Prod.mk.injEq, PoolEntry.utf8.injEq,
          reduceCtorEq, and_false, List.not_mem_nil, or_false, false_or] at hmem
        rcases hmem with h | h | h <;> simp [h.2]
      all_goals exact absurd hlong (by decide)
  | ok records =>
      have hstored := hstored records hrecords
      have hlength := hstored.length
      rw [serveAll_ledger] at hlength
      refine ⟨records, rfl, hlength, hstored.unusable.mpr ⟨2, .long 7, ?_, rfl, rfl⟩,
        hstored.resolves ?_⟩
      all_goals simp [entries_ledger]

end ConstantPool

end ClassForge
