import ClassForge.Proofs.Pool.Numbering
import ClassForge.Proofs.Text.ModifiedUtf8

/-!
# Records that stand for entries

A class file that holds the records of a sound pool has at each index the record of the entry
with this index. Followed through what it refers to, the record tells the entry.
-/

namespace ClassForge

/-! ### What an index denotes -/

namespace ClassFile

variable (c : ClassFile)

/-- The record at the index tells a name and a descriptor. -/
def DenotesNameAndType (i : UInt16) (name descriptor : String) : Prop :=
  ∃ j k, c.constant? i = some (.nameAndType j k) ∧ c.text? j = some name
    ∧ c.text? k = some descriptor

/-- Two indices tell the class, the name and the descriptor of a member. -/
def DenotesMember (i j : UInt16) (m : MemberRef) : Prop :=
  c.className? i = some m.owner ∧ c.DenotesNameAndType j m.name m.descriptor

/-- The record at the index, followed through what it refers to, tells the entry. -/
def Denotes (i : UInt16) : PoolEntry → Prop
  | .utf8 text => c.text? i = some text
  | .integer value => c.constant? i = some (.integer value)
  | .float bits => c.constant? i = some (.float bits)
  | .long value => c.constant? i = some (.long value)
  | .double bits => c.constant? i = some (.double bits)
  | .string text => ∃ j, c.constant? i = some (.string j) ∧ c.text? j = some text
  | .classRef name => c.className? i = some name
  | .nameAndType name descriptor => c.DenotesNameAndType i name descriptor
  | .fieldRef m => ∃ j k, c.constant? i = some (.fieldRef j k) ∧ c.DenotesMember j k m
  | .methodRef m => ∃ j k, c.constant? i = some (.methodRef j k) ∧ c.DenotesMember j k m
  | .interfaceMethodRef m =>
    ∃ j k, c.constant? i = some (.interfaceMethodRef j k) ∧ c.DenotesMember j k m

variable {c} {i j : UInt16}

theorem text?_eq_some {length : UInt16} {text : String}
    (h : c.constant? i = some (.utf8 length (Text.ModifiedUtf8.encode text))) :
  c.text? i = some text
  := by
  simp only [text?, h, Text.ModifiedUtf8.text_encode]

theorem className?_eq_some {name : String} (h : c.constant? i = some (.classRef j))
    (hname : c.text? j = some name) :
  c.className? i = some name
  := by
  simp only [className?, h, hname]

end ClassFile

/-! ### The records of a pool -/

namespace FrozenPool

variable {pool : FrozenPool} {e : PoolEntry} {r : Record}

/-- A record takes as many indices as its entry. -/
theorem width_of_record (h : pool.record e = .ok r) :
  r.withFiller.length = e.width
  := by
  cases e with
  | utf8 text =>
      rw [record, Record.ofText] at h
      split at h
      · obtain rfl := Except.ok.inj h
        rfl
      · contradiction
  | integer _ | float _ | long _ | double _ =>
      obtain rfl := Except.ok.inj h
      rfl
  | string _ | classRef _ =>
      obtain ⟨_, -, h⟩ := Except.bind_eq_ok_iff.mp h
      obtain rfl := Except.ok.inj h
      rfl
  | nameAndType _ _ =>
      obtain ⟨_, -, h⟩ := Except.bind_eq_ok_iff.mp h
      obtain ⟨_, -, h⟩ := Except.bind_eq_ok_iff.mp h
      obtain rfl := Except.ok.inj h
      rfl
  | fieldRef _ | methodRef _ | interfaceMethodRef _ =>
      obtain ⟨_, -, h⟩ := Except.bind_eq_ok_iff.mp h
      obtain rfl := Except.ok.inj h
      rfl

/-- The record stands first in what an entry takes. -/
theorem withFiller_eq_cons (r : Record) :
  ∃ filler, r.withFiller = r :: filler
  := by
  rw [Record.withFiller]
  split
  · exact ⟨_, rfl⟩
  · exact ⟨_, rfl⟩

section

variable {entries : List (UInt16 × PoolEntry)} {records : List Record}

/-- The records take the places of their entries. -/
theorem length_records
    (h : List.Forall₂ (fun entry r => pool.record entry.2 = .ok r) entries records) :
  (records.flatMap Record.withFiller).length = ConstantPool.totalWidth (entries.map Prod.snd)
  := by
  induction h with
  | nil => rfl
  | cons hrecord _ ih =>
      rw [List.flatMap_cons, List.length_append, ih, width_of_record hrecord]
      rfl

/-- At the index of an entry stands its record. -/
theorem getElem?_records {n : Nat} (hnumbered : ConstantPool.NumberedFrom n entries)
    (h : List.Forall₂ (fun entry r => pool.record entry.2 = .ok r) entries records) {i : UInt16}
    (hmem : (i, e) ∈ entries) :
  ∃ r, pool.record e = .ok r ∧ (records.flatMap Record.withFiller)[i.toNat - n]? = some r
  := by
  induction h generalizing n with
  | nil => contradiction
  | @cons entry r entries records hrecord _ ih =>
      obtain ⟨i₀, e₀⟩ := entry
      obtain ⟨rfl, hrest⟩ := hnumbered
      rw [List.flatMap_cons]
      rcases List.mem_cons.mp hmem with heq | hmem
      · obtain ⟨rfl, rfl⟩ := Prod.mk.inj heq
        obtain ⟨filler, hfiller⟩ := withFiller_eq_cons r
        use r, hrecord
        rw [Nat.sub_self, hfiller]
        rfl
      · obtain ⟨r', hr', hplace⟩ := ih hrest hmem
        have hbounds := hrest.bounds hmem
        have hwidth := width_of_record hrecord
        dsimp only at hwidth
        use r', hr'
        rw [List.getElem?_append_right (by omega), hwidth, Nat.sub_sub, hplace]

end

end FrozenPool

/-! ### Class files with the records of a pool -/

/-- The class file holds the records of the pool. -/
structure ClassFile.Holds (c : ClassFile) (pool : ConstantPool) : Prop where
  sound : pool.Sound
  records : pool.freeze.records = .ok c.constPool.toList
  size : c.constPoolSize.toNat = pool.next

namespace ClassFile.Holds

variable {c : ClassFile} {pool : ConstantPool} {e : PoolEntry} {i : UInt16}

theorem exists_records (h : c.Holds pool) :
  ∃ records, List.Forall₂ (fun entry r => pool.freeze.record entry.2 = .ok r)
    pool.entries.toList records ∧ records.flatMap Record.withFiller = c.constPool.toList
  := by
  obtain ⟨records, hrecords, hall⟩ := Except.bind_eq_ok_iff.mp h.records
  use records, Except.mapM_eq_ok_iff.mp hrecords
  apply Except.ok.inj hall

/-- At the index of an entry stands its record. -/
theorem constant?_of_mem (h : c.Holds pool) (hmem : (i, e) ∈ pool.entries) :
  ∃ r, pool.freeze.record e = .ok r ∧ c.constant? i = some r
  := by
  obtain ⟨records, hrecords, hall⟩ := h.exists_records
  obtain ⟨r, hr, hplace⟩ := FrozenPool.getElem?_records h.sound.numbered hrecords
    (Array.mem_toList_iff.mpr hmem)
  have hne : i ≠ 0 := by
    rintro rfl
    have hbounds := h.sound.bounds hmem
    simp at hbounds
  use r, hr
  rw [constant?, if_neg hne, ← Array.getElem?_toList, ← hall, hplace]

/-- An index that has a record is below the size of the pool. -/
theorem lt_of_constant? {r : Record} (h : c.Holds pool) (hr : c.constant? i = some r) :
  i.toNat < c.constPoolSize.toNat
  := by
  obtain ⟨records, hrecords, hall⟩ := h.exists_records
  have hlength := FrozenPool.length_records hrecords
  have hnext := h.sound.next_eq
  rw [ConstantPool.stored] at hnext
  rw [constant?] at hr
  split at hr
  · contradiction
  · obtain ⟨hlt, -⟩ := Array.getElem?_eq_some_iff.mp hr
    rw [← Array.length_toList, ← hall, hlength] at hlt
    rw [h.size]
    omega

/-- The index of an entry denotes it, if everything that the entry refers to is denoted by its
index. -/
theorem denotes_of_children (h : c.Holds pool) (hindex : pool.freeze.indexOf e = .ok i)
    (hchildren : ∀ child ∈ e.children, ∀ j, pool.freeze.indexOf child = .ok j → c.Denotes j child) :
  c.Denotes i e
  := by
  have hmem := h.sound.index?_eq_some_iff.mp (ConstantPool.indexOf_freeze.mp hindex)
  obtain ⟨r, hrecord, hr⟩ := h.constant?_of_mem hmem
  have hmember {m : MemberRef} {indices : UInt16 × UInt16}
      (hparts : e.children = [.classRef m.owner, .nameAndType m.name m.descriptor])
      (hindices : pool.freeze.memberIndices m = .ok indices) :
      c.DenotesMember indices.1 indices.2 m := by
    obtain ⟨owner, howner, hindices⟩ := Except.bind_eq_ok_iff.mp hindices
    obtain ⟨member, hmember, hindices⟩ := Except.bind_eq_ok_iff.mp hindices
    obtain rfl := Except.ok.inj hindices
    rw [hparts] at hchildren
    exact ⟨hchildren _ List.mem_cons_self _ howner,
      hchildren _ (List.mem_cons_of_mem _ List.mem_cons_self) _ hmember⟩
  cases e with
  | utf8 text =>
      rw [FrozenPool.record, Record.ofText] at hrecord
      split at hrecord
      · obtain rfl := Except.ok.inj hrecord
        apply text?_eq_some hr
      · contradiction
  | integer _ | float _ | long _ | double _ =>
      obtain rfl := Except.ok.inj hrecord
      exact hr
  | string text =>
      obtain ⟨j, hj, hrecord⟩ := Except.bind_eq_ok_iff.mp hrecord
      obtain rfl := Except.ok.inj hrecord
      exact ⟨j, hr, hchildren _ List.mem_cons_self j hj⟩
  | classRef name =>
      obtain ⟨j, hj, hrecord⟩ := Except.bind_eq_ok_iff.mp hrecord
      obtain rfl := Except.ok.inj hrecord
      exact className?_eq_some hr (hchildren _ List.mem_cons_self j hj)
  | nameAndType name descriptor =>
      obtain ⟨j, hj, hrecord⟩ := Except.bind_eq_ok_iff.mp hrecord
      obtain ⟨k, hk, hrecord⟩ := Except.bind_eq_ok_iff.mp hrecord
      obtain rfl := Except.ok.inj hrecord
      exact ⟨j, k, hr, hchildren _ List.mem_cons_self j hj,
        hchildren _ (List.mem_cons_of_mem _ List.mem_cons_self) k hk⟩
  | fieldRef m | methodRef m | interfaceMethodRef m =>
      obtain ⟨⟨j, k⟩, hindices, hrecord⟩ := Except.bind_eq_ok_iff.mp hrecord
      obtain rfl := Except.ok.inj hrecord
      exact ⟨j, k, hr, hmember rfl hindices⟩

/-- The index of an entry denotes it, by induction on the index: what the entry refers to has a
smaller one. -/
theorem denotes (h : c.Holds pool) (hindex : pool.freeze.indexOf e = .ok i) :
  c.Denotes i e
  := by
  induction hn : i.toNat using Nat.strongRecOn generalizing i e with
  | ind n ih =>
      apply h.denotes_of_children hindex
      intro child hchild j hj
      have hmem := h.sound.index?_eq_some_iff.mp (ConstantPool.indexOf_freeze.mp hindex)
      obtain ⟨j', hj', hlt⟩ := h.sound.children hmem child hchild
      have hj' := ConstantPool.indexOf_freeze.mpr (h.sound.index?_eq_some_iff.mpr hj')
      obtain rfl := Except.ok.inj (hj.symm.trans hj')
      apply ih j.toNat _ hj rfl
      rw [← hn]
      apply UInt16.lt_iff_toNat_lt.mp hlt

end ClassFile.Holds

end ClassForge
