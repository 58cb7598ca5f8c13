import ClassForge.Compile
import ClassForge.Proofs.Build.Fidelity
import ClassForge.Proofs.Pool.Resolution
import ClassForge.Proofs.Reading.ClassFile

/-!
# Compiled classes are read back

A class file that was built is read back from its bytes, with nothing left, if no list of the class
is too long for the count that is stored for it. The counts are taken modulo 65536, and equal
entries of the pool are stored once, so that classes with longer lists are compiled as well. Of
these the class file is not read back, or the body of an attribute is not.
-/

namespace ClassForge

/-! ### Counts -/

/-- A list is as long as its count says exactly if it can be counted. -/
theorem length_eq_count_iff {α : Type} {as : List α} :
  as.length = (UInt16.ofNat as.length).toNat ↔ as.length ≤ 65535
  := by
  constructor
  · intro h
    have hlt := (UInt16.ofNat as.length).toNat_lt
    omega
  · intro hle
    exact (toNat_ofNat_of_le hle).symm

theorem Bytes.ofUInt16_injective {m n : UInt16} (h : ofUInt16 m = ofUInt16 n) :
  m = n
  := by
  obtain ⟨hhigh, hlow⟩ := List.cons.inj h
  obtain ⟨hlow, -⟩ := List.cons.inj hlow
  rw [← toUInt16_ofUInt16 m, ← toUInt16_ofUInt16 n, hhigh, hlow]

theorem length_flatMap_of_length {α : Type} {write : α → List UInt8} {width : Nat}
    (hwrite : ∀ a, (write a).length = width) (as : List α) :
  (as.flatMap write).length = width * as.length
  := by
  induction as with
  | nil => rfl
  | cons a as ih =>
      rw [List.flatMap_cons, List.length_append, hwrite, ih, List.length_cons, Nat.mul_succ,
        Nat.add_comm]

theorem Bytes.length_ofUInt16 (n : UInt16) :
  (ofUInt16 n).length = 2
  := rfl

theorem ExceptionEntry.length_toBytes (e : ExceptionEntry) :
  e.toBytes.length = 8
  := rfl

theorem InnerClassEntry.length_toBytes (e : InnerClassEntry) :
  e.toBytes.length = 8
  := rfl

/-- Two lists with counts before them have the same bytes only if their counts and their lengths
are the same. -/
theorem counted_bytes_inj {α : Type} {write : α → List UInt8} {width : Nat} (hpos : 0 < width)
    (hwrite : ∀ a, (write a).length = width) {count count' : UInt16} {as as' : List α}
    (h : Bytes.ofUInt16 count ++ as.flatMap write = Bytes.ofUInt16 count' ++ as'.flatMap write) :
  count = count' ∧ as.length = as'.length
  := by
  obtain ⟨hcount, hall⟩ := List.append_inj h rfl
  use Bytes.ofUInt16_injective hcount
  have hlength := congrArg List.length hall
  rw [length_flatMap_of_length hwrite, length_flatMap_of_length hwrite] at hlength
  exact Nat.eq_of_mul_eq_mul_left hpos hlength

/-- The bytes are those of a list, after the number of its elements. -/
def Counted {α : Type} (write : α → List UInt8) (bytes : List UInt8) : Prop :=
  ∃ (count : UInt16) (as : List α), as.length = count.toNat
    ∧ Bytes.ofUInt16 count ++ as.flatMap write = bytes

/-- A list that is written after its length is counted exactly if it is short enough. -/
theorem counted_iff {α : Type} {write : α → List UInt8} {width : Nat} (hpos : 0 < width)
    (hwrite : ∀ a, (write a).length = width) {as : List α} :
  Counted write (Bytes.ofUInt16 (UInt16.ofNat as.length) ++ as.flatMap write)
    ↔ as.length ≤ 65535
  := by
  constructor
  · rintro ⟨count, as', hstored, hbytes⟩
    obtain ⟨rfl, hlength⟩ := counted_bytes_inj hpos hwrite hbytes
    exact length_eq_count_iff.mp (hlength.symm.trans hstored)
  · intro hle
    exact ⟨_, as, length_eq_count_iff.mpr hle, rfl⟩

theorem ExceptionsBody.exists_fromBytes_iff {bytes : List UInt8} :
  (∃ b, fromBytes bytes = .ok b) ↔ Counted Bytes.ofUInt16 bytes
  := by
  simp only [fromBytes_eq_ok_iff]
  exact ⟨fun ⟨b, hb⟩ => ⟨b.count, b.classes, hb⟩, fun ⟨count, as, h⟩ => ⟨⟨count, as⟩, h⟩⟩

theorem InnerClassesBody.exists_fromBytes_iff {bytes : List UInt8} :
  (∃ b, fromBytes bytes = .ok b) ↔ Counted InnerClassEntry.toBytes bytes
  := by
  simp only [fromBytes_eq_ok_iff]
  exact ⟨fun ⟨b, hb⟩ => ⟨b.count, b.classes, hb⟩, fun ⟨count, as, h⟩ => ⟨⟨count, as⟩, h⟩⟩

/-- The body of assembled code is not too long for an attribute. -/
theorem AssembledCode.length_body_lt {code : MethodCode} {pool : FrozenPool} {out : AssembledCode}
    (hmade : SwitchesMade code.instructions) (hcount : code.handlers.length ≤ 65535)
    (h : (code.assemble pool).outcome = .ok out) :
  out.body.toBytes.length < 4294967296
  := by
  obtain ⟨layout, hlayout, hbytes, -, -⟩ := MethodCode.assemble_eq_ok h
  have hcovers := Layout.covers_of hlayout
  obtain ⟨hsize, -⟩ := hcovers.slice hmade hbytes
  have hcode := hcovers.size_le
  have htable : out.table.length = out.body.tableLength.toNat :=
    (AssembledCode.stored_body hmade hcount h).table
  have hlt := out.body.tableLength.toNat_lt
  have hentries := length_flatMap_of_length ExceptionEntry.length_toBytes out.table
  have hlength : out.body.toBytes.length
      = 8 + out.code.length + 2 + (out.table.flatMap ExceptionEntry.toBytes).length + 2 := by
    simp only [CodeBody.toBytes, AssembledCode.body, List.length_append, List.flatMap_nil]
    rfl
  omega

/-! ### Attributes -/

/-- What the body of an attribute with the name has to be read as, is read from the bytes. -/
structure BodyRead (name : String) (info : List UInt8) : Prop where
  code : name = "Code" → ∃ b, CodeBody.fromBytes info = .ok b
  exceptions : name = "Exceptions" → ∃ b, ExceptionsBody.fromBytes info = .ok b
  innerClasses : name = "InnerClasses" → ∃ b, InnerClassesBody.fromBytes info = .ok b

theorem bodyRead_exceptions {bytes : List UInt8} (h : Counted Bytes.ofUInt16 bytes) :
  BodyRead "Exceptions" bytes
  := by
  constructor
  case exceptions => exact fun _ => ExceptionsBody.exists_fromBytes_iff.mpr h
  all_goals simp

theorem bodyRead_innerClasses {bytes : List UInt8} (h : Counted InnerClassEntry.toBytes bytes) :
  BodyRead "InnerClasses" bytes
  := by
  constructor
  case innerClasses => exact fun _ => InnerClassesBody.exists_fromBytes_iff.mpr h
  all_goals simp

/-- The attributes of the class and of its members. -/
def ClassFile.allAttributes (file : ClassFile) : List Attribute :=
  file.fields.flatMap MemberInfo.attributes ++ file.methods.flatMap MemberInfo.attributes
    ++ file.attributes

/-- The bodies with code, thrown classes and nested classes are read back. -/
def ClassFile.BodiesRead (file : ClassFile) : Prop :=
  ∀ a ∈ file.allAttributes, ∀ name, file.text? a.name = some name → BodyRead name a.info

/-- The attribute was made of a body that is read back and not too long. -/
def FrozenPool.Writes (pool : FrozenPool) (a : Attribute) : Prop :=
  ∃ name info, pool.attributeOf name info = .ok a ∧ info.length < 4294967296 ∧ BodyRead name info

theorem FrozenPool.Writes.stored {pool : FrozenPool} {a : Attribute} (h : pool.Writes a) :
  a.Stored
  := by
  obtain ⟨name, info, ha, hlt, -⟩ := h
  obtain ⟨i, -, ha⟩ := Except.bind_eq_ok_iff.mp ha
  obtain rfl := Except.ok.inj ha
  exact (UInt32.toNat_ofNat_of_lt hlt).symm

theorem FrozenPool.Writes.bodyRead {file : ClassFile} {pool : ConstantPool} {a : Attribute}
    (h : pool.freeze.Writes a) (hholds : file.Holds pool) {name : String}
    (hname : file.text? a.name = some name) :
  BodyRead name a.info
  := by
  obtain ⟨name', info, ha, -, hread⟩ := h
  obtain ⟨hname', rfl⟩ := hholds.attributeOf_eq_ok ha
  rwa [← Option.some.inj (hname'.symm.trans hname)]

/-- An attribute with an index is written, if its body is none of those that are read back. -/
theorem FrozenPool.writes_of_index {pool : FrozenPool} {name : String} {e : PoolEntry}
    {a : Attribute} (hname : name ∉ ["Code", "Exceptions", "InnerClasses"])
    (ha : pool.indexAttribute name e = .ok a) :
  pool.Writes a
  := by
  obtain ⟨i, -, ha⟩ := Except.bind_eq_ok_iff.mp ha
  refine ⟨name, _, ha, Nat.lt_of_le_of_lt (Nat.le_refl 2) (by decide), ?_⟩
  constructor
  all_goals
    rintro rfl
    simp at hname

/-- There are `n` attributes at most, made of bodies that are read back. -/
def FrozenPool.WritesUpTo (pool : FrozenPool) (n : Nat) (as : List Attribute) : Prop :=
  as.length ≤ n ∧ ∀ a ∈ as, pool.Writes a

namespace FrozenPool

variable {pool : FrozenPool}

theorem writesUpTo_nil :
  pool.WritesUpTo 1 []
  := ⟨Nat.zero_le 1, List.forall_mem_nil _⟩

theorem Writes.one {a : Attribute} (h : pool.Writes a) :
  pool.WritesUpTo 1 [a]
  := ⟨Nat.le_refl 1, List.forall_mem_singleton.mpr h⟩

theorem WritesUpTo.append {n n' : Nat} {as as' : List Attribute} (h : pool.WritesUpTo n as)
    (h' : pool.WritesUpTo n' as') :
  pool.WritesUpTo (n + n') (as ++ as')
  := by
  constructor
  · rw [List.length_append]
    exact Nat.add_le_add h.1 h'.1
  · exact List.forall_mem_append.mpr ⟨h.2, h'.2⟩

/-- The attribute for a signature is written. -/
theorem writesUpTo_signature {signature : Option String} {as : List Attribute}
    (h : pool.signatureAttribute signature = .ok as) :
  pool.WritesUpTo 1 as
  := by
  cases signature with
  | none =>
      obtain rfl := Except.ok.inj h
      exact writesUpTo_nil
  | some text =>
      obtain ⟨a, ha, h⟩ := Except.bind_eq_ok_iff.mp h
      obtain rfl := Except.ok.inj h
      exact (writes_of_index (by decide) ha).one

/-- The attribute for the source file is written. -/
theorem writesUpTo_source {p : ClassPlan} {as : List Attribute}
    (h : p.sourceAttribute pool = .ok as) :
  pool.WritesUpTo 1 as
  := by
  unfold ClassPlan.sourceAttribute at h
  split at h
  · obtain rfl := Except.ok.inj h
    exact writesUpTo_nil
  · obtain ⟨a, ha, h⟩ := Except.bind_eq_ok_iff.mp h
    obtain rfl := Except.ok.inj h
    exact (writes_of_index (by decide) ha).one

theorem writesUpTo_constant {e? : Option PoolEntry} {as : List Attribute}
    (h : e? = none ∧ as = [] ∨ ∃ e a, e? = some e ∧ pool.indexAttribute "ConstantValue" e = .ok a
      ∧ as = [a]) :
  pool.WritesUpTo 1 as
  := by
  obtain ⟨-, rfl⟩ | ⟨e, a, -, ha, rfl⟩ := h
  · exact writesUpTo_nil
  · exact (writes_of_index (by decide) ha).one

/-- The attribute for code is written, if its handlers can be counted and its switches are moderate.
-/
theorem writesUpTo_code {p : MethodPlan} {as : List Attribute}
    (hmade : ∀ code ∈ p.code, SwitchesMade code.instructions)
    (hcount : ∀ code ∈ p.code, code.handlers.length ≤ 65535)
    (h : (p.codeAttribute pool).outcome = .ok as) :
  pool.WritesUpTo 1 as
  := by
  unfold MethodPlan.codeAttribute at h
  split at h
  · obtain rfl := Except.ok.inj h
    exact writesUpTo_nil
  · next code hcode =>
    rw [Traced.outcome_bind] at h
    obtain ⟨out, hout, h⟩ := Except.bind_eq_ok_iff.mp h
    rw [Traced.outcome_bind] at h
    obtain ⟨a, ha, h⟩ := Except.bind_eq_ok_iff.mp h
    obtain rfl := Except.ok.inj h
    have hmade := hmade code hcode
    have hcount := hcount code hcode
    have hwrites : pool.Writes a := by
      refine ⟨"Code", _, ha, AssembledCode.length_body_lt hmade hcount hout, ?_⟩
      constructor
      case code =>
        intro _
        use out.body
        exact CodeBody.fromBytes_eq_ok_iff.mpr ⟨AssembledCode.stored_body hmade hcount hout, rfl⟩
      all_goals simp
    exact hwrites.one

/-- The attributes that store `n` elements: none if there are no elements, and otherwise one that
has the elements after their number. -/
def StoresList {α : Type} (pool : FrozenPool) (name : String) (write : α → List UInt8) (n : Nat)
    (as : List Attribute) : Prop :=
  n = 0 ∧ as = [] ∨ ∃ (elements : List α) (a : Attribute), elements.length = n
    ∧ pool.attributeOf name
      (Bytes.ofUInt16 (UInt16.ofNat elements.length) ++ elements.flatMap write) = .ok a
    ∧ as = [a]

/-- An attribute that is made element by element stores the elements. -/
theorem storesList_of_ok {α β : Type} {xs : List β} {store : β → Except CompileError α}
    {name : String} {write : α → List UInt8} {as : List Attribute}
    (h : (do
      if xs.isEmpty then
        return []
      else
        let elements ← xs.mapM store
        return [← pool.attributeOf name
          (Bytes.ofUInt16 (UInt16.ofNat elements.length) ++ elements.flatMap write)]) = .ok as) :
  pool.StoresList name write xs.length as
  := by
  split at h
  · next hempty =>
    left
    exact ⟨List.isEmpty_iff_length_eq_zero.mp hempty, (Except.ok.inj h).symm⟩
  · right
    obtain ⟨elements, helements, h⟩ := Except.bind_eq_ok_iff.mp h
    obtain ⟨a, ha, h⟩ := Except.bind_eq_ok_iff.mp h
    use elements, a, (Except.mapM_eq_ok_iff.mp helements).length_eq.symm, ha
    exact (Except.ok.inj h).symm

/-- A method that declares to throw has an attribute with the classes. -/
theorem storesList_exceptions {p : MethodPlan} {as : List Attribute}
    (h : p.exceptionsAttribute pool = .ok as) :
  pool.StoresList "Exceptions" Bytes.ofUInt16 p.method.exceptions.length as
  := storesList_of_ok h

/-- A class with nested classes has an attribute with them. -/
theorem storesList_inner {p : ClassPlan} {as : List Attribute}
    (h : p.innerAttribute pool = .ok as) :
  pool.StoresList "InnerClasses" InnerClassEntry.toBytes p.model.innerClasses.length as
  := storesList_of_ok h

section

variable {α : Type} {name : String} {write : α → List UInt8} {width n : Nat} {as : List Attribute}

/-- Elements that can be counted are read back if lists with their number are. -/
theorem StoresList.writesUpTo (h : pool.StoresList name write n as) (hpos : 0 < width)
    (hwidth : width ≤ 8) (hwrite : ∀ a, (write a).length = width)
    (hread : ∀ bytes, Counted write bytes → BodyRead name bytes) (hcount : n ≤ 65535) :
  pool.WritesUpTo 1 as
  := by
  obtain ⟨-, rfl⟩ | ⟨elements, a, rfl, ha, rfl⟩ := h
  · exact writesUpTo_nil
  · have hlength := length_flatMap_of_length hwrite elements
    have hle := Nat.mul_le_mul hwidth hcount
    have hwrites : pool.Writes a := by
      refine ⟨name, _, ha, ?_, hread _ ((counted_iff hpos hwrite).mpr hcount)⟩
      rw [List.length_append, Bytes.length_ofUInt16, hlength]
      omega
    exact hwrites.one

/-- Elements whose attribute is read as a list with its number can be counted. -/
theorem StoresList.length_le (h : pool.StoresList name write n as) (hpos : 0 < width)
    (hwrite : ∀ a, (write a).length = width)
    (hcounted : ∀ a ∈ as, ∀ info, pool.attributeOf name info = .ok a → Counted write info) :
  n ≤ 65535
  := by
  obtain ⟨rfl, -⟩ | ⟨elements, a, rfl, ha, rfl⟩ := h
  · exact Nat.zero_le _
  · exact (counted_iff hpos hwrite).mp (hcounted a (List.mem_singleton_self a) _ ha)

end

end FrozenPool

/-! ### Members -/

/-- A method is stored with attributes for its code, what it throws and its signature. -/
theorem MethodPlan.info_eq_ok {p : MethodPlan} {pool : FrozenPool} {m : MemberInfo}
    (h : (p.info pool).outcome = .ok m) :
  ∃ code exceptions signature, (p.codeAttribute pool).outcome = .ok code
    ∧ p.exceptionsAttribute pool = .ok exceptions
    ∧ pool.signatureAttribute p.signature = .ok signature
    ∧ pool.member p.method.flags p.method.name p.descriptor (code ++ exceptions ++ signature)
      = .ok m
  := by
  have h := Except.mapError_eq_ok_iff.mp h
  rw [MethodPlan.infoWithin, Traced.outcome_bind] at h
  obtain ⟨code, hcode, h⟩ := Except.bind_eq_ok_iff.mp h
  rw [Traced.outcome_bind] at h
  obtain ⟨exceptions, hexceptions, h⟩ := Except.bind_eq_ok_iff.mp h
  rw [Traced.outcome_bind] at h
  obtain ⟨signature, hsignature, h⟩ := Except.bind_eq_ok_iff.mp h
  exact ⟨code, exceptions, signature, hcode, hexceptions, hsignature, h⟩

theorem FrozenPool.attributes_of_member {pool : FrozenPool} {flags : UInt16}
    {name descriptor : String} {attributes : List Attribute} {m : MemberInfo}
    (h : pool.member flags name descriptor attributes = .ok m) :
  m.attributes = attributes ∧ m.attributesCount = UInt16.ofNat attributes.length
  := by
  obtain ⟨i, -, h⟩ := Except.bind_eq_ok_iff.mp h
  obtain ⟨j, -, h⟩ := Except.bind_eq_ok_iff.mp h
  obtain rfl := Except.ok.inj h
  exact ⟨rfl, rfl⟩

/-- A member with a few attributes that are written can be read back. -/
theorem FrozenPool.WritesUpTo.stored {pool : FrozenPool} {flags : UInt16}
    {name descriptor : String} {n : Nat} {as : List Attribute} {m : MemberInfo}
    (h : pool.WritesUpTo n as) (hn : n ≤ 65535)
    (hm : pool.member flags name descriptor as = .ok m) :
  m.Stored ∧ ∀ a ∈ m.attributes, pool.Writes a
  := by
  obtain ⟨rfl, hcount⟩ := attributes_of_member hm
  refine ⟨⟨?_, fun a ha => (h.2 a ha).stored⟩, h.2⟩
  rw [hcount]
  exact length_eq_count_iff.mpr (Nat.le_trans h.1 hn)

theorem FieldPlan.stored_info {p : FieldPlan} {pool : FrozenPool} {m : MemberInfo}
    (h : p.info pool = .ok m) :
  m.Stored ∧ ∀ a ∈ m.attributes, pool.Writes a
  := by
  obtain ⟨constant, signature, hconstant, hsignature, hm⟩ := FieldPlan.info_eq_ok h
  exact ((FrozenPool.writesUpTo_constant hconstant).append
    (FrozenPool.writesUpTo_signature hsignature)).stored (by decide) hm

/-- A method with countable lists is stored so that it is read back. -/
theorem MethodPlan.stored_info {p : MethodPlan} {pool : FrozenPool} {m : MemberInfo}
    (hmade : ∀ code ∈ p.code, SwitchesMade code.instructions)
    (hcode : ∀ code ∈ p.code, code.handlers.length ≤ 65535)
    (hexceptions : p.method.exceptions.length ≤ 65535) (h : (p.info pool).outcome = .ok m) :
  m.Stored ∧ ∀ a ∈ m.attributes, pool.Writes a
  := by
  obtain ⟨code, exceptions, signature, hcoded, hthrown, hsigned, hm⟩ := MethodPlan.info_eq_ok h
  have hlisted := (FrozenPool.storesList_exceptions hthrown).writesUpTo (by decide) (by decide)
    Bytes.length_ofUInt16 (fun _ => bodyRead_exceptions) hexceptions
  exact (((FrozenPool.writesUpTo_code hmade hcode hcoded).append hlisted).append
    (FrozenPool.writesUpTo_signature hsigned)).stored (by decide) hm

/-! ### Class files -/

/-- The records of a pool are read back. -/
theorem FrozenPool.stored_of_record {pool : FrozenPool} {e : PoolEntry} {r : Record}
    (h : pool.record e = .ok r) :
  r.Stored
  := by
  cases e with
  | utf8 text =>
      rw [record, Record.ofText] at h
      split at h
      · next hle =>
        obtain rfl := Except.ok.inj h
        exact (toNat_ofNat_of_le hle).symm
      · contradiction
  | integer _ | float _ | long _ | double _ =>
      obtain rfl := Except.ok.inj h
      trivial
  | string _ | classRef _ =>
      obtain ⟨_, -, h⟩ := Except.bind_eq_ok_iff.mp h
      obtain rfl := Except.ok.inj h
      trivial
  | nameAndType _ _ =>
      obtain ⟨_, -, h⟩ := Except.bind_eq_ok_iff.mp h
      obtain ⟨_, -, h⟩ := Except.bind_eq_ok_iff.mp h
      obtain rfl := Except.ok.inj h
      trivial
  | fieldRef _ | methodRef _ | interfaceMethodRef _ =>
      obtain ⟨_, -, h⟩ := Except.bind_eq_ok_iff.mp h
      obtain rfl := Except.ok.inj h
      trivial

/-- The records of a class file that holds a pool can be read back. -/
theorem ClassFile.Holds.storedIn {file : ClassFile} {pool : ConstantPool} (h : file.Holds pool) :
  Record.StoredIn (file.constPoolSize.toNat - 1) file.constPool.toList
  := by
  obtain ⟨records, hrecords, hall⟩ := h.exists_records
  refine ⟨records, ?_, .inl ?_, hall⟩
  · intro r hr
    obtain ⟨entry, -, hrecord⟩ := hrecords.exists_of_mem_right hr
    exact FrozenPool.stored_of_record hrecord
  · rw [FrozenPool.length_records hrecords, h.size, h.sound.next_eq, Nat.add_sub_cancel_left]
    rfl

/-- A class is built by way of its plan and its pool. -/
theorem ClassModel.exists_plan_of_build {c : ClassModel} {version : ClassVersion}
    {optimizer : Optimizer} {file : ClassFile}
    (h : (c.build version optimizer).outcome = .ok file) :
  ∃ p pool, (c.plan optimizer).outcome = .ok p ∧ p.pool.outcome = .ok pool
    ∧ (p.classFile version pool).outcome = .ok file
  := by
  have h := Except.mapError_eq_ok_iff.mp h
  rw [Traced.outcome_bind] at h
  obtain ⟨p, hplan, h⟩ := Except.bind_eq_ok_iff.mp h
  rw [Traced.outcome_bind] at h
  obtain ⟨pool, hpool, h⟩ := Except.bind_eq_ok_iff.mp h
  use p, pool

/-- A class file that is built holds the records of a pool, and its parts are made for a plan of
the class. -/
theorem ClassModel.build_eq_ok {c : ClassModel} {version : ClassVersion} {optimizer : Optimizer}
    {file : ClassFile} (h : (c.build version optimizer).outcome = .ok file) :
  ∃ p pool, (c.plan optimizer).outcome = .ok p ∧ file.Holds pool
    ∧ p.MadeInto version pool.freeze file
  := by
  obtain ⟨p, frozen, hplan, hpool, h⟩ := exists_plan_of_build h
  obtain ⟨pool, hsound, rfl⟩ := ClassPlan.exists_sound_of_pool hpool
  have hmade := ClassPlan.madeInto_of_ok h
  refine ⟨p, pool, hplan, ⟨hsound, hmade.constPool, ?_⟩, hmade⟩
  rw [hmade.constPoolSize]
  exact toNat_ofNat_of_le hsound.next_le

section

variable {c : ClassModel} {version : ClassVersion} {optimizer : Optimizer} {file : ClassFile}
  {p : ClassPlan} {pool : ConstantPool} (hplan : (c.plan optimizer).outcome = .ok p)
  (hmade : p.MadeInto version pool.freeze file)

include hplan hmade

/-- The class file has an interface, a field and a method for each that the class has. -/
theorem ClassPlan.MadeInto.lengths :
  file.interfaces.length = c.interfaces.length ∧ file.fields.length = c.fields.length
    ∧ file.methods.length = c.methods.length
  := by
  obtain ⟨hfields, hmethods, rfl, -⟩ := ClassModel.plan_eq_ok hplan
  have hlength := (Except.mapM_eq_ok_iff.mp hfields).length_eq
  have hlength' := (Except.mapM_eq_ok_iff.mp hmethods).length_eq
  refine ⟨(Except.mapM_eq_ok_iff.mp hmade.interfaces).length_eq.symm, ?_, ?_⟩
  · rw [hlength, (Except.mapM_eq_ok_iff.mp hmade.fields).length_eq]
  · rw [hlength', (Except.mapM_eq_ok_iff.mp hmade.methods).length_eq]

/-- A class file that is read back has counted its interfaces, fields and methods. -/
theorem ClassPlan.MadeInto.lengths_le_of_stored (hstored : file.Stored) :
  c.interfaces.length ≤ 65535 ∧ c.fields.length ≤ 65535 ∧ c.methods.length ≤ 65535
  := by
  obtain ⟨hinterfaces, hfields, hmethods⟩ := hmade.lengths hplan
  have hcounted := hstored.interfacesCount
  have hcounted' := hstored.fieldsCount
  have hcounted'' := hstored.methodsCount
  rw [hmade.interfacesCount] at hcounted
  rw [hmade.fieldsCount] at hcounted'
  rw [hmade.methodsCount] at hcounted''
  rw [← hinterfaces, ← hfields, ← hmethods]
  exact ⟨length_eq_count_iff.mp hcounted, length_eq_count_iff.mp hcounted',
    length_eq_count_iff.mp hcounted''⟩

/-- The methods of the class file are those of the class, made by way of their plans. -/
theorem ClassPlan.MadeInto.methods_of_plan :
  List.Forall₂ (fun method m => ∃ methodPlan : MethodPlan,
    (method.plan c.type.toTy optimizer).outcome = .ok methodPlan
      ∧ (methodPlan.info pool.freeze).outcome = .ok m) c.methods file.methods
  := by
  obtain ⟨-, hmethods, -, -⟩ := ClassModel.plan_eq_ok hplan
  apply (Except.mapM_eq_ok_iff.mp hmethods).comp_of_mem (Except.mapM_eq_ok_iff.mp hmade.methods)
  intro method _ methodPlan m hp hm
  exact ⟨methodPlan, hp, hm⟩

/-- Every part of a class file is read back, if the lists of the class can be counted. -/
theorem ClassPlan.MadeInto.stored (hholds : file.Holds pool) (hcountable : c.Countable)
    (hhandlers : optimizer.AddsNoHandlers) (hswitches : optimizer.KeepsSwitchesMade) :
  file.Stored ∧ ∀ a ∈ file.allAttributes, pool.freeze.Writes a
  := by
  have hlengths := hmade.lengths hplan
  have hmethods : ∀ m ∈ file.methods, m.Stored ∧ ∀ a ∈ m.attributes, pool.freeze.Writes a := by
    intro m hm
    obtain ⟨method, hmem, methodPlan, hp, hinfo⟩ :=
      (hmade.methods_of_plan hplan).exists_of_mem_right hm
    obtain ⟨hcode, rfl, -, -⟩ := Method.plan_eq_ok hp
    rcases Method.planCode_eq_ok hcode with ⟨-, hnone⟩ | ⟨body, lowered, hbody, hlowered, hsome⟩
    · apply MethodPlan.stored_info _ _ (hcountable.exceptions _ hmem) hinfo <;> simp [hnone]
    · apply MethodPlan.stored_info _ _ (hcountable.exceptions _ hmem) hinfo
      · rw [hsome]
        rintro _ ⟨rfl⟩
        apply hswitches lowered
        exact Method.switchesMade_of_lower hbody (hcountable.switches _ hmem body hbody) hlowered
      · rw [hsome]
        rintro _ ⟨rfl⟩
        exact hhandlers.length_run_le hbody (hcountable.traps _ hmem body hbody) hlowered
  have hfields : ∀ m ∈ file.fields, m.Stored ∧ ∀ a ∈ m.attributes, pool.freeze.Writes a := by
    intro m hm
    obtain ⟨fieldPlan, -, hinfo⟩ :=
      (Except.mapM_eq_ok_iff.mp hmade.fields).exists_of_mem_right hm
    exact FieldPlan.stored_info hinfo
  obtain ⟨-, -, rfl, -⟩ := ClassModel.plan_eq_ok hplan
  obtain ⟨signature, inner, source, hsigned, hinner, hsource, hattributes⟩ := hmade.attributes
  have hlisted := (FrozenPool.storesList_inner hinner).writesUpTo (by decide) (by decide)
    InnerClassEntry.length_toBytes (fun _ => bodyRead_innerClasses) hcountable.innerClasses
  have hwrites : pool.freeze.WritesUpTo 3 file.attributes := by
    rw [hattributes]
    exact ((FrozenPool.writesUpTo_signature hsigned).append hlisted).append
      (FrozenPool.writesUpTo_source hsource)
  constructor
  · constructor
    case constPool => exact hholds.storedIn
    case interfacesCount =>
      rw [hmade.interfacesCount, length_eq_count_iff, hlengths.1]
      exact hcountable.interfaces
    case fieldsCount =>
      rw [hmade.fieldsCount, length_eq_count_iff, hlengths.2.1]
      exact hcountable.fields
    case fields => exact fun m hm => (hfields m hm).1
    case methodsCount =>
      rw [hmade.methodsCount, length_eq_count_iff, hlengths.2.2]
      exact hcountable.methods
    case methods => exact fun m hm => (hmethods m hm).1
    case attributesCount =>
      rw [hmade.attributesCount, length_eq_count_iff]
      exact Nat.le_trans hwrites.1 (by decide)
    case attributes => exact fun a ha => (hwrites.2 a ha).stored
  · intro a ha
    rcases List.mem_append.mp ha with ha | ha
    · rcases List.mem_append.mp ha with ha | ha
      · obtain ⟨m, hm, ha⟩ := List.mem_flatMap.mp ha
        exact (hfields m hm).2 a ha
      · obtain ⟨m, hm, ha⟩ := List.mem_flatMap.mp ha
        exact (hmethods m hm).2 a ha
    · exact hwrites.2 a ha

/-- Where all bodies are read back, what the methods throw and the nested classes were counted. -/
theorem ClassPlan.MadeInto.lengths_le_of_bodiesRead (hholds : file.Holds pool)
    (hread : file.BodiesRead) :
  c.innerClasses.length ≤ 65535 ∧ ∀ m ∈ c.methods, m.exceptions.length ≤ 65535
  := by
  have hbody {name : String} {info : List UInt8} {a : Attribute}
      (ha : pool.freeze.attributeOf name info = .ok a) (hmem : a ∈ file.allAttributes) :
      BodyRead name info := by
    obtain ⟨hname, rfl⟩ := hholds.attributeOf_eq_ok ha
    exact hread a hmem name hname
  constructor
  · obtain ⟨-, -, rfl, -⟩ := ClassModel.plan_eq_ok hplan
    obtain ⟨signature, inner, source, -, hinner, -, hattributes⟩ := hmade.attributes
    apply (FrozenPool.storesList_inner hinner).length_le (by decide) InnerClassEntry.length_toBytes
    intro a hmem info ha
    apply InnerClassesBody.exists_fromBytes_iff.mp
    apply (hbody ha _).innerClasses rfl
    simp [ClassFile.allAttributes, hattributes, hmem]
  · intro method hmem
    obtain ⟨k, hk⟩ := List.mem_iff_getElem?.mp hmem
    obtain ⟨m, hm, methodPlan, hp, hinfo⟩ := (hmade.methods_of_plan hplan).exists_getElem? hk
    obtain ⟨-, rfl, -, -⟩ := Method.plan_eq_ok hp
    obtain ⟨code, exceptions, signature, -, hthrown, -, hmember⟩ := MethodPlan.info_eq_ok hinfo
    obtain ⟨hattributes, -⟩ := FrozenPool.attributes_of_member hmember
    apply (FrozenPool.storesList_exceptions hthrown).length_le (by decide) Bytes.length_ofUInt16
    intro a hmem info ha
    apply ExceptionsBody.exists_fromBytes_iff.mp
    apply (hbody ha _).exceptions rfl
    have hmem : a ∈ m.attributes := by simp [hattributes, hmem]
    have hall : a ∈ file.methods.flatMap MemberInfo.attributes :=
      List.mem_flatMap.mpr ⟨m, List.mem_of_getElem? hm, hmem⟩
    simp [ClassFile.allAttributes, hall]

end

/-- The bytes of a compiled class are those of the class file that is built. They are read back as
this class file, with nothing left, and so are the bodies with code, thrown classes and nested
classes, if all lists of the class can be counted and the optimizer adds no handlers and no large
switches. A class with too many interfaces, fields or methods is not read back from its bytes, and
one with too many nested or thrown classes not from the bodies of its attributes. -/
theorem compile_readsBack {c : ClassModel} {options : CompileOptions} {bytes : List UInt8}
    (h : (c.compile options).outcome = .ok bytes) :
  ∃ file, (c.build options.version options.optimizer).outcome = .ok file
    ∧ bytes = file.toBytes
    ∧ (c.Countable → options.optimizer.AddsNoHandlers → options.optimizer.KeepsSwitchesMade →
      ClassFile.parse bytes = .ok (file, []) ∧ file.BodiesRead)
    ∧ (ClassFile.parse bytes = .ok (file, []) →
      c.interfaces.length ≤ 65535 ∧ c.fields.length ≤ 65535 ∧ c.methods.length ≤ 65535)
    ∧ (file.BodiesRead →
      c.innerClasses.length ≤ 65535 ∧ ∀ m ∈ c.methods, m.exceptions.length ≤ 65535)
  := by
  rw [ClassModel.compile, Traced.outcome_bind] at h
  obtain ⟨file, hbuild, h⟩ := Except.bind_eq_ok_iff.mp h
  obtain rfl := Except.ok.inj h
  obtain ⟨p, pool, hplan, hholds, hmade⟩ := ClassModel.build_eq_ok hbuild
  refine ⟨file, hbuild, rfl, ?_, ?_, hmade.lengths_le_of_bodiesRead hplan hholds⟩
  · intro hcountable hhandlers hswitches
    obtain ⟨hstored, hwrites⟩ := hmade.stored hplan hholds hcountable hhandlers hswitches
    constructor
    · have hread := ClassFile.read_inverts.read_write hstored []
      rwa [List.append_nil] at hread
    · intro a ha name hname
      exact (hwrites a ha).bodyRead hholds hname
  · intro hparse
    obtain ⟨hstored, -⟩ := ClassFile.read_inverts.write_read hparse
    exact hmade.lengths_le_of_stored hplan hstored

/-- A class that is said to implement itself `n` times. -/
def crowd (n : Nat) : ClassModel :=
  ⟨⟨⟨[], ["A"]⟩, []⟩, none, List.replicate n ⟨⟨[], ["A"]⟩, []⟩, 0x21, [], [], [], [], none⟩

/-- The plan of that class. -/
def crowdPlan (n : Nat) : ClassPlan :=
  ⟨crowd n, [], [], none⟩

/-- The plan of the class, however often it is said to implement itself. -/
theorem plan_crowd (n : Nat) :
  ((crowd n).plan .peephole).outcome = .ok (crowdPlan n)
  := by
  have hsignature : (crowd n).signature? = none := by
    simp [ClassModel.signature?, ClassModel.isGeneric, crowd, ClassType.isGeneric]
  rw [ClassModel.plan, hsignature]
  rfl

/-- Nothing is unknown where everything is known. -/
theorem ConstantPool.unknown_eq_nil {known : PoolEntry → Bool} {es : List PoolEntry}
    (h : ∀ e ∈ es, known e = true) :
  unknown known es = []
  := by
  apply List.eq_nil_iff_forall_not_mem.mpr
  intro e he
  obtain ⟨hmem, hunknown⟩ := mem_unknown_iff.mp he
  rw [h e hmem] at hunknown
  contradiction

/-- However often the class is named, it is stored once. -/
theorem entries_crowd (n : Nat) :
  (crowdPlan n).entries = [.utf8 "A", .classRef "A"]
  := by
  have hneeds : (crowdPlan n).needs = .classRef "A" :: List.replicate n (.classRef "A") := by
    have hentry : ClassType.entry ⟨⟨[], ["A"]⟩, []⟩ = .classRef "A" := rfl
    simp [ClassPlan.needs, ClassPlan.headNeeds, crowdPlan, crowd, hentry, signatureNeeds,
      ClassPlan.innerNeeds, ClassPlan.sourceNeeds]
  have hclosure : (PoolEntry.classRef "A").closure = [.utf8 "A", .classRef "A"] := rfl
  rw [ClassPlan.entries, hneeds, List.flatMap_cons, hclosure, List.cons_append, List.cons_append,
    List.nil_append, ConstantPool.unknown, if_neg (by simp), ConstantPool.unknown,
    if_neg (by simp), ConstantPool.unknown_eq_nil]
  intro e he
  obtain ⟨e', he', he⟩ := List.mem_flatMap.mp he
  obtain rfl := List.eq_of_mem_replicate he'
  rw [hclosure] at he
  simpa using he

/-- The class is built, however often it is said to implement itself. -/
theorem exists_build_crowd (n : Nat) :
  ∃ file, ((crowd n).build {} .peephole).outcome = .ok file
  := by
  have hpool := (crowdPlan n).pool_of_fits (by rw [entries_crowd]; decide)
  obtain ⟨pool, hsound, hfreeze⟩ := ClassPlan.exists_sound_of_pool hpool
  have hentries : pool.entries = #[(1, .utf8 "A"), (2, .classRef "A")] := by
    rw [entries_crowd] at hfreeze
    exact congrArg FrozenPool.entries hfreeze
  have hindex : ClassType.index ⟨⟨[], ["A"]⟩, []⟩ pool.freeze = .ok 2 := by
    apply Except.mapError_eq_ok_iff.mpr
    apply hsound.indexOf_of_mem
    rw [hentries]
    exact Array.mem_of_getElem? (i := 1) rfl
  have hrecords : ∃ records, pool.freeze.records = .ok records := by
    cases hrecords : pool.freeze.records with
    | ok records => exact ⟨records, rfl⟩
    | error err =>
        obtain ⟨i, text, hmem, hlong, -⟩ := hsound.records_failsOnly.of_error hrecords
        obtain ⟨-, rfl⟩ : i = 1 ∧ text = "A" := by simpa [hentries] using hmem
        exact absurd hlong (by decide)
  obtain ⟨records, hrecords⟩ := hrecords
  obtain ⟨interfaces, hinterfaces⟩ : ∃ interfaces,
      (crowd n).interfaces.mapM (ClassType.index · pool.freeze) = .ok interfaces := by
    apply Except.exists_mapM_eq_ok
    intro t ht
    obtain rfl := List.eq_of_mem_replicate ht
    exact ⟨2, hindex⟩
  have hfile : ∃ file, ((crowdPlan n).classFile {} pool.freeze).outcome = .ok file := by
    rw [ClassPlan.classFile, Traced.outcome_bind]
    refine Except.exists_bind_eq_ok (a := []) rfl ?_
    rw [Traced.outcome_bind]
    refine Except.exists_bind_eq_ok (a := []) rfl ?_
    rw [Traced.outcome_bind]
    refine Except.exists_bind_eq_ok (a := []) rfl ?_
    rw [Traced.outcome_bind]
    refine Except.exists_bind_eq_ok (a := []) rfl ?_
    rw [Traced.outcome_bind]
    refine Except.exists_bind_eq_ok (a := []) rfl ?_
    rw [Traced.outcome_bind, Traced.outcome_mapM]
    refine Except.exists_bind_eq_ok hinterfaces ?_
    rw [Traced.outcome_bind]
    refine Except.exists_bind_eq_ok (a := 0) rfl ?_
    rw [Traced.outcome_bind]
    refine Except.exists_bind_eq_ok (Except.mapError_eq_ok_iff.mpr hrecords) ?_
    rw [Traced.outcome_bind]
    refine Except.exists_bind_eq_ok (a := ()) rfl ?_
    rw [Traced.outcome_bind]
    exact Except.exists_bind_eq_ok hindex ⟨_, rfl⟩
  obtain ⟨file, hfile⟩ := hfile
  use file
  apply Except.mapError_eq_ok_iff.mpr
  rw [Traced.outcome_bind]
  apply Except.bind_eq_ok_iff.mpr ⟨crowdPlan n, plan_crowd n, _⟩
  rw [Traced.outcome_bind]
  rw [hfreeze] at hfile
  exact Except.bind_eq_ok_iff.mpr ⟨_, hpool, hfile⟩

theorem length_interfaces_crowd (n : Nat) :
  (crowd n).interfaces.length = n
  := List.length_replicate

theorem countable_crowd {n : Nat} (h : n ≤ 65535) :
  (crowd n).Countable
  := by
  constructor
  case interfaces =>
    rw [length_interfaces_crowd]
    exact h
  all_goals simp [crowd]

/-- The class is compiled with 65535 interfaces and with one more. With 65535 of them it is read
back, with one more it is not. -/
theorem crowd_readsBack :
  (∃ bytes file, ((crowd 65535).compile {}).outcome = .ok bytes
      ∧ ((crowd 65535).build {} .peephole).outcome = .ok file
      ∧ ClassFile.parse bytes = .ok (file, []) ∧ file.BodiesRead)
    ∧ ∃ bytes file, ((crowd 65536).compile {}).outcome = .ok bytes
      ∧ ((crowd 65536).build {} .peephole).outcome = .ok file
      ∧ ClassFile.parse bytes ≠ .ok (file, [])
  := by
  have hcompile (n : Nat) : ∃ bytes, ((crowd n).compile {}).outcome = .ok bytes := by
    obtain ⟨file, hfile⟩ := exists_build_crowd n
    rw [ClassModel.compile, Traced.outcome_bind]
    exact Except.exists_bind_eq_ok hfile ⟨_, rfl⟩
  constructor
  · obtain ⟨bytes, hbytes⟩ := hcompile 65535
    obtain ⟨file, hfile, -, hread, -⟩ := compile_readsBack hbytes
    exact ⟨bytes, file, hbytes, hfile, hread (countable_crowd (Nat.le_refl _))
      (Optimizer.addsNoHandlers (.inl rfl)) (Optimizer.keepsSwitchesMade (.inl rfl))⟩
  · obtain ⟨bytes, hbytes⟩ := hcompile 65536
    obtain ⟨file, hfile, -, -, hlengths, -⟩ := compile_readsBack hbytes
    refine ⟨bytes, file, hbytes, hfile, fun hparse => ?_⟩
    have hle := (hlengths hparse).1
    rw [length_interfaces_crowd] at hle
    contradiction

end ClassForge
