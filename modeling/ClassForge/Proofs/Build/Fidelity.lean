import ClassForge.Proofs.Build.Members
import ClassForge.Proofs.Pool.Capacity

/-!
# The class file of a class says what the class says

The pool of a class is sound, and the class file holds its records. So what is stored for the
class, its members and its attributes is followed back to what it was stored for.
-/

namespace ClassForge

/-! ### The pool -/

namespace ClassPlan

theorem internFor_extends (blame : CompileError → CompileError) (es : List PoolEntry)
    (pool : ConstantPool) :
  pool.Extends (internFor blame es pool).state
  := by
  rw [internFor, EStateM.state_adaptExcept]
  apply ConstantPool.internAll_extends

/-- Whatever comes of it, the needs of a class only extend a pool. -/
theorem internNeeds_extends (p : ClassPlan) (pool : ConstantPool) :
  pool.Extends (p.internNeeds pool).state
  := by
  have hbind {α β : Type} {x : EStateM CompileError ConstantPool α}
      {f : α → EStateM CompileError ConstantPool β} {pool : ConstantPool}
      (hx : pool.Extends (x pool).state) (hf : ∀ a pool', pool'.Extends (f a pool').state) :
      pool.Extends ((x >>= f) pool).state :=
    EStateM.state_bind_of_trans ConstantPool.Extends ConstantPool.Extends.trans hx
      fun a pool' _ => hf a pool'
  have hforM {α : Type} {f : α → EStateM CompileError ConstantPool PUnit} {as : List α}
      {pool : ConstantPool} (hf : ∀ a (pool : ConstantPool), pool.Extends (f a pool).state) :
      pool.Extends (as.forM f pool).state :=
    EStateM.state_forM ConstantPool.Extends ConstantPool.Extends.refl ConstantPool.Extends.trans hf
  apply hbind (internFor_extends _ _ _)
  intro _ pool
  apply hbind (hforM fun _ => internFor_extends _ _)
  intro _ pool
  apply hbind (hforM fun _ => internFor_extends _ _)
  intro _ pool
  apply hbind (internFor_extends _ _ _)
  intro _ pool
  apply internFor_extends

theorem internFor_of_ok {blame : CompileError → CompileError} {es : List PoolEntry}
    {pool pool' : ConstantPool} (h : ConstantPool.internAll es pool = .ok () pool') :
  internFor blame es pool = .ok () pool'
  := by
  rw [internFor, EStateM.adaptExcept, h]

/-- What is interned at once is interned element by element, whoever is to blame for an error. -/
theorem forM_internFor_of_ok {α : Type} {blame : α → CompileError → CompileError}
    {needs : α → List PoolEntry} {as : List α} {pool pool' : ConstantPool}
    (h : ConstantPool.internAll (as.flatMap needs) pool = .ok () pool') :
  as.forM (fun a => internFor (blame a) (needs a)) pool = .ok () pool'
  := by
  induction as generalizing pool with
  | nil =>
      obtain ⟨-, rfl⟩ := EStateM.Result.ok.inj h
      rfl
  | cons a as ih =>
      rw [List.flatMap_cons, ConstantPool.internAll_append] at h
      obtain ⟨_, pool₁, hfirst, hrest⟩ := EStateM.bind_eq_ok_iff.mp h
      apply EStateM.bind_eq_ok_iff.mpr ⟨(), pool₁, internFor_of_ok hfirst, ih hrest⟩

/-- If the needs of a class are interned at once, they are interned part by part. -/
theorem internNeeds_of_ok {p : ClassPlan} {pool pool' : ConstantPool}
    (h : ConstantPool.internAll p.needs pool = .ok () pool') :
  p.internNeeds pool = .ok () pool'
  := by
  rw [ClassPlan.needs, ConstantPool.internAll_append] at h
  obtain ⟨_, pool₁, hhead, h⟩ := EStateM.bind_eq_ok_iff.mp h
  rw [ConstantPool.internAll_append] at h
  obtain ⟨_, pool₂, hfields, h⟩ := EStateM.bind_eq_ok_iff.mp h
  rw [ConstantPool.internAll_append] at h
  obtain ⟨_, pool₃, hmethods, h⟩ := EStateM.bind_eq_ok_iff.mp h
  rw [ConstantPool.internAll_append] at h
  obtain ⟨_, pool₄, hinner, hsource⟩ := EStateM.bind_eq_ok_iff.mp h
  apply EStateM.bind_eq_ok_iff.mpr ⟨(), pool₁, internFor_of_ok hhead, _⟩
  apply EStateM.bind_eq_ok_iff.mpr ⟨(), pool₂, forM_internFor_of_ok hfields, _⟩
  apply EStateM.bind_eq_ok_iff.mpr ⟨(), pool₃, forM_internFor_of_ok hmethods, _⟩
  apply EStateM.bind_eq_ok_iff.mpr ⟨(), pool₄, internFor_of_ok hinner, internFor_of_ok hsource⟩

/-- The entries of the pool of a class, in their order. -/
def entries (p : ClassPlan) : List PoolEntry :=
  ConstantPool.unknown (fun _ => false) (p.needs.flatMap PoolEntry.closure)

/-- The pool of a class has its entries, unless there are too many of them. -/
theorem pool_of_fits {p : ClassPlan} (hfits : 1 + ConstantPool.totalWidth p.entries ≤ 65535) :
  p.pool.outcome = .ok (p.entries.foldl ConstantPool.push .empty).freeze
  := by
  have hcontains : ConstantPool.empty.contains = fun _ => false := by
    funext e
    simp [ConstantPool.contains, ConstantPool.empty]
  have hall := ConstantPool.sound_empty.internAll_of_fits p.needs
  rw [hcontains] at hall
  unfold ClassPlan.pool
  rw [internNeeds_of_ok (hall hfits)]
  rfl

/-- The pool of a class is sound. -/
theorem exists_sound_of_pool {p : ClassPlan} {frozen : FrozenPool}
    (h : p.pool.outcome = .ok frozen) :
  ∃ pool : ConstantPool, pool.Sound ∧ pool.freeze = frozen
  := by
  have hextends := p.internNeeds_extends .empty
  unfold ClassPlan.pool at h
  split at h
  · next pool hneeds =>
    rw [hneeds] at hextends
    use pool, hextends.sound ConstantPool.sound_empty
    apply Except.ok.inj h
  · contradiction

end ClassPlan

/-! ### Classes -/

namespace ClassFile.Holds

variable {file : ClassFile} {pool : ConstantPool} (h : file.Holds pool)

include h

/-- The index of a class that there may be tells it, zero being that there is none. -/
theorem tells_classIndexOrZero {c : Option ClassType} {i : UInt16}
    (hi : classIndexOrZero pool.freeze c = .ok i) :
  file.TellsClass i c
  := by
  cases c with
  | none =>
      obtain rfl := Except.ok.inj hi
      exact ⟨⟨fun _ => rfl, fun _ => rfl⟩, nofun⟩
  | some t =>
      have hname : file.className? i = some t.name.internal := h.denotes_of_mapError hi
      constructor
      · constructor
        · rintro rfl
          rw [className?_zero] at hname
          contradiction
        · nofun
      · intro t' ht'
        obtain rfl := Option.some.inj ht'
        apply hname

/-- The stored form of a nested class tells its names and its flags. -/
theorem tells_inner {c : InnerClass} {e : InnerClassEntry} (he : c.stored pool.freeze = .ok e) :
  file.TellsInner c e
  := by
  obtain ⟨inner, hinner, he⟩ := Except.bind_eq_ok_iff.mp he
  obtain ⟨outer, houter, he⟩ := Except.bind_eq_ok_iff.mp he
  have hclass : file.className? inner = some c.inner.name.internal := h.denotes_of_mapError hinner
  have htells := h.tells_classIndexOrZero houter
  cases hname : c.simpleName with
  | none =>
      rw [hname] at he
      obtain ⟨_, hzero, he⟩ := Except.bind_eq_ok_iff.mp he
      obtain rfl := Except.ok.inj hzero
      obtain rfl := Except.ok.inj he
      refine ⟨hclass, htells, ⟨fun _ => hname, fun _ => rfl⟩, ?_, rfl⟩
      rw [hname]
      nofun
  | some name =>
      rw [hname] at he
      obtain ⟨i, hi, he⟩ := Except.bind_eq_ok_iff.mp he
      obtain rfl := Except.ok.inj he
      have htext : file.text? i = some name := h.denotes_of_mapError hi
      refine ⟨hclass, htells, ⟨?_, ?_⟩, ?_, rfl⟩
      · rintro rfl
        rw [text?_zero] at htext
        contradiction
      · rw [hname]
        nofun
      · intro name' hname'
        rw [hname] at hname'
        obtain rfl := Option.some.inj hname'
        apply htext

/-- The attribute for nested classes tells all of them, and there is none without such classes. -/
theorem tells_inners {p : ClassPlan} {as : List Attribute}
    (hcount : p.model.innerClasses.length ≤ 65535)
    (has : p.innerAttribute pool.freeze = .ok as) :
  file.Tells "InnerClasses" file.TellsInners
    (if p.model.innerClasses.isEmpty then none else some p.model.innerClasses) as
  := by
  unfold ClassPlan.innerAttribute at has
  split at has
  · next hempty =>
    obtain rfl := Except.ok.inj has
    rw [if_pos hempty]
    exact .nothing
  · next hnonempty =>
    obtain ⟨classes, hclasses, has⟩ := Except.bind_eq_ok_iff.mp has
    obtain ⟨a, ha, has⟩ := Except.bind_eq_ok_iff.mp has
    obtain rfl := Except.ok.inj has
    obtain ⟨hname, hinfo⟩ := h.attributeOf_eq_ok ha
    have hforall := Except.mapM_eq_ok_iff.mp hclasses
    rw [if_neg hnonempty]
    apply Tells.something hname
    refine ⟨_, InnerClassesBody.fromBytes_eq_ok_iff.mpr ⟨?_, hinfo.symm⟩,
      hforall.imp fun _ _ => h.tells_inner⟩
    apply (toNat_ofNat_of_le _).symm
    rw [← hforall.length_eq]
    apply hcount

/-- The attribute for the source file tells its name, and there is none without a source file. -/
theorem tells_source {p : ClassPlan} {as : List Attribute}
    (has : p.sourceAttribute pool.freeze = .ok as) :
  file.Tells "SourceFile" file.TellsText p.model.sourceFile as
  := by
  unfold ClassPlan.sourceAttribute at has
  cases hsource : p.model.sourceFile with
  | none =>
      rw [hsource] at has
      obtain rfl := Except.ok.inj has
      exact .nothing
  | some source =>
      rw [hsource] at has
      obtain ⟨a, ha, has⟩ := Except.bind_eq_ok_iff.mp has
      obtain rfl := Except.ok.inj has
      obtain ⟨hname, hbody⟩ := h.indexAttribute_eq_ok ha
      exact .something hname hbody

end ClassFile.Holds

/-- How the parts of a class file are made for a planned class. -/
structure ClassPlan.MadeInto (p : ClassPlan) (version : ClassVersion) (pool : FrozenPool)
    (file : ClassFile) : Prop where
  version : file.major = version.major ∧ file.minor = version.minor
  flags : file.flags = p.model.flags
  constPool : pool.records = .ok file.constPool.toList
  constPoolSize : file.constPoolSize = UInt16.ofNat pool.count
  thisClass : p.model.type.index pool = .ok file.thisClass
  superClass : classIndexOrZero pool p.model.superclass = .ok file.superClass
  interfaces : p.model.interfaces.mapM (ClassType.index · pool) = .ok file.interfaces
  fields : p.fields.mapM (FieldPlan.info · pool) = .ok file.fields
  methods : p.methods.mapM (fun m => (m.info pool).outcome) = .ok file.methods
  attributes : ∃ signature inner source, pool.signatureAttribute p.signature = .ok signature
    ∧ p.innerAttribute pool = .ok inner ∧ p.sourceAttribute pool = .ok source
    ∧ file.attributes = signature ++ inner ++ source
  interfacesCount : file.interfacesCount = UInt16.ofNat file.interfaces.length
  fieldsCount : file.fieldsCount = UInt16.ofNat file.fields.length
  methodsCount : file.methodsCount = UInt16.ofNat file.methods.length
  attributesCount : file.attributesCount = UInt16.ofNat file.attributes.length

/-- The parts of a class file that is written are made for the parts of the plan, with the indices
of the pool. -/
theorem ClassPlan.madeInto_of_ok {p : ClassPlan} {version : ClassVersion} {pool : FrozenPool}
    {file : ClassFile} (h : (p.classFile version pool).outcome = .ok file) :
  p.MadeInto version pool file
  := by
  rw [ClassPlan.classFile, Traced.outcome_bind, Traced.outcome_mapM] at h
  obtain ⟨fields, hfields, h⟩ := Except.bind_eq_ok_iff.mp h
  rw [Traced.outcome_bind, Traced.outcome_mapM] at h
  obtain ⟨methods, hmethods, h⟩ := Except.bind_eq_ok_iff.mp h
  rw [Traced.outcome_bind] at h
  obtain ⟨signature, hsignature, h⟩ := Except.bind_eq_ok_iff.mp h
  rw [Traced.outcome_bind] at h
  obtain ⟨inner, hinner, h⟩ := Except.bind_eq_ok_iff.mp h
  rw [Traced.outcome_bind] at h
  obtain ⟨source, hsource, h⟩ := Except.bind_eq_ok_iff.mp h
  rw [Traced.outcome_bind, Traced.outcome_mapM] at h
  obtain ⟨interfaces, hinterfaces, h⟩ := Except.bind_eq_ok_iff.mp h
  rw [Traced.outcome_bind] at h
  obtain ⟨superClass, hsuper, h⟩ := Except.bind_eq_ok_iff.mp h
  rw [Traced.outcome_bind] at h
  obtain ⟨constPool, hrecords, h⟩ := Except.bind_eq_ok_iff.mp h
  rw [Traced.outcome_bind] at h
  obtain ⟨_, -, h⟩ := Except.bind_eq_ok_iff.mp h
  rw [Traced.outcome_bind] at h
  obtain ⟨thisClass, hthis, h⟩ := Except.bind_eq_ok_iff.mp h
  obtain rfl := Except.ok.inj h
  constructor
  case version => exact ⟨rfl, rfl⟩
  case constPool => apply Except.mapError_eq_ok_iff.mp hrecords
  case thisClass => apply hthis
  case superClass => apply hsuper
  case interfaces => apply hinterfaces
  case fields => apply hfields
  case methods => apply hmethods
  case attributes => exact ⟨signature, inner, source, hsignature, hinner, hsource, rfl⟩
  all_goals rfl

/-- No list in the class has more elements than a count in a class file can tell, and no switch as
many as 2^28 cases. -/
structure ClassModel.Countable (c : ClassModel) : Prop where
  interfaces : c.interfaces.length ≤ 65535
  fields : c.fields.length ≤ 65535
  methods : c.methods.length ≤ 65535
  innerClasses : c.innerClasses.length ≤ 65535
  exceptions : ∀ m ∈ c.methods, m.exceptions.length ≤ 65535
  traps : ∀ m ∈ c.methods, ∀ body ∈ m.body, body.traps.length ≤ 65535
  switches : ∀ m ∈ c.methods, ∀ body ∈ m.body, body.SwitchesModerate

/-- What the plan of a class consists of. -/
theorem ClassModel.plan_eq_ok {c : ClassModel} {optimizer : Optimizer} {p : ClassPlan}
    (h : (c.plan optimizer).outcome = .ok p) :
  c.fields.mapM Field.plan = .ok p.fields
    ∧ c.methods.mapM (fun m => (m.plan c.type.toTy optimizer).outcome) = .ok p.methods
    ∧ p.model = c ∧ p.signature = c.signature?
  := by
  rw [ClassModel.plan, Traced.outcome_bind] at h
  obtain ⟨fields, hfields, h⟩ := Except.bind_eq_ok_iff.mp h
  rw [Traced.outcome_bind, Traced.outcome_mapM] at h
  obtain ⟨methods, hmethods, h⟩ := Except.bind_eq_ok_iff.mp h
  obtain rfl := Except.ok.inj h
  exact ⟨hfields, hmethods, rfl, rfl⟩

/-- A class with a constant and a method. -/
def clock : ClassModel :=
  ⟨⟨⟨[], ["Clock"]⟩, []⟩, none, [], 0x21, [],
    [⟨"day", .primitive .long, staticFlag, some (.long 86400000)⟩],
    [⟨"stop", staticFlag, [], [], .void, [], some ⟨[], [.ret none], []⟩⟩], [], none⟩

/-- The plan of that class. -/
def clockPlan : ClassPlan :=
  ⟨clock,
    [⟨⟨"day", .primitive .long, staticFlag, some (.long 86400000)⟩, "J", none,
      some (.long 86400000)⟩],
    [⟨⟨"stop", staticFlag, [], [], .void, [], some ⟨[], [.ret none], []⟩⟩, "()V", none,
      some ⟨[.ret none], [], 0⟩⟩],
    none⟩

/-- The entries of that class with their indices. The constant takes two. -/
def clockEntries : List (UInt16 × PoolEntry) :=
  [(1, .utf8 "Clock"), (2, .classRef "Clock"), (3, .utf8 "day"), (4, .utf8 "J"),
    (5, .utf8 "ConstantValue"), (6, .long 86400000), (8, .utf8 "stop"), (9, .utf8 "()V"),
    (10, .utf8 "Code")]

theorem plan_clock :
  (clock.plan .peephole).outcome = .ok clockPlan
  := by
  cbv

theorem countable_clock :
  clock.Countable
  := by
  constructor <;> simp [clock, Body.SwitchesModerate]

/-- The pool of that class. -/
theorem exists_pool_clock :
  ∃ pool : ConstantPool, pool.Sound ∧ clockPlan.pool.outcome = .ok pool.freeze
    ∧ pool.entries.toList = clockEntries
  := by
  have hneeds : clockPlan.needs = [.classRef "Clock", .utf8 "day", .utf8 "J",
      .utf8 "ConstantValue", .long 86400000, .utf8 "stop", .utf8 "()V", .utf8 "Code"] := rfl
  have hentries : clockPlan.entries = [.utf8 "Clock", .classRef "Clock", .utf8 "day", .utf8 "J",
      .utf8 "ConstantValue", .long 86400000, .utf8 "stop", .utf8 "()V", .utf8 "Code"] := by
    rw [ClassPlan.entries, hneeds]
    rfl
  have hpool := clockPlan.pool_of_fits (by rw [hentries]; decide)
  obtain ⟨pool, hsound, hfreeze⟩ := ClassPlan.exists_sound_of_pool hpool
  use pool, hsound
  rw [hfreeze]
  use hpool
  rw [hentries] at hfreeze
  have hpoolEntries := congrArg FrozenPool.entries hfreeze
  exact congrArg Array.toList hpoolEntries

section

variable {pool : FrozenPool} (hindex : ∀ entry ∈ clockEntries, pool.indexOf entry.2 = .ok entry.1)

include hindex

/-- The field of the clock as it is stored. -/
theorem fields_clock :
  clockPlan.fields.mapM (FieldPlan.info · pool)
    = .ok [⟨staticFlag, 3, 4, 1, [⟨5, 2, [0, 6]⟩]⟩]
  := by
  simp only [clockEntries, List.forall_mem_cons] at hindex
  simp [clockPlan, FieldPlan.info, FrozenPool.indexAttribute, FrozenPool.attributeOf,
    FrozenPool.textIndex, FrozenPool.signatureAttribute, FrozenPool.member, hindex, bind,
    Except.bind, Except.mapError, pure, Except.pure, IndexBody.toBytes, Attribute.ofInfo,
    Bytes.ofUInt16]
  decide

/-- The method of the clock as it is stored. -/
theorem methods_clock :
  clockPlan.methods.mapM (fun m => (m.info pool).outcome)
    = .ok [⟨staticFlag, 8, 9, 1, [⟨10, 13, [0, 0, 0, 0, 0, 0, 0, 1, 177, 0, 0, 0, 0]⟩]⟩]
  := by
  have hassemble : ((⟨[.ret none], [], 0⟩ : MethodCode).assemble pool).outcome
      = .ok ⟨[Opcode.ret], 0, 0, [], [0, 1]⟩ := rfl
  simp only [clockEntries, List.forall_mem_cons] at hindex
  simp only [clockPlan, List.mapM_cons, List.mapM_nil, MethodPlan.info, MethodPlan.infoWithin,
    MethodPlan.codeAttribute, Traced.outcome_mapError, Traced.outcome_bind, Traced.outcome_lift,
    Traced.outcome_pure, hassemble]
  simp [MethodPlan.exceptionsAttribute, FrozenPool.attributeOf, FrozenPool.textIndex,
    FrozenPool.signatureAttribute, FrozenPool.member, hindex, bind, Except.bind, Except.mapError,
    pure, Except.pure, Attribute.ofInfo]
  decide

/-- The texts of the clock are short enough, so its pool has records. -/
theorem exists_records_clock (hentries : pool.entries.toList = clockEntries) :
  ∃ records, pool.records = .ok records
  := by
  have htext (text : String) (h : (Text.ModifiedUtf8.encode text).length ≤ 65535) :
      ∃ r, Record.ofText text = .ok r := ⟨_, if_pos h⟩
  have hall : ∀ entry ∈ pool.entries.toList, ∃ r, pool.record entry.2 = .ok r := by
    rw [hentries]
    simp only [clockEntries, List.forall_mem_cons, FrozenPool.record] at hindex ⊢
    refine ⟨htext _ (by cbv), ?_, htext _ (by cbv), htext _ (by cbv), htext _ (by cbv), ⟨_, rfl⟩,
      htext _ (by cbv), htext _ (by cbv), htext _ (by cbv), List.forall_mem_nil _⟩
    exact Except.exists_bind_eq_ok hindex.1 ⟨_, rfl⟩
  obtain ⟨records, hrecords⟩ := Except.exists_mapM_eq_ok hall
  exact Except.exists_bind_eq_ok hrecords ⟨_, rfl⟩

/-- The class file of the clock is written. -/
theorem exists_classFile_clock (hentries : pool.entries.toList = clockEntries) :
  ∃ file, (clockPlan.classFile {} pool).outcome = .ok file
  := by
  obtain ⟨records, hrecords⟩ := exists_records_clock hindex hentries
  have hthis : clockPlan.model.type.index pool = .ok 2 :=
    Except.mapError_eq_ok_iff.mpr (hindex (2, .classRef "Clock") (by simp [clockEntries]))
  rw [ClassPlan.classFile, Traced.outcome_bind, Traced.outcome_mapM]
  apply Except.exists_bind_eq_ok (fields_clock hindex)
  rw [Traced.outcome_bind, Traced.outcome_mapM]
  apply Except.exists_bind_eq_ok (methods_clock hindex)
  rw [Traced.outcome_bind]
  refine Except.exists_bind_eq_ok (a := []) rfl ?_
  rw [Traced.outcome_bind]
  refine Except.exists_bind_eq_ok (a := []) rfl ?_
  rw [Traced.outcome_bind]
  refine Except.exists_bind_eq_ok (a := []) rfl ?_
  rw [Traced.outcome_bind]
  refine Except.exists_bind_eq_ok (a := []) rfl ?_
  rw [Traced.outcome_bind]
  refine Except.exists_bind_eq_ok (a := 0) rfl ?_
  rw [Traced.outcome_bind]
  refine Except.exists_bind_eq_ok (Except.mapError_eq_ok_iff.mpr hrecords) ?_
  rw [Traced.outcome_bind]
  refine Except.exists_bind_eq_ok (a := ()) rfl ?_
  rw [Traced.outcome_bind]
  exact Except.exists_bind_eq_ok hthis ⟨_, rfl⟩

end

end ClassForge
