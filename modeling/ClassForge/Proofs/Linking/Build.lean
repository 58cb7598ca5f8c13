import ClassForge.Proofs.Linking.Assembly
import ClassForge.Proofs.Linking.Lowering

/-!
# Classes that cannot be built

Building a class does not fail by the compiler's own fault: code is linked when it is
assembled, and the pool has all entries by the time that their indices are asked for. What is
left are the errors that depend on the class.
-/

namespace ClassForge

/-! ### Attributes and members -/

namespace FrozenPool

variable {P : CompileError → Prop} {pool : FrozenPool}

theorem indexOf_failsOnly {e : PoolEntry} (h : e ∈ pool.indices) :
  FailsOnly P ((pool.indexOf e).mapError .pool)
  := by
  obtain ⟨index, hindex⟩ := exists_indexOf h
  apply FailsOnly.of_eq_ok (Except.mapError_eq_ok_iff.mpr hindex)

theorem attributeOf_failsOnly {name : String} (h : .utf8 name ∈ pool.indices) (info : List UInt8) :
  FailsOnly P (pool.attributeOf name info)
  := by
  apply (indexOf_failsOnly h).bind
  intro index _
  apply FailsOnly.ok

theorem indexAttribute_failsOnly {name : String} {entry : PoolEntry}
    (hname : .utf8 name ∈ pool.indices) (hentry : entry ∈ pool.indices) :
  FailsOnly P (pool.indexAttribute name entry)
  := by
  apply (indexOf_failsOnly hentry).bind
  intro index _
  apply attributeOf_failsOnly hname

/-- The attribute for a signature is made once the pool has what it needs. -/
theorem signatureAttribute_failsOnly {signature : Option String}
    (h : ∀ e ∈ signatureNeeds signature, e ∈ pool.indices) :
  FailsOnly P (pool.signatureAttribute signature)
  := by
  cases signature with
  | none => apply FailsOnly.ok
  | some signature =>
      apply (indexAttribute_failsOnly (h _ List.mem_cons_self)
        (h _ (List.mem_cons_of_mem _ List.mem_cons_self))).bind
      intro stored _
      apply FailsOnly.ok

theorem member_failsOnly {name descriptor : String} (hname : .utf8 name ∈ pool.indices)
    (hdescriptor : .utf8 descriptor ∈ pool.indices) (flags : UInt16) (attributes : List Attribute) :
  FailsOnly P (pool.member flags name descriptor attributes)
  := by
  apply (indexOf_failsOnly hname).bind
  intro name _
  apply (indexOf_failsOnly hdescriptor).bind
  intro descriptor _
  apply FailsOnly.ok

end FrozenPool

open FrozenPool

variable {P : CompileError → Prop} {pool : FrozenPool}

/-- A field can be stored if all that it needs is in the pool. -/
theorem FieldPlan.info_failsOnly {p : FieldPlan} (h : ∀ e ∈ p.needs, e ∈ pool.indices) :
  FailsOnly P (p.info pool)
  := by
  simp only [FieldPlan.needs, List.forall_mem_append, List.forall_mem_cons] at h
  obtain ⟨⟨⟨hname, hdescriptor, -⟩, hsignature⟩, hconstant⟩ := h
  have hrest (constant : List Attribute) : FailsOnly P (do
      let signature ← pool.signatureAttribute p.signature
      pool.member p.field.flags p.field.name p.descriptor (constant ++ signature)) := by
    apply (signatureAttribute_failsOnly hsignature).bind
    intro signature _
    apply member_failsOnly hname hdescriptor
  unfold FieldPlan.info
  cases hentry : p.constant with
  | none => apply hrest
  | some constant =>
      simp only [hentry, List.forall_mem_cons] at hconstant
      apply (indexAttribute_failsOnly hconstant.1 hconstant.2.1).bind
      intro stored _
      apply hrest

namespace MethodPlan

variable {p : MethodPlan}

/-- The attribute for code fails only in the assembly, once the pool has its name. -/
theorem codeAttribute_failsOnly
    (hassemble : ∀ code ∈ p.code, FailsOnly P (code.assemble pool).outcome)
    (h : ∀ code ∈ p.code, .utf8 "Code" ∈ pool.indices) :
  FailsOnly P (p.codeAttribute pool).outcome
  := by
  unfold MethodPlan.codeAttribute
  split
  · apply FailsOnly.ok
  · next code hcode =>
    rw [Traced.outcome_bind]
    apply (hassemble code hcode).bind
    intro assembled _
    rw [Traced.outcome_bind]
    apply (attributeOf_failsOnly (h code hcode) _).bind
    intro body _
    apply FailsOnly.ok

/-- The attribute for thrown classes is made once the pool has its name and the classes. -/
theorem exceptionsAttribute_failsOnly (h : ¬ p.method.exceptions.isEmpty →
    ∀ e ∈ .utf8 "Exceptions" :: p.method.exceptions.map fun thrown => .ofClass thrown.erasure,
      e ∈ pool.indices) :
  FailsOnly P (p.exceptionsAttribute pool)
  := by
  unfold MethodPlan.exceptionsAttribute
  split
  · apply FailsOnly.ok
  · next hnonempty =>
    obtain ⟨hname, hthrown⟩ := List.forall_mem_cons.mp (h hnonempty)
    have hclasses : FailsOnly P (p.method.exceptions.mapM fun thrown =>
        (pool.classIndex thrown.erasure).mapError CompileError.pool) := by
      apply FailsOnly.mapM
      intro thrown hmem
      apply indexOf_failsOnly (hthrown _ (List.mem_map.mpr ⟨thrown, hmem, rfl⟩))
    apply hclasses.bind
    intro classes _
    apply (attributeOf_failsOnly hname _).bind
    intro stored _
    apply FailsOnly.ok

/-- A method can be stored if all that it needs is in the pool, unless its code cannot be
assembled. -/
theorem info_failsOnly (hassemble : ∀ code ∈ p.code,
      FailsOnly (fun e => P (p.method.blame e)) (code.assemble pool).outcome)
    (h : ∀ e ∈ p.needs, e ∈ pool.indices) :
  FailsOnly P (p.info pool).outcome
  := by
  simp only [MethodPlan.needs, List.forall_mem_append, List.forall_mem_cons] at h
  obtain ⟨⟨⟨⟨hname, hdescriptor, -⟩, hsignature⟩, hcode⟩, hexceptions⟩ := h
  apply FailsOnly.mapError
  rw [MethodPlan.infoWithin, Traced.outcome_bind]
  apply FailsOnly.bind
  · apply codeAttribute_failsOnly hassemble
    intro code hsome
    rw [hsome] at hcode
    apply hcode _ List.mem_cons_self
  intro code _
  rw [Traced.outcome_bind]
  apply FailsOnly.bind
  · apply exceptionsAttribute_failsOnly
    intro hnonempty
    rw [if_neg hnonempty] at hexceptions
    apply hexceptions
  intro exceptions _
  rw [Traced.outcome_bind]
  apply (signatureAttribute_failsOnly hsignature).bind
  intro signature _
  apply member_failsOnly hname hdescriptor

end MethodPlan

/-! ### Classes -/

theorem classIndexOrZero_failsOnly {c : Option ClassType}
    (h : ∀ e ∈ (c.map ClassType.entry).toList, e ∈ pool.indices) :
  FailsOnly P (classIndexOrZero pool c)
  := by
  cases c with
  | none => apply FailsOnly.ok
  | some c => apply indexOf_failsOnly (h _ List.mem_cons_self)

/-- A nested class is stored once the pool has what it needs. -/
theorem InnerClass.stored_failsOnly {c : InnerClass} (h : ∀ e ∈ c.needs, e ∈ pool.indices) :
  FailsOnly P (c.stored pool)
  := by
  simp only [InnerClass.needs, List.forall_mem_append, List.forall_mem_cons] at h
  obtain ⟨⟨hinner, houter⟩, hname⟩ := h
  apply (indexOf_failsOnly hinner).bind
  intro inner _
  apply (classIndexOrZero_failsOnly houter).bind
  intro outer _
  split
  · apply FailsOnly.ok
  · next name hsome =>
    simp only [hsome] at hname
    apply (indexOf_failsOnly (hname _ List.mem_cons_self)).bind
    intro name _
    apply FailsOnly.ok

namespace ClassPlan

variable {p : ClassPlan}

/-- The attribute for nested classes is made once the pool has what it needs. -/
theorem innerAttribute_failsOnly (h : ∀ e ∈ p.innerNeeds, e ∈ pool.indices) :
  FailsOnly P (p.innerAttribute pool)
  := by
  unfold ClassPlan.innerAttribute
  split
  · apply FailsOnly.ok
  · next hnonempty =>
    rw [ClassPlan.innerNeeds, if_neg hnonempty] at h
    obtain ⟨hname, hneeds⟩ := List.forall_mem_cons.mp h
    have hclasses : FailsOnly P
        (p.model.innerClasses.mapM (InnerClass.stored · pool)) := by
      apply FailsOnly.mapM
      intro c hc
      apply InnerClass.stored_failsOnly
      intro e he
      apply hneeds e (List.mem_flatMap.mpr ⟨c, hc, he⟩)
    apply hclasses.bind
    intro classes _
    apply (attributeOf_failsOnly hname _).bind
    intro stored _
    apply FailsOnly.ok

/-- The attribute for the source file is made once the pool has what it needs. -/
theorem sourceAttribute_failsOnly (h : ∀ e ∈ p.sourceNeeds, e ∈ pool.indices) :
  FailsOnly P (p.sourceAttribute pool)
  := by
  unfold ClassPlan.sourceAttribute
  split
  · apply FailsOnly.ok
  · next source hsource =>
    simp only [ClassPlan.sourceNeeds, hsource, List.forall_mem_cons] at h
    apply (indexAttribute_failsOnly h.1 h.2.1).bind
    intro stored _
    apply FailsOnly.ok

/-- A planned class can be written with a pool that has all its entries, unless its code cannot
be assembled or the pool cannot be written. -/
theorem classFile_failsOnly (hassemble : ∀ m ∈ p.methods, ∀ code ∈ m.code,
      FailsOnly (fun e => P (m.method.blame e)) (code.assemble pool).outcome)
    (hrecords : FailsOnly (fun e => P (.pool e)) pool.records)
    (h : ∀ e ∈ p.needs, e ∈ pool.indices) (version : ClassVersion) :
  FailsOnly P (p.classFile version pool).outcome
  := by
  simp only [ClassPlan.needs, ClassPlan.headNeeds, List.forall_mem_append, List.forall_mem_cons,
    List.forall_mem_flatMap] at h
  obtain ⟨⟨⟨⟨⟨hclass, -⟩, hsuper⟩, hinterfaces⟩, hsignature⟩, hfields, hmethods, hinner, hsource⟩ :=
    h
  rw [ClassPlan.classFile, Traced.outcome_bind]
  apply FailsOnly.bind
  · apply FailsOnly.outcome_mapM
    intro field hfield
    apply FieldPlan.info_failsOnly (hfields field hfield)
  intro fields _
  rw [Traced.outcome_bind]
  apply FailsOnly.bind
  · apply FailsOnly.outcome_mapM
    intro m hm
    apply MethodPlan.info_failsOnly (hassemble m hm) (hmethods m hm)
  intro methods _
  rw [Traced.outcome_bind]
  apply (signatureAttribute_failsOnly hsignature).bind
  intro signature _
  rw [Traced.outcome_bind]
  apply (innerAttribute_failsOnly hinner).bind
  intro inner _
  rw [Traced.outcome_bind]
  apply (sourceAttribute_failsOnly hsource).bind
  intro source _
  rw [Traced.outcome_bind]
  apply FailsOnly.bind
  · apply FailsOnly.outcome_mapM
    intro c hc
    apply indexOf_failsOnly (hinterfaces _ (List.mem_map.mpr ⟨c, hc, rfl⟩))
  intro interfaces _
  rw [Traced.outcome_bind]
  apply (classIndexOrZero_failsOnly hsuper).bind
  intro superClass _
  rw [Traced.outcome_bind]
  apply FailsOnly.bind (FailsOnly.mapError hrecords)
  intro constPool _
  rw [Traced.outcome_bind]
  apply (FailsOnly.ok ()).bind
  intro _ _
  rw [Traced.outcome_bind]
  apply (indexOf_failsOnly hclass).bind
  intro thisClass _
  apply FailsOnly.ok

end ClassPlan

/-- No array is created in the class whose elements would have no values. -/
def ClassModel.ArraysValued (c : ClassModel) : Prop :=
  ∀ m ∈ c.methods, m.ArraysValued

/-- The plan of a field fails only for what is foreseen. -/
theorem Field.plan_failsOnly (f : Field) :
  FailsOnly CompileError.Foreseen f.plan
  := by
  have hentry (literal : Literal) :
      FailsOnly (Unsupported.isForeseen · = true) (constantEntry f.name literal) := by
    cases literal with
    | classOf _ | null => exact FailsOnly.error rfl
    | _ => apply FailsOnly.ok
  have hconstant : FailsOnly (Unsupported.isForeseen · = true) f.constantEntry? := by
    unfold Field.constantEntry?
    split
    · apply FailsOnly.ok
    · next literal hliteral =>
      split
      · apply (hentry literal).bind
        intro entry _
        apply FailsOnly.ok
      · exact FailsOnly.error rfl
  apply FailsOnly.bind (FailsOnly.mapError hconstant)
  intro constant _
  apply FailsOnly.ok

namespace ClassModel.ArraysValued

variable {c : ClassModel} {optimizer : Optimizer}

/-- The plan of a class fails only for what is foreseen. -/
theorem plan_failsOnly (h : c.ArraysValued) :
  FailsOnly CompileError.Foreseen (c.plan optimizer).outcome
  := by
  rw [ClassModel.plan, Traced.outcome_bind]
  apply FailsOnly.bind (FailsOnly.mapM fun f _ => f.plan_failsOnly)
  intro fields _
  rw [Traced.outcome_bind]
  apply FailsOnly.bind (FailsOnly.outcome_mapM fun m hm => (h m hm).plan_failsOnly)
  intro methods _
  apply FailsOnly.ok

/-- The code of a planned class is linked. -/
theorem linked_of_plan {plan : ClassPlan} (h : c.ArraysValued) (hoptimizer : optimizer.KeepsLinked)
    (hplan : (c.plan optimizer).outcome = .ok plan) :
  ∀ m ∈ plan.methods, ∀ code ∈ m.code, code.Linked
  := by
  rw [ClassModel.plan, Traced.outcome_bind] at hplan
  obtain ⟨fields, -, hplan⟩ := Except.bind_eq_ok_iff.mp hplan
  rw [Traced.outcome_bind, Traced.outcome_mapM] at hplan
  obtain ⟨methods, hmethods, hplan⟩ := Except.bind_eq_ok_iff.mp hplan
  obtain rfl := Except.ok.inj hplan
  intro p hp
  obtain ⟨m, hm, hp⟩ := (Except.mapM_eq_ok_iff.mp hmethods).exists_of_mem_right hp
  apply (h m hm).linked_of_plan hoptimizer hp

end ClassModel.ArraysValued

/-- If a class cannot be built then because of what is in it, if only it creates no arrays
whose elements would have no values. -/
theorem build_error_foreseen {c : ClassModel} {version : ClassVersion} {optimizer : Optimizer}
    {e : CompileError} (harrays : c.ArraysValued)
    (hoptimizer : optimizer = .peephole ∨ optimizer = .none)
    (h : (c.build version optimizer).outcome = .error e) :
  e.root.isForeseen = true
  := by
  have hkeeps : optimizer.KeepsLinked := by
    obtain rfl | rfl := hoptimizer
    · apply Optimizer.peephole_keepsLinked
    · apply Optimizer.none_keepsLinked
  have hbuild : FailsOnly CompileError.Foreseen (c.build version optimizer).outcome := by
    apply FailsOnly.mapError
    rw [Traced.outcome_bind]
    apply harrays.plan_failsOnly.bind
    intro plan hplan
    rw [Traced.outcome_bind]
    apply (plan.pool_failsOnly.imp fun e he => he.foreseen).bind
    intro pool hpool
    obtain ⟨hclosed, hneeds⟩ := ClassPlan.pool_eq_ok hpool
    apply ClassPlan.classFile_failsOnly _ hclosed.records_failsOnly hneeds
    intro m hm code hcode
    have hlinked := harrays.linked_of_plan hkeeps hplan m hm code hcode
    apply (hlinked.assemble_failsOnly fun e he => hneeds e (plan.mem_needs hm hcode he)).imp
    intro e he
    apply he.foreseen
  apply hbuild.of_error h

/-- A method that creates an array with rows and then does not return it. -/
def rows : Method :=
  ⟨"rows", staticFlag, [], [⟨"n", .int⟩], .array (.array .int), [],
    some ⟨[], [.eval (.newArray (.array (.array .int)) [.var "n"]), .ret none], []⟩⟩

/-- A class with only that method. -/
def grid : ClassModel :=
  ⟨⟨⟨[], ["Grid"]⟩, []⟩, none, [], 0, [], [], [rows], [], none⟩

/-- The grid creates no array with one dimension whose elements would have no values. -/
theorem grid_arraysValued :
  grid.ArraysValued
  := by
  intro m hm body hbody s hs e he elem length hwithin
  obtain rfl := List.mem_singleton.mp hm
  obtain rfl := Option.some.inj hbody
  obtain rfl | hs := List.mem_cons.mp hs
  · obtain rfl := List.mem_singleton.mp he
    cases hwithin with
    | refl => rfl
    | operand hoperand hwithin =>
        obtain rfl := List.mem_singleton.mp hoperand
        cases hwithin with
        | operand hoperand _ => contradiction
  · obtain rfl := List.mem_singleton.mp hs
    contradiction

/-- Why that class cannot be built. -/
def gridError : CompileError :=
  .inClass "Grid" (.inMethod "rows" "(I)[[I" (.unsupported .returnWithoutValue))

theorem build_grid_error_foreseen :
  grid.ArraysValued ∧ (grid.build {} .peephole).outcome = .error gridError
    ∧ gridError.root.isForeseen = true
  := by
  have hbuild : (grid.build {} .peephole).outcome = .error gridError := by
    cbv
  use grid_arraysValued, hbuild
  apply build_error_foreseen grid_arraysValued (.inl rfl) hbuild

end ClassForge
