import ClassForge.Compile
import ClassForge.Proofs.Build.Rereading
import ClassForge.Proofs.Linking.Build
import ClassForge.Proofs.Listing.Circles

/-!
# Classes within the limits

A class whose plan is made can be compiled exactly if its constant pool has at most 65534 places
and the code of its methods is within the limits of the format, provided that its code is linked
and without large switches and its texts are short enough. It is then compiled to bytes and to a
listing alike: a constant in a class file that was built refers to earlier ones only, so its
references end.
-/

namespace ClassForge

/-! ### The pool -/

/-- The order of entries does not matter for the places that they take. -/
theorem ConstantPool.totalWidth_eq_of_perm {es es' : List PoolEntry} (h : es.Perm es') :
  totalWidth es = totalWidth es'
  := by
  induction h with
  | nil => rfl
  | cons e _ ih => rw [totalWidth, totalWidth, ih]
  | swap e e' es =>
      simp only [totalWidth]
      omega
  | trans _ _ ih ih' => rw [ih, ih']

/-- Entries that are all different take no more places than others that include them. -/
theorem ConstantPool.totalWidth_le_of_subset {es es' : List PoolEntry} (hnodup : es.Nodup)
    (hsubset : es ⊆ es') :
  totalWidth es ≤ totalWidth es'
  := by
  obtain ⟨es'', hperm, hsublist⟩ := hnodup.subperm hsubset
  rw [← totalWidth_eq_of_perm hperm]
  apply totalWidth_le_of_sublist hsublist

theorem ConstantPool.stored_foldl_push (es : List PoolEntry) (pool : ConstantPool) :
  (es.foldl push pool).stored = pool.stored ++ es
  := by
  induction es generalizing pool with
  | nil => rw [List.foldl_nil, List.append_nil]
  | cons e es ih => rw [List.foldl_cons, ih, stored_push, List.append_assoc, List.singleton_append]

namespace ClassPlan

variable {p : ClassPlan}

theorem mem_entries_iff {e : PoolEntry} :
  e ∈ p.entries ↔ ∃ need ∈ p.needs, e ∈ need.closure
  := by
  rw [entries, ConstantPool.mem_unknown_iff, List.mem_flatMap]
  simp

/-- The pool of a class holds its entries, if they have place in it, and there is no other. -/
theorem pool_eq_ok_iff {frozen : FrozenPool} :
  p.pool.outcome = .ok frozen ↔ 1 + ConstantPool.totalWidth p.entries ≤ 65535
    ∧ (p.entries.foldl ConstantPool.push .empty).freeze = frozen
  := by
  constructor
  · intro h
    obtain ⟨pool, hsound, rfl⟩ := exists_sound_of_pool h
    obtain ⟨-, hneeds⟩ := pool_eq_ok h
    have hsubset : p.entries ⊆ pool.stored := by
      intro e he
      obtain ⟨need, hneed, he⟩ := mem_entries_iff.mp he
      apply ConstantPool.mem_stored_iff.mpr
      apply hsound.mem_indices_iff.mp
      apply hsound.mem_of_reflTransGen (hneeds need hneed) (PoolEntry.mem_closure_iff.mp he)
    have hfits : 1 + ConstantPool.totalWidth p.entries ≤ 65535 := by
      have hle := ConstantPool.totalWidth_le_of_subset (ConstantPool.nodup_unknown _ _) hsubset
      have hnext := hsound.next_le
      rw [hsound.next_eq] at hnext
      exact Nat.le_trans (Nat.add_le_add_left hle 1) hnext
    use hfits
    apply Except.ok.inj ((pool_of_fits hfits).symm.trans h)
  · rintro ⟨hfits, rfl⟩
    apply pool_of_fits hfits

/-! ### The class file -/

/-- The class is within the limits of the format. -/
structure WithinLimits (p : ClassPlan) : Prop where
  pool : 1 + ConstantPool.totalWidth p.entries ≤ 65535
  code : ∀ pool, p.pool.outcome = .ok pool → ∀ m ∈ p.methods, ∀ code ∈ m.code,
    code.WithinLimits pool
  calls : ∀ m ∈ p.methods, ∀ code ∈ m.code, code.CallsCounted

/-- The code of the class is linked and without large switches, and its texts are short enough. -/
structure Linked (p : ClassPlan) : Prop where
  code : ∀ m ∈ p.methods, ∀ code ∈ m.code, code.Linked
  switches : ∀ m ∈ p.methods, ∀ code ∈ m.code, SwitchesMade code.instructions
  texts : ∀ text, .utf8 text ∈ p.entries → (Text.ModifiedUtf8.encode text).length ≤ 65535

variable {pool : FrozenPool} {version : ClassVersion} {P : CompileError → Prop}

/-- The pool of a linked class has records, since its texts are short enough. -/
theorem Linked.records_failsOnly {P : PoolError → Prop} (h : p.Linked)
    (hpool : p.pool.outcome = .ok pool) :
  FailsOnly P pool.records
  := by
  obtain ⟨cp, hsound, rfl⟩ := exists_sound_of_pool hpool
  apply hsound.records_failsOnly.imp
  rintro _ ⟨i, text, hmem, hlong, -⟩
  have hstored : PoolEntry.utf8 text ∈ (p.entries.foldl ConstantPool.push .empty).stored := by
    have hentries : (p.entries.foldl ConstantPool.push .empty).entries = cp.entries :=
      congrArg FrozenPool.entries (pool_eq_ok_iff.mp hpool).2
    apply ConstantPool.mem_stored_iff.mpr ⟨i, _⟩
    rwa [hentries]
  rw [ConstantPool.stored_foldl_push] at hstored
  have hle := h.texts text hstored
  omega

/-- A linked class can be written with its pool unless some code goes beyond the limits. -/
theorem Linked.classFile_failsOnly (h : p.Linked) (hpool : p.pool.outcome = .ok pool)
    (hexceeds : ∀ m ∈ p.methods, ∀ code ∈ m.code, ∀ e, code.Exceeds pool e →
      P (m.method.blame e)) :
  FailsOnly P (p.classFile version pool).outcome
  := by
  obtain ⟨-, hneeds⟩ := pool_eq_ok hpool
  apply ClassPlan.classFile_failsOnly _ (h.records_failsOnly hpool) hneeds
  intro m hm code hcode
  have hassemble := (h.code m hm code hcode).assemble_failsOnly fun e he =>
    hneeds e (mem_needs hm hcode he)
  apply hassemble.imp (hexceeds m hm code hcode)

/-- The code of a class that was written has been assembled. -/
theorem exists_assemble_of_classFile {file : ClassFile}
    (h : (p.classFile version pool).outcome = .ok file) {m : MethodPlan} (hm : m ∈ p.methods)
    {code : MethodCode} (hcode : code ∈ m.code) :
  ∃ out, (code.assemble pool).outcome = .ok out
  := by
  obtain ⟨info, -, hinfo⟩ :=
    (Except.mapM_eq_ok_iff.mp (madeInto_of_ok h).methods).exists_of_mem_left hm
  obtain ⟨attributes, -, -, hattributes, -⟩ := MethodPlan.info_eq_ok hinfo
  rw [MethodPlan.codeAttribute, show m.code = some code from hcode, Traced.outcome_bind]
    at hattributes
  obtain ⟨out, hout, -⟩ := Except.bind_eq_ok_iff.mp hattributes
  use out

end ClassPlan

/-! ### Building -/

namespace ClassModel

variable {c : ClassModel} {version : ClassVersion} {optimizer : Optimizer} {p : ClassPlan}

/-- A linked class is refused only if there are too many entries, or if some code goes beyond the
limits. -/
theorem build_failsOnly {P : CompileError → Prop} (hplan : (c.plan optimizer).outcome = .ok p)
    (hlinked : p.Linked)
    (hoverflow : 65535 < 1 + ConstantPool.totalWidth p.entries → ∀ e : CompileError, e.Overflow →
      P (.inClass c.type.name.internal e))
    (hexceeds : ∀ pool, p.pool.outcome = .ok pool → ∀ m ∈ p.methods, ∀ code ∈ m.code, ∀ e,
      code.Exceeds pool e → P (.inClass c.type.name.internal (m.method.blame e))) :
  FailsOnly P (c.build version optimizer).outcome
  := by
  apply FailsOnly.mapError
  rw [Traced.outcome_bind, hplan]
  apply (FailsOnly.ok p).bind
  intro p' hp'
  obtain rfl := Except.ok.inj hp'
  have hpool : FailsOnly (fun e => P (.inClass c.type.name.internal e)) p.pool.outcome := by
    by_cases hfits : 1 + ConstantPool.totalWidth p.entries ≤ 65535
    · apply FailsOnly.of_eq_ok (ClassPlan.pool_of_fits hfits)
    · apply p.pool_failsOnly.imp (hoverflow (Nat.lt_of_not_le hfits))
  rw [Traced.outcome_bind]
  apply hpool.bind
  intro pool hpool
  apply hlinked.classFile_failsOnly hpool (hexceeds pool hpool)

/-- A linked class can be built exactly if it is within the limits. -/
theorem exists_build_iff (hplan : (c.plan optimizer).outcome = .ok p) (hlinked : p.Linked) :
  (∃ file, (c.build version optimizer).outcome = .ok file) ↔ p.WithinLimits
  := by
  constructor
  · rintro ⟨file, hfile⟩
    obtain ⟨p', pool, hplan', hpool, hfile⟩ := exists_plan_of_build hfile
    obtain rfl := Except.ok.inj (hplan.symm.trans hplan')
    use (ClassPlan.pool_eq_ok_iff.mp hpool).1
    · intro pool' hpool' m hm code hcode
      obtain rfl := Except.ok.inj (hpool.symm.trans hpool')
      obtain ⟨out, hout⟩ := ClassPlan.exists_assemble_of_classFile hfile hm hcode
      apply MethodCode.withinLimits_of_assemble (hlinked.switches m hm code hcode) hout
    · intro m hm code hcode
      obtain ⟨out, hout⟩ := ClassPlan.exists_assemble_of_classFile hfile hm hcode
      apply MethodCode.callsCounted_of_assemble hout
  · intro hwithin
    have hbuild : FailsOnly (fun _ => False) (c.build version optimizer).outcome := by
      apply build_failsOnly hplan hlinked
      · intro hfull
        apply absurd hwithin.pool (Nat.not_le_of_lt hfull)
      · intro pool hpool m hm code hcode e he
        apply (hwithin.code pool hpool m hm code hcode).not_exceeds
          (hwithin.calls m hm code hcode) (hlinked.switches m hm code hcode) e he
    apply hbuild.exists_ok fun _ => id

/-! ### Compiling -/

/-- A class file that was built has a listing. -/
theorem exists_listing?_of_build {file : ClassFile}
    (h : (c.build version optimizer).outcome = .ok file) :
  ∃ text, file.listing? = some text
  := by
  obtain ⟨p, pool, -, hpool, hfile⟩ := exists_plan_of_build h
  obtain ⟨cp, hsound, rfl⟩ := ClassPlan.exists_sound_of_pool hpool
  have hstored := hsound.storedAs (ClassPlan.madeInto_of_ok hfile).constPool
  have hlt {index next : UInt16} (hleads : file.LeadsTo index next) :
      next.toNat < index.toNat := by
    obtain ⟨hne, -⟩ := hleads.bounds
    obtain ⟨r, hr, hnext⟩ : ∃ r, file.constant? index = some r ∧ next ∈ r.references := by
      obtain ⟨owner, hr | hr | hr⟩ := hleads <;> exact ⟨_, hr, by simp [Record.references]⟩
    rw [ClassFile.constant?, if_neg hne, ← Array.getElem?_toList] at hr
    have hearlier := hstored.earlier hr next hnext
    have hpos : index.toNat ≠ 0 := fun hzero => hne (UInt16.toNat_inj.mp hzero)
    omega
  apply ClassFile.exists_listing?
  apply ClassFile.isSome_summary?_iff.mpr
  intro index hcircle
  have htrans {index next : UInt16} (hreach : Relation.TransGen file.LeadsTo index next) :
      next.toNat < index.toNat := by
    induction hreach with
    | single hleads => apply hlt hleads
    | tail _ hleads ih => apply Nat.lt_trans (hlt hleads) ih
  apply Nat.lt_irrefl _ (htrans hcircle)

theorem outcome_compile (options : CompileOptions) :
  (c.compile options).outcome
    = (c.build options.version options.optimizer).outcome.map ClassFile.toBytes
  := by
  rw [compile, Traced.outcome_bind]
  cases (c.build options.version options.optimizer).outcome <;> rfl

theorem exists_compile_iff {options : CompileOptions} :
  (∃ bytes, (c.compile options).outcome = .ok bytes)
    ↔ ∃ file, (c.build options.version options.optimizer).outcome = .ok file
  := by
  rw [outcome_compile]
  cases (c.build options.version options.optimizer).outcome <;> simp [Except.map]

theorem outcome_listing? (options : CompileOptions) :
  (c.listing? options).outcome
    = (c.build options.version options.optimizer).outcome.map ClassFile.listing?
  := by
  rw [listing?, Traced.outcome_bind]
  cases (c.build options.version options.optimizer).outcome <;> rfl

/-- The class is compiled, to bytes and to a listing. -/
def Compiles (c : ClassModel) (options : CompileOptions) : Prop :=
  (∃ bytes, (c.compile options).outcome = .ok bytes)
    ∧ ∃ text, (c.listing? options).outcome = .ok (some text)

/-- A class is compiled as soon as it is built. -/
theorem compiles_iff {options : CompileOptions} :
  c.Compiles options
    ↔ ∃ file, (c.build options.version options.optimizer).outcome = .ok file
  := by
  rw [Compiles, exists_compile_iff, outcome_listing?]
  cases hbuild : (c.build options.version options.optimizer).outcome with
  | error e => simp
  | ok file =>
      obtain ⟨text, htext⟩ := exists_listing?_of_build hbuild
      simp [Except.map, htext]

end ClassModel

end ClassForge
