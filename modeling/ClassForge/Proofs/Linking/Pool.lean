import ClassForge.Build.ClassFile
import ClassForge.Proofs.Linking.Errors

/-!
# Pools in which nothing is missing

An entry is stored after everything that it refers to. So in a pool whose entries have been
interned each entry finds what it refers to, and all that goes wrong with it is that it gets
too large.
-/

namespace ClassForge

/-! ### Storing entries -/

namespace ConstantPool

variable {pool pool' : ConstantPool} {e : PoolEntry}

/-- What an entry of the pool refers to is in the pool. -/
structure Closed (pool : ConstantPool) : Prop where
  children : ∀ entry ∈ pool.entries, ∀ child ∈ entry.2.children, child ∈ pool.indices

/-- The second pool has what the first one has, and nothing is missing from it if nothing was
missing before. -/
structure Grows (pool pool' : ConstantPool) : Prop where
  closed : pool.Closed → pool'.Closed
  mem : ∀ {e}, e ∈ pool.indices → e ∈ pool'.indices

theorem closed_empty :
  empty.Closed
  := by
  constructor
  intro entry hentry
  simp [empty] at hentry

theorem Grows.refl (pool : ConstantPool) :
  pool.Grows pool
  := ⟨id, id⟩

theorem Grows.trans {pool₁ pool₂ pool₃ : ConstantPool} (h : pool₁.Grows pool₂)
    (h' : pool₂.Grows pool₃) :
  pool₁.Grows pool₃
  := ⟨fun hclosed => h'.closed (h.closed hclosed), fun hmem => h'.mem (h.mem hmem)⟩

theorem mem_push {e' : PoolEntry} :
  e' ∈ (pool.push e).indices ↔ e = e' ∨ e' ∈ pool.indices
  := by
  obtain ⟨entries, indices, next⟩ := pool
  simp [push]

/-- A pool grows by an entry if what it refers to is there. -/
theorem grows_push (hchildren : ∀ child ∈ e.children, child ∈ pool.indices) :
  pool.Grows (pool.push e)
  := by
  constructor
  · intro hclosed
    constructor
    intro entry hentry child hchild
    have hentry : entry ∈ pool.entries ∨ entry.2 = e := by
      obtain ⟨entries, indices, next⟩ := pool
      obtain hentry | rfl := Array.mem_push.mp hentry
      · left
        apply hentry
      · right
        rfl
    rw [mem_push]
    right
    obtain hentry | rfl := hentry
    · apply hclosed.children entry hentry child hchild
    · apply hchildren child hchild
  · intro e' he'
    rw [mem_push]
    right
    apply he'

/-- An entry is in the pool after it has been stored. -/
theorem store_eq_ok {index : UInt16} (h : store e pool = .ok index pool')
    (hchildren : ∀ child ∈ e.children, child ∈ pool.indices) :
  pool.Grows pool' ∧ e ∈ pool'.indices
  := by
  unfold store at h
  split at h
  · next index' hindex =>
    obtain ⟨-, rfl⟩ := EStateM.Result.ok.inj h
    obtain ⟨hmem, -⟩ := Std.HashMap.getElem?_eq_some_iff.mp hindex
    use Grows.refl pool
  · split at h
    · contradiction
    · obtain ⟨-, rfl⟩ := EStateM.Result.ok.inj h
      use grows_push hchildren
      rw [mem_push]
      left
      rfl

/-- An entry can be stored unless the pool is full. -/
theorem store_eq_error {err : PoolError} (h : store e pool = .error err pool') :
  err.isOverflow = true
  := by
  unfold store at h
  split at h
  · contradiction
  · split at h
    · obtain ⟨rfl, -⟩ := EStateM.Result.error.inj h
      rfl
    · contradiction

/-- Each entry comes after what it refers to, some of which may be known before. -/
def ChildrenFirst (known : PoolEntry → Prop) : List PoolEntry → Prop
  | [] => True
  | e :: rest =>
    (∀ child ∈ e.children, known child) ∧ ChildrenFirst (fun e' => known e' ∨ e' = e) rest

/-- It does no harm if more is known before. -/
theorem ChildrenFirst.imp {known known' : PoolEntry → Prop} {es : List PoolEntry}
    (h : ChildrenFirst known es) (himp : ∀ e, known e → known' e) :
  ChildrenFirst known' es
  := by
  induction es generalizing known known' with
  | nil => trivial
  | cons e es ih =>
      constructor
      · intro child hchild
        apply himp child (h.1 child hchild)
      · apply ih h.2
        intro e' he'
        apply he'.imp_left (himp e')

theorem mem_parts_of_mem_children {child : PoolEntry} (h : child ∈ e.children) :
  child ∈ e.parts
  := by
  apply List.mem_flatMap.mpr ⟨child, h, _⟩
  apply List.mem_append_right
  apply List.mem_singleton_self

/-- The entries below an entry come after what they refer to. -/
theorem childrenFirst_parts (known : PoolEntry → Prop) (e : PoolEntry) :
  ChildrenFirst known e.parts
  := by
  cases e <;> simp [PoolEntry.parts, PoolEntry.children, ChildrenFirst]

/-- Entries can be stored one after another if each comes after what it refers to. -/
theorem storeAll_eq_ok {es : List PoolEntry}
    (h : es.forM (fun e => discard (store e)) pool = .ok () pool')
    (hfirst : ChildrenFirst (· ∈ pool.indices) es) :
  pool.Grows pool' ∧ ∀ e ∈ es, e ∈ pool'.indices
  := by
  induction es generalizing pool with
  | nil =>
      obtain ⟨-, rfl⟩ := EStateM.Result.ok.inj h
      use Grows.refl pool
      nofun
  | cons e es ih =>
      obtain ⟨_, pool₁, hstore, h⟩ := EStateM.bind_eq_ok_iff.mp h
      obtain ⟨index, hstore⟩ := EStateM.discard_eq_ok_iff.mp hstore
      obtain ⟨hgrows, hmem⟩ := store_eq_ok hstore hfirst.1
      have hrest : ChildrenFirst (· ∈ pool₁.indices) es := by
        apply hfirst.2.imp
        rintro e' (he' | rfl)
        · apply hgrows.mem he'
        · apply hmem
      obtain ⟨hgrows', hmem'⟩ := ih h hrest
      use hgrows.trans hgrows'
      intro e' he'
      obtain rfl | he' := List.mem_cons.mp he'
      · apply hgrows'.mem hmem
      · apply hmem' e' he'

/-- Entries cannot be stored only if the indices run out. -/
theorem storeAll_eq_error {es : List PoolEntry} {err : PoolError}
    (h : es.forM (fun e => discard (store e)) pool = .error err pool') :
  err.isOverflow = true
  := by
  induction es generalizing pool with
  | nil => contradiction
  | cons e es ih =>
      obtain h | ⟨_, pool₁, -, h⟩ := EStateM.bind_eq_error_iff.mp h
      · apply store_eq_error (EStateM.discard_eq_error_iff.mp h)
      · apply ih h

/-! ### Interning entries -/

/-- Afterwards the entries are in the pool, unless it has failed as can be expected. -/
structure Interns {ε α : Type} (P : ε → Prop) (x : EStateM ε ConstantPool α)
    (es : List PoolEntry) : Prop where
  of_ok : ∀ {pool a pool'}, x pool = .ok a pool' → pool.Grows pool' ∧ ∀ e ∈ es, e ∈ pool'.indices
  of_error : ∀ {pool e pool'}, x pool = .error e pool' → P e

theorem intern_of_some {index : UInt16} (h : pool.index? e = some index) :
  intern e pool = .ok index pool
  := by
  apply EStateM.bind_eq_ok_iff.mpr ⟨pool, pool, rfl, _⟩
  simp only [h]
  rfl

theorem intern_of_none (h : pool.index? e = none) :
  intern e pool = (e.parts.forM (fun part => discard (store part)) >>= fun _ => store e) pool
  := by
  have hget : (get : EStateM PoolError ConstantPool ConstantPool) pool = .ok pool pool := rfl
  unfold intern
  simp only [bind, EStateM.bind, hget, h]

/-- An entry is in the pool after it has been interned. -/
theorem intern_interns (e : PoolEntry) :
  Interns (PoolError.isOverflow · = true) (intern e) [e]
  := by
  constructor
  · intro pool index pool' h
    cases hindex : pool.index? e with
    | some index' =>
        rw [intern_of_some hindex] at h
        obtain ⟨-, rfl⟩ := EStateM.Result.ok.inj h
        obtain ⟨hmem, -⟩ := Std.HashMap.getElem?_eq_some_iff.mp hindex
        use Grows.refl pool
        intro e' he'
        obtain rfl := List.mem_singleton.mp he'
        apply hmem
    | none =>
        rw [intern_of_none hindex] at h
        obtain ⟨_, pool₁, hparts, h⟩ := EStateM.bind_eq_ok_iff.mp h
        obtain ⟨hgrows, hmem⟩ := storeAll_eq_ok hparts (childrenFirst_parts _ e)
        obtain ⟨hgrows', hmem'⟩ := store_eq_ok h fun child hchild =>
          hmem child (mem_parts_of_mem_children hchild)
        use hgrows.trans hgrows'
        intro e' he'
        obtain rfl := List.mem_singleton.mp he'
        apply hmem'
  · intro pool err pool' h
    cases hindex : pool.index? e with
    | some index' =>
        rw [intern_of_some hindex] at h
        contradiction
    | none =>
        rw [intern_of_none hindex] at h
        obtain h | ⟨_, _, -, h⟩ := EStateM.bind_eq_error_iff.mp h
        · apply storeAll_eq_error h
        · apply store_eq_error h

namespace Interns

variable {ε α β : Type} {P : ε → Prop} {es es' : List PoolEntry}

/-- What is interned one after the other is interned together. -/
theorem bind {x : EStateM ε ConstantPool α} {f : α → EStateM ε ConstantPool β}
    (hx : Interns P x es) (hf : ∀ a, Interns P (f a) es') :
  Interns P (x >>= f) (es ++ es')
  := by
  constructor
  · intro pool b pool' h
    obtain ⟨a, pool₁, hx', h⟩ := EStateM.bind_eq_ok_iff.mp h
    obtain ⟨hgrows, hmem⟩ := hx.of_ok hx'
    obtain ⟨hgrows', hmem'⟩ := (hf a).of_ok h
    use hgrows.trans hgrows'
    intro e he
    obtain he | he := List.mem_append.mp he
    · apply hgrows'.mem (hmem e he)
    · apply hmem' e he
  · intro pool e pool' h
    obtain h | ⟨a, pool₁, -, h⟩ := EStateM.bind_eq_error_iff.mp h
    · apply hx.of_error h
    · apply (hf a).of_error h

/-- What is interned does not depend on the value that is given. -/
theorem discard {x : EStateM ε ConstantPool α} (hx : Interns P x es) :
  Interns P (discard x) es
  := by
  constructor
  · intro pool _ pool' h
    obtain ⟨a, h⟩ := EStateM.discard_eq_ok_iff.mp h
    apply hx.of_ok h
  · intro pool e pool' h
    apply hx.of_error (EStateM.discard_eq_error_iff.mp h)

/-- What is interned for each element is interned for the list. -/
theorem forM {f : α → EStateM ε ConstantPool Unit} {needs : α → List PoolEntry} {as : List α}
    (h : ∀ a ∈ as, Interns P (f a) (needs a)) :
  Interns P (as.forM f) (as.flatMap needs)
  := by
  induction as with
  | nil =>
      constructor
      · intro pool _ pool' h
        obtain ⟨-, rfl⟩ := EStateM.Result.ok.inj h
        use Grows.refl pool
        nofun
      · intro pool e pool' h
        contradiction
  | cons a as ih =>
      rw [List.flatMap_cons]
      apply (h a List.mem_cons_self).bind
      intro _
      apply ih fun a' ha' => h a' (List.mem_cons_of_mem a ha')

/-- What is interned does not depend on how an error is told. -/
theorem adaptExcept {ε' : Type} {P' : ε' → Prop} {g : ε → ε'} {x : EStateM ε ConstantPool α}
    (hx : Interns P x es) (hg : ∀ e, P e → P' (g e)) :
  Interns P' (EStateM.adaptExcept g x) es
  := by
  constructor
  · intro pool a pool' h
    unfold EStateM.adaptExcept at h
    split at h
    · contradiction
    · next hx' =>
      obtain ⟨rfl, rfl⟩ := EStateM.Result.ok.inj h
      apply hx.of_ok hx'
  · intro pool e pool' h
    unfold EStateM.adaptExcept at h
    split at h
    · next hx' =>
      obtain ⟨rfl, rfl⟩ := EStateM.Result.error.inj h
      apply hg _ (hx.of_error hx')
    · contradiction

end Interns

/-- Interning entries stores all of them or overflows. -/
theorem internAll_interns (es : List PoolEntry) :
  Interns (PoolError.isOverflow · = true) (internAll es) es
  := by
  have hall : Interns (PoolError.isOverflow · = true) (internAll es) (es.flatMap fun e => [e]) :=
    Interns.forM fun e _ => (intern_interns e).discard
  rw [List.flatMap_singleton'] at hall
  apply hall

end ConstantPool

/-! ### The pool of a class -/

open ConstantPool

/-- The entries that a class needs. -/
def ClassPlan.needs (p : ClassPlan) : List PoolEntry :=
  p.headNeeds ++ (p.fields.flatMap FieldPlan.needs ++ (p.methods.flatMap MethodPlan.needs
    ++ (p.innerNeeds ++ p.sourceNeeds)))

/-- What the code of a method needs is needed by the class. -/
theorem ClassPlan.mem_needs {p : ClassPlan} {m : MethodPlan} (hm : m ∈ p.methods)
    {code : MethodCode} (hcode : code ∈ m.code) {e : PoolEntry} (he : e ∈ code.needs) :
  e ∈ p.needs
  := by
  have hmethod : e ∈ m.needs := by
    rw [MethodPlan.needs, show m.code = some code from hcode]
    simp [he]
  rw [ClassPlan.needs]
  apply List.mem_append_right
  apply List.mem_append_right
  apply List.mem_append_left
  apply List.mem_flatMap.mpr ⟨m, hm, hmethod⟩

theorem ClassPlan.internFor_interns (blame : CompileError → CompileError)
    (hblame : ∀ e, (blame e).root = e.root) (es : List PoolEntry) :
  Interns CompileError.Overflow (internFor blame es) es
  := by
  apply (internAll_interns es).adaptExcept
  intro e he
  rw [CompileError.Overflow, hblame]
  use e, rfl

/-- All that a class needs is in the pool after it has been interned. -/
theorem ClassPlan.internNeeds_interns (p : ClassPlan) :
  Interns CompileError.Overflow p.internNeeds p.needs
  := by
  apply (internFor_interns id (fun _ => rfl) p.headNeeds).bind
  intro _
  apply (Interns.forM fun field _ => internFor_interns id (fun _ => rfl) field.needs).bind
  intro _
  apply (Interns.forM fun method _ =>
    internFor_interns method.method.blame (fun _ => rfl) method.needs).bind
  intro _
  apply (internFor_interns id (fun _ => rfl) p.innerNeeds).bind
  intro _
  apply internFor_interns id fun _ => rfl

/-- What an entry of the pool refers to is in the pool. -/
structure FrozenPool.Closed (pool : FrozenPool) : Prop where
  children : ∀ entry ∈ pool.entries, ∀ child ∈ entry.2.children, child ∈ pool.indices

/-- A pool cannot be made only if it overflows. -/
theorem ClassPlan.pool_failsOnly (p : ClassPlan) :
  FailsOnly CompileError.Overflow p.pool.outcome
  := by
  constructor
  intro e he
  unfold ClassPlan.pool at he
  split at he
  · contradiction
  · next hneeds =>
    obtain rfl := Except.error.inj he
    apply p.internNeeds_interns.of_error hneeds

/-- Nothing is missing from the pool of a class. -/
theorem ClassPlan.pool_eq_ok {p : ClassPlan} {pool : FrozenPool} (h : p.pool.outcome = .ok pool) :
  pool.Closed ∧ ∀ e ∈ p.needs, e ∈ pool.indices
  := by
  unfold ClassPlan.pool at h
  split at h
  · next hneeds =>
    obtain rfl := Except.ok.inj h
    obtain ⟨hgrows, hmem⟩ := p.internNeeds_interns.of_ok hneeds
    have hclosed := hgrows.closed closed_empty
    use ⟨hclosed.children⟩, hmem
  · contradiction

/-! ### Records -/

namespace FrozenPool

variable {pool : FrozenPool}

theorem exists_indexOf {e : PoolEntry} (h : e ∈ pool.indices) :
  ∃ index, pool.indexOf e = .ok index
  := by
  use pool.indices[e]
  rw [FrozenPool.indexOf, Std.HashMap.getElem?_eq_some_getElem h]

/-- The record of an entry can be given unless a text is too long. -/
theorem record_failsOnly {e : PoolEntry} (h : ∀ child ∈ e.children, child ∈ pool.indices) :
  FailsOnly (PoolError.isForeseen · = true) (pool.record e)
  := by
  have hindex {child : PoolEntry} (hchild : child ∈ e.children) :
      FailsOnly (PoolError.isForeseen · = true) (pool.indexOf child) := by
    obtain ⟨index, hindex⟩ := exists_indexOf (h child hchild)
    apply FailsOnly.of_eq_ok hindex
  have hmember {m : MemberRef} (howner : .classRef m.owner ∈ e.children)
      (hmember : .nameAndType m.name m.descriptor ∈ e.children) :
      FailsOnly (PoolError.isForeseen · = true) (pool.memberIndices m) := by
    apply (hindex howner).bind
    intro owner _
    apply (hindex hmember).bind
    intro member _
    apply FailsOnly.ok
  cases e with
  | utf8 text =>
      rw [record, Record.ofText]
      split
      · apply FailsOnly.ok
      · exact FailsOnly.error rfl
  | string text =>
      apply (hindex List.mem_cons_self).bind
      intro index _
      apply FailsOnly.ok
  | classRef name =>
      apply (hindex List.mem_cons_self).bind
      intro index _
      apply FailsOnly.ok
  | nameAndType name descriptor =>
      apply (hindex List.mem_cons_self).bind
      intro name _
      apply (hindex (List.mem_cons_of_mem _ List.mem_cons_self)).bind
      intro descriptor _
      apply FailsOnly.ok
  | fieldRef m | methodRef m | interfaceMethodRef m =>
      apply (hmember List.mem_cons_self (List.mem_cons_of_mem _ List.mem_cons_self)).bind
      intro indices _
      apply FailsOnly.ok
  | integer _ | float _ | long _ | double _ => apply FailsOnly.ok

/-- The records of a closed pool fail only for what is foreseen. -/
theorem Closed.records_failsOnly (h : pool.Closed) :
  FailsOnly (PoolError.isForeseen · = true) pool.records
  := by
  apply FailsOnly.bind
  · apply FailsOnly.mapM
    intro entry hentry
    apply record_failsOnly (h.children entry (Array.mem_toList_iff.mp hentry))
  · intro records _
    apply FailsOnly.ok

end FrozenPool

end ClassForge
