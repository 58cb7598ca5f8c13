import ClassForge.Proofs.Linking.Pool

/-!
# How the entries of a pool are numbered

A pool numbers its entries from one, each next to those before it, and knows the number of each
of them. Whatever is interned, and whether it fits or not, this stays so and what the pool has
it keeps. So once the pool is frozen, the entry at an index is the one that has this index.
-/

namespace ClassForge

namespace ConstantPool

variable {pool pool' : ConstantPool} {e : PoolEntry} {i : UInt16}

/-! ### Consecutive indices -/

/-- The number of indices that entries take together. -/
def totalWidth : List PoolEntry → Nat
  | [] => 0
  | e :: es => e.width + totalWidth es

/-- The first entry has index `n`, and each other one the index that follows those taken by the
entry before it. -/
def NumberedFrom : Nat → List (UInt16 × PoolEntry) → Prop
  | _, [] => True
  | n, (i, e) :: rest => i.toNat = n ∧ NumberedFrom (n + e.width) rest

theorem width_pos (e : PoolEntry) :
  0 < e.width
  := by
  cases e <;> exact Nat.succ_pos _

theorem totalWidth_append (es es' : List PoolEntry) :
  totalWidth (es ++ es') = totalWidth es + totalWidth es'
  := by
  induction es with
  | nil => simp [totalWidth]
  | cons e es ih =>
      rw [List.cons_append, totalWidth, ih, totalWidth]
      omega

/-- One more entry is numbered after all that come before it. -/
theorem numberedFrom_append {n : Nat} {entries : List (UInt16 × PoolEntry)} :
  NumberedFrom n (entries ++ [(i, e)])
    ↔ NumberedFrom n entries ∧ i.toNat = n + totalWidth (entries.map Prod.snd)
  := by
  induction entries generalizing n with
  | nil => simp [NumberedFrom, totalWidth]
  | cons entry entries ih =>
      obtain ⟨i', e'⟩ := entry
      rw [List.cons_append, NumberedFrom, ih, NumberedFrom, List.map_cons, totalWidth, Nat.add_assoc,
        and_assoc]

namespace NumberedFrom

variable {n : Nat} {entries : List (UInt16 × PoolEntry)}

/-- An entry takes its indices within those that all of them take. -/
theorem bounds (h : NumberedFrom n entries) (hmem : (i, e) ∈ entries) :
  n ≤ i.toNat ∧ i.toNat + e.width ≤ n + totalWidth (entries.map Prod.snd)
  := by
  induction entries generalizing n with
  | nil => contradiction
  | cons entry entries ih =>
      obtain ⟨i', e'⟩ := entry
      obtain ⟨rfl, hrest⟩ := h
      rw [List.map_cons, totalWidth]
      dsimp only
      rcases List.mem_cons.mp hmem with heq | hmem
      · obtain ⟨rfl, rfl⟩ := Prod.mk.inj heq
        omega
      · have hbounds := ih hrest hmem
        omega

/-- Two entries are the same if one of them has an index that the other takes. -/
theorem unique {i' : UInt16} {e' : PoolEntry} (h : NumberedFrom n entries)
    (hmem : (i, e) ∈ entries) (hmem' : (i', e') ∈ entries) (hle : i.toNat ≤ i'.toNat)
    (hlt : i'.toNat < i.toNat + e.width) :
  i' = i ∧ e' = e
  := by
  induction entries generalizing n with
  | nil => contradiction
  | cons entry entries ih =>
      obtain ⟨i₀, e₀⟩ := entry
      obtain ⟨rfl, hrest⟩ := h
      rcases List.mem_cons.mp hmem with heq | hmem
      · obtain ⟨rfl, rfl⟩ := Prod.mk.inj heq
        rcases List.mem_cons.mp hmem' with heq' | hmem'
        · apply Prod.mk.inj heq'
        · have hbounds := hrest.bounds hmem'
          omega
      · rcases List.mem_cons.mp hmem' with heq' | hmem'
        · have hbounds := hrest.bounds hmem
          have hpos := width_pos e₀
          obtain ⟨rfl, rfl⟩ := Prod.mk.inj heq'
          omega
        · apply ih hrest hmem hmem'

/-- The indices increase strictly. -/
theorem pairwise_lt (h : NumberedFrom n entries) :
  entries.Pairwise (·.1 < ·.1)
  := by
  induction entries generalizing n with
  | nil => exact List.Pairwise.nil
  | cons entry entries ih =>
      obtain ⟨i₀, e₀⟩ := entry
      obtain ⟨rfl, hrest⟩ := h
      refine List.Pairwise.cons ?_ (ih hrest)
      rintro ⟨i, e⟩ hmem
      have hpos := width_pos e₀
      have hbounds := hrest.bounds hmem
      rw [UInt16.lt_iff_toNat_lt]
      dsimp only
      omega

end NumberedFrom

/-! ### Sound pools -/

/-- The entries that are stored. -/
def stored (pool : ConstantPool) : List PoolEntry :=
  pool.entries.toList.map Prod.snd

/-- The entries, their indices and the first free index belong together. -/
structure Sound (pool : ConstantPool) : Prop where
  /-- The indices are consecutive from one. -/
  numbered : NumberedFrom 1 pool.entries.toList
  next_eq : pool.next = 1 + totalWidth pool.stored
  next_le : pool.next ≤ 65535
  /-- No entry is stored twice. -/
  nodup : pool.stored.Nodup
  index?_eq_some_iff : ∀ {e i}, pool.index? e = some i ↔ (i, e) ∈ pool.entries
  /-- Everything comes after what it refers to. -/
  children : ∀ {i e}, (i, e) ∈ pool.entries →
    ∀ child ∈ e.children, ∃ j, (j, child) ∈ pool.entries ∧ j < i

/-- The empty pool is sound. -/
theorem sound_empty :
  empty.Sound
  := by
  constructor
  case numbered => trivial
  case next_eq => rfl
  case next_le => decide
  case nodup => exact List.nodup_nil
  case index?_eq_some_iff => simp [empty, index?]
  case children => simp [empty]

theorem mem_stored_iff :
  e ∈ pool.stored ↔ ∃ i, (i, e) ∈ pool.entries
  := by
  simp [stored]

theorem entries_push :
  (pool.push e).entries = pool.entries.push (UInt16.ofNat pool.next, e)
  := rfl

theorem next_push :
  (pool.push e).next = pool.next + e.width
  := rfl

theorem stored_push :
  (pool.push e).stored = pool.stored ++ [e]
  := by
  rw [stored, entries_push, Array.toList_push, List.map_append]
  rfl

theorem index?_push {e' : PoolEntry} :
  (pool.push e).index? e' = if e = e' then some (UInt16.ofNat pool.next) else pool.index? e'
  := by
  change (pool.indices.insert e _)[e']? = _
  rw [Std.HashMap.getElem?_insert]
  simp only [beq_iff_eq]
  rfl

theorem index?_eq_none_iff :
  pool.index? e = none ↔ e ∉ pool.indices
  := by
  rw [index?, ← Option.not_isSome_iff_eq_none, Std.HashMap.isSome_getElem?_iff_mem]

namespace Sound

/-- In a sound pool what has an index is what is stored. -/
theorem mem_indices_iff (h : pool.Sound) :
  e ∈ pool.indices ↔ ∃ i, (i, e) ∈ pool.entries
  := by
  constructor
  · intro hmem
    use pool.indices[e]
    rw [← h.index?_eq_some_iff]
    apply Std.HashMap.getElem?_eq_some_getElem hmem
  · rintro ⟨i, hi⟩
    obtain ⟨hmem, -⟩ := Std.HashMap.getElem?_eq_some_iff.mp (h.index?_eq_some_iff.mpr hi)
    apply hmem

/-- The index of an entry and those it takes besides are below the first free one. -/
theorem bounds (h : pool.Sound) (hmem : (i, e) ∈ pool.entries) :
  1 ≤ i.toNat ∧ i.toNat + e.width ≤ pool.next
  := by
  rw [h.next_eq]
  apply h.numbered.bounds (Array.mem_toList_iff.mpr hmem)

/-- The pool stays sound if an entry is stored that fits, is new and finds what it refers to. -/
theorem push (h : pool.Sound) (hnew : e ∉ pool.indices) (hfits : pool.next + e.width ≤ 65535)
    (hchildren : ∀ child ∈ e.children, child ∈ pool.indices) :
  (pool.push e).Sound
  := by
  have hnext : (UInt16.ofNat pool.next).toNat = pool.next := by
    have hpos := width_pos e
    rw [UInt16.toNat_ofNat']
    omega
  constructor
  case numbered =>
    rw [entries_push, Array.toList_push, numberedFrom_append]
    use h.numbered
    rw [hnext, h.next_eq, stored]
  case next_eq =>
    rw [next_push, stored_push, totalWidth_append, h.next_eq, Nat.add_assoc]
    rfl
  case next_le => apply hfits
  case nodup =>
    rw [stored_push, List.nodup_append]
    use h.nodup, List.pairwise_singleton _ e
    rintro e' he' _ hsingle rfl
    obtain rfl := List.mem_singleton.mp hsingle
    apply hnew (h.mem_indices_iff.mpr (mem_stored_iff.mp he'))
  case index?_eq_some_iff =>
    intro e' i
    rw [index?_push, entries_push, Array.mem_push, ← h.index?_eq_some_iff]
    split
    · next heq =>
      subst heq
      rw [index?_eq_none_iff.mpr hnew]
      simp [eq_comm]
    · next hne => simp [Ne.symm hne]
  case children =>
    intro i e' hmem child hchild
    rcases Array.mem_push.mp hmem with hmem | heq
    · obtain ⟨j, hj, hlt⟩ := h.children hmem child hchild
      use j, Array.mem_push.mpr (.inl hj)
    · obtain ⟨rfl, rfl⟩ := Prod.mk.inj heq
      obtain ⟨j, hj⟩ := h.mem_indices_iff.mp (hchildren child hchild)
      use j, Array.mem_push.mpr (.inl hj)
      have hbounds := h.bounds hj
      have hpos := width_pos child
      rw [UInt16.lt_iff_toNat_lt, hnext]
      omega

end Sound

/-! ### Storing entries -/

theorem store_of_some (h : pool.index? e = some i) :
  store e pool = .ok i pool
  := by
  rw [store, h]

theorem store_of_fits (h : pool.index? e = none) (hfits : pool.next + e.width ≤ 65535) :
  store e pool = .ok (UInt16.ofNat pool.next) (pool.push e)
  := by
  rw [store, h]
  apply if_neg (Nat.not_lt.mpr hfits)

theorem store_of_full (h : pool.index? e = none) (hfull : 65535 < pool.next + e.width) :
  store e pool = .error (.overflow (pool.next + e.width - 1)) pool
  := by
  rw [store, h]
  apply if_pos hfull

/-- The second pool begins with the entries of the first one, and is sound if the first one is. -/
structure Extends (pool pool' : ConstantPool) : Prop where
  entries : pool.entries.toList <+: pool'.entries.toList
  sound : pool.Sound → pool'.Sound

theorem Extends.refl (pool : ConstantPool) :
  pool.Extends pool
  := ⟨List.prefix_refl _, id⟩

theorem Extends.trans {pool₁ pool₂ pool₃ : ConstantPool} (h : pool₁.Extends pool₂)
    (h' : pool₂.Extends pool₃) :
  pool₁.Extends pool₃
  := ⟨h.entries.trans h'.entries, fun hsound => h'.sound (h.sound hsound)⟩

/-- An entry that finds what it refers to is stored, or nothing happens. -/
theorem store_extends (hchildren : ∀ child ∈ e.children, child ∈ pool.indices) :
  pool.Extends (store e pool).state
  := by
  cases hindex : pool.index? e with
  | some i =>
      rw [store_of_some hindex]
      apply Extends.refl
  | none =>
      rcases Nat.lt_or_ge 65535 (pool.next + e.width) with hfull | hfits
      · rw [store_of_full hindex hfull]
        apply Extends.refl
      · rw [store_of_fits hindex hfits]
        constructor
        · rw [EStateM.Result.state, entries_push, Array.toList_push]
          apply List.prefix_append
        · intro hsound
          apply hsound.push (index?_eq_none_iff.mp hindex) hfits hchildren

/-- Entries that come after what they refer to only extend a sound pool. -/
theorem storeAll_extends {es : List PoolEntry} (hfirst : ChildrenFirst (· ∈ pool.indices) es) :
  pool.Extends (es.forM (fun e => discard (store e)) pool).state
  := by
  induction es generalizing pool with
  | nil => apply Extends.refl
  | cons e es ih =>
      apply EStateM.state_bind_of_trans Extends Extends.trans
      · rw [EStateM.state_discard]
        apply store_extends hfirst.1
      · intro _ pool' hstore
        obtain ⟨i, hstore⟩ := EStateM.discard_eq_ok_iff.mp hstore
        obtain ⟨hgrows, hmem⟩ := store_eq_ok hstore hfirst.1
        apply ih
        apply hfirst.2.imp
        rintro e' (he' | rfl)
        · apply hgrows.mem he'
        · apply hmem

/-- Interning keeps a pool sound and all that is in it, whether it succeeds or not. -/
theorem intern_extends (e : PoolEntry) (pool : ConstantPool) :
  pool.Extends (intern e pool).state
  := by
  cases hindex : pool.index? e with
  | some i =>
      rw [intern_of_some hindex]
      apply Extends.refl
  | none =>
      rw [intern_of_none hindex]
      apply EStateM.state_bind_of_trans Extends Extends.trans
      · apply storeAll_extends (childrenFirst_parts _ e)
      · intro _ pool' hparts
        obtain ⟨-, hmem⟩ := storeAll_eq_ok hparts (childrenFirst_parts _ e)
        apply store_extends fun child hchild => hmem child (mem_parts_of_mem_children hchild)

/-- However many entries are interned, a sound pool is only extended. -/
theorem internAll_extends (es : List PoolEntry) (pool : ConstantPool) :
  pool.Extends (internAll es pool).state
  := by
  apply EStateM.state_forM Extends Extends.refl Extends.trans
  intro e pool
  rw [EStateM.state_discard]
  apply intern_extends

/-! ### Looking up in a frozen pool -/

theorem indexOf_freeze :
  pool.freeze.indexOf e = .ok i ↔ pool.index? e = some i
  := by
  rw [index?, FrozenPool.indexOf, freeze]
  cases pool.indices[e]? <;> simp

/-- Of two places with strictly increasing indices the later has the greater. -/
theorem fst_lt_of_lt {entries : Array (UInt16 × PoolEntry)} {a b : Nat} {x y : UInt16 × PoolEntry}
    (hsorted : entries.toList.Pairwise (·.1 < ·.1)) (hx : entries[a]? = some x)
    (hy : entries[b]? = some y) (hlt : a < b) :
  x.1 < y.1
  := by
  rw [← Array.getElem?_toList] at hx hy
  obtain ⟨ha, rfl⟩ := List.getElem?_eq_some_iff.mp hx
  obtain ⟨hb, rfl⟩ := List.getElem?_eq_some_iff.mp hy
  apply List.pairwise_iff_getElem.mp hsorted a b ha hb hlt

/-- On strictly increasing indices the search from place `low` up to place `high` finds exactly
what stands there with the index. -/
theorem search_eq_some_iff {entries : Array (UInt16 × PoolEntry)} {low high : Nat}
    (hsorted : entries.toList.Pairwise (·.1 < ·.1)) (hsize : high ≤ entries.size) :
  FrozenPool.search entries i low high = some e
    ↔ ∃ place, low ≤ place ∧ place < high ∧ entries[place]? = some (i, e)
  := by
  fun_induction FrozenPool.search entries i low high with
  | case1 low high hlt middle hnone =>
      have hmiddle := Array.getElem?_eq_none_iff.mp hnone
      omega
  | case2 low high hlt middle e' hsome =>
      rw [Option.some_inj]
      constructor
      · rintro rfl
        exact ⟨middle, by omega, by omega, hsome⟩
      · rintro ⟨place, -, -, hplace⟩
        rcases Nat.lt_trichotomy middle place with hless | rfl | hless
        · exact absurd (fst_lt_of_lt hsorted hsome hplace hless) (UInt16.lt_irrefl _)
        · rw [hsome] at hplace
          exact congrArg Prod.snd (Option.some_inj.mp hplace)
        · exact absurd (fst_lt_of_lt hsorted hplace hsome hless) (UInt16.lt_irrefl _)
  | case3 low high hlt middle i' e' hsome hne hless ih =>
      refine (ih hsize).trans ⟨?_, ?_⟩
      · rintro ⟨place, hlow, hhigh, hplace⟩
        exact ⟨place, by omega, hhigh, hplace⟩
      · rintro ⟨place, -, hhigh, hplace⟩
        refine ⟨place, ?_, hhigh, hplace⟩
        rcases Nat.lt_trichotomy middle place with hright | rfl | hleft
        · exact hright
        · rw [hsome] at hplace
          exact absurd (congrArg Prod.fst (Option.some_inj.mp hplace)) hne
        · exact absurd (fst_lt_of_lt hsorted hplace hsome hleft) (UInt16.lt_asymm hless)
  | case4 low high hlt middle i' e' hsome hne hless ih =>
      refine (ih (by omega)).trans ⟨?_, ?_⟩
      · rintro ⟨place, hlow, hhigh, hplace⟩
        exact ⟨place, hlow, by omega, hplace⟩
      · rintro ⟨place, hlow, -, hplace⟩
        refine ⟨place, hlow, ?_, hplace⟩
        rcases Nat.lt_trichotomy middle place with hright | rfl | hleft
        · exact absurd (fst_lt_of_lt hsorted hsome hplace hright) hless
        · rw [hsome] at hplace
          exact absurd (congrArg Prod.fst (Option.some_inj.mp hplace)) hne
        · exact hleft
  | case5 low high hnot =>
      simp only [reduceCtorEq, false_iff, not_exists, not_and]
      omega

/-- The entry at an index is the one that is stored with it. -/
theorem Sound.get?_freeze (h : pool.Sound) :
  pool.freeze.get? i = some e ↔ (i, e) ∈ pool.entries
  := by
  rw [FrozenPool.get?, freeze, search_eq_some_iff h.numbered.pairwise_lt (Nat.le_refl _),
    Array.mem_iff_getElem?]
  constructor
  · rintro ⟨place, -, -, hplace⟩
    use place
  · rintro ⟨place, hplace⟩
    obtain ⟨hbound, -⟩ := Array.getElem?_eq_some_iff.mp hplace
    exact ⟨place, Nat.zero_le _, hbound, hplace⟩

/-- A frozen pool has an entry at an index exactly if this is the index of the entry. -/
theorem Sound.get?_freeze_iff_indexOf (h : pool.Sound) :
  pool.freeze.get? i = some e ↔ pool.freeze.indexOf e = .ok i
  := by
  rw [h.get?_freeze, indexOf_freeze, h.index?_eq_some_iff]

end ConstantPool

end ClassForge
