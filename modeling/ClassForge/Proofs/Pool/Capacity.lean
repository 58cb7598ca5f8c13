import ClassForge.Proofs.Pool.Numbering
import Mathlib.Logic.Relation

/-!
# How much a pool takes

For an entry all that it refers to is stored too, as far as it is new. It fits if the indices
do not run out before everything new is stored, however much of it is there already. A pool that
has answered requests, some of which may not have fitted, is sound, and this is what becomes of
the next one.
-/

namespace ClassForge

/-! ### What an entry refers to -/

namespace PoolEntry

variable {e child : PoolEntry}

/-- An entry refers to its children. -/
def RefersTo (e child : PoolEntry) : Prop :=
  child ∈ e.children

/-- Only texts are two generations below an entry, and these refer to nothing. -/
theorem children_of_grandchild {grandchild : PoolEntry} (h : e.RefersTo child)
    (h' : child.RefersTo grandchild) :
  grandchild.children = []
  := by
  cases e <;> simp only [RefersTo, children, List.mem_cons, List.not_mem_nil, or_false] at h
  case string | classRef => subst h; contradiction
  case nameAndType => rcases h with rfl | rfl <;> contradiction
  case fieldRef | methodRef | interfaceMethodRef =>
    rcases h with rfl | rfl
    · obtain rfl := List.mem_singleton.mp h'
      rfl
    · simp only [RefersTo, children, List.mem_cons, List.not_mem_nil, or_false] at h'
      rcases h' with rfl | rfl <;> rfl

/-- An entry after all that is below it. -/
def closure (e : PoolEntry) : List PoolEntry :=
  e.parts ++ [e]

theorem totalWidth_closure_le (e : PoolEntry) :
  ConstantPool.totalWidth e.closure ≤ 6
  := by
  cases e <;> exact Nat.le_of_ble_eq_true rfl

/-- The entry and those below it are what it refers to, directly or not. -/
theorem mem_closure_iff {e' : PoolEntry} :
  e' ∈ e.closure ↔ Relation.ReflTransGen RefersTo e e'
  := by
  rw [closure, List.mem_append, List.mem_singleton]
  constructor
  · rintro (he' | rfl)
    · obtain ⟨child, hchild, he'⟩ := List.mem_flatMap.mp he'
      have hstep : Relation.ReflTransGen RefersTo e child := .single hchild
      rcases List.mem_append.mp he' with he' | he'
      · apply hstep.tail he'
      · obtain rfl := List.mem_singleton.mp he'
        apply hstep
    · exact .refl
  · intro hreach
    induction hreach with
    | refl =>
        right
        rfl
    | @tail middle e' _ hstep ih =>
        left
        apply List.mem_flatMap.mpr
        rcases ih with hmiddle | rfl
        · obtain ⟨child, hchild, hmiddle⟩ := List.mem_flatMap.mp hmiddle
          use child, hchild
          rcases List.mem_append.mp hmiddle with hmiddle | hmiddle
          · rw [RefersTo, children_of_grandchild hchild hmiddle] at hstep
            contradiction
          · obtain rfl := List.mem_singleton.mp hmiddle
            apply List.mem_append_left _ hstep
        · use e', hstep
          apply List.mem_append_right _ (List.mem_singleton_self e')

end PoolEntry

namespace ConstantPool

variable {pool pool' : ConstantPool} {e : PoolEntry} {i : UInt16} {es : List PoolEntry}

/-! ### What is missing -/

/-- The entries of a list that are not known, each of them once. -/
def unknown (known : PoolEntry → Bool) : List PoolEntry → List PoolEntry
  | [] => []
  | e :: es =>
    if known e then unknown known es
    else e :: unknown (fun e' => known e' || e' = e) es

/-- What is stored for an entry: it and all that it refers to, directly or not, as far as it is
new. -/
def missing (pool : ConstantPool) (e : PoolEntry) : List PoolEntry :=
  unknown pool.contains e.closure

/-- What is unknown of a list is what is in the list and not known. -/
theorem mem_unknown_iff {known : PoolEntry → Bool} :
  e ∈ unknown known es ↔ e ∈ es ∧ known e = false
  := by
  induction es generalizing known with
  | nil => simp [unknown]
  | cons e' es ih =>
      rw [unknown]
      by_cases heq : e = e'
      · subst heq
        split <;> simp_all
      · split <;> simp [ih, heq]

/-- Of what is unknown each entry is kept once. -/
theorem nodup_unknown (known : PoolEntry → Bool) (es : List PoolEntry) :
  (unknown known es).Nodup
  := by
  induction es generalizing known with
  | nil => exact .nil
  | cons e es ih =>
      rw [unknown]
      split
      · apply ih
      · apply List.nodup_cons.mpr ⟨_, ih _⟩
        rw [mem_unknown_iff]
        simp

/-- What is unknown stands in the order of the list. -/
theorem sublist_unknown (known : PoolEntry → Bool) (es : List PoolEntry) :
  (unknown known es).Sublist es
  := by
  induction es generalizing known with
  | nil => exact .slnil
  | cons e es ih =>
      rw [unknown]
      split
      · exact (ih known).cons e
      · exact (ih _).cons_cons e

theorem totalWidth_le_of_sublist {es es' : List PoolEntry} (h : es.Sublist es') :
  totalWidth es ≤ totalWidth es'
  := by
  induction h with
  | slnil => apply Nat.le_refl
  | cons e _ ih => apply Nat.le_trans ih (Nat.le_add_left _ _)
  | cons_cons e _ ih => apply Nat.add_le_add_left ih

theorem totalWidth_missing_le (pool : ConstantPool) (e : PoolEntry) :
  totalWidth (pool.missing e) ≤ 6
  := Nat.le_trans (totalWidth_le_of_sublist (sublist_unknown _ _)) e.totalWidth_closure_le

theorem mem_missing_iff {e' : PoolEntry} :
  e' ∈ pool.missing e ↔ Relation.ReflTransGen PoolEntry.RefersTo e e' ∧ e' ∉ pool.indices
  := by
  rw [missing, mem_unknown_iff, PoolEntry.mem_closure_iff, contains, ← Std.HashMap.contains_iff_mem,
    Bool.not_eq_true]

/-! ### What fits -/

theorem storeAll_cons_of_ok (h : store e pool = .ok i pool') :
  (e :: es).forM (fun e => discard (store e)) pool = es.forM (fun e => discard (store e)) pool'
  := by
  have hdiscard := EStateM.discard_eq_ok_iff.mpr ⟨i, h⟩
  change EStateM.bind _ _ pool = _
  rw [EStateM.bind, hdiscard]

theorem storeAll_cons_of_error {err : PoolError} (h : store e pool = .error err pool') :
  (e :: es).forM (fun e => discard (store e)) pool = .error err pool'
  := by
  apply EStateM.bind_eq_error_iff.mpr
  left
  apply EStateM.discard_eq_error_iff.mpr h

theorem contains_of_index? (h : pool.index? e = some i) :
  pool.contains e = true
  := by
  obtain ⟨hmem, -⟩ := Std.HashMap.getElem?_eq_some_iff.mp h
  apply Std.HashMap.contains_iff_mem.mpr hmem

theorem not_contains_of_index? (h : pool.index? e = none) :
  ¬ pool.contains e = true
  := by
  rw [contains, Std.HashMap.contains_iff_mem]
  apply index?_eq_none_iff.mp h

theorem contains_push :
  (pool.push e).contains = fun e' => pool.contains e' || e' = e
  := by
  funext e'
  change (pool.indices.insert e _).contains e' = _
  rw [Std.HashMap.contains_insert, Bool.or_comm, contains, Bool.beq_comm]
  rfl

/-- Of some entries those that are new are stored, in their order, if there are indices for
them. -/
theorem storeAll_of_fits
    (hfits : pool.next + totalWidth (unknown pool.contains es) ≤ 65535) :
  es.forM (fun e => discard (store e)) pool = .ok () ((unknown pool.contains es).foldl push pool)
  := by
  induction es generalizing pool with
  | nil => rfl
  | cons e es ih =>
      cases hindex : pool.index? e with
      | some i =>
          have hcontains := contains_of_index? hindex
          rw [unknown, if_pos hcontains] at hfits
          rw [storeAll_cons_of_ok (store_of_some hindex), unknown, if_pos hcontains]
          apply ih hfits
      | none =>
          have hcontains := not_contains_of_index? hindex
          rw [unknown, if_neg hcontains, totalWidth, ← contains_push] at hfits
          rw [storeAll_cons_of_ok (store_of_fits hindex (by omega)), unknown, if_neg hcontains,
            ← contains_push, List.foldl_cons]
          apply ih
          rw [next_push]
          omega

/-- Entries cannot be stored if there are not enough indices for those that are new. -/
theorem storeAll_of_full (hle : pool.next ≤ 65535)
    (hfull : 65535 < pool.next + totalWidth (unknown pool.contains es)) :
  ∃ n pool', es.forM (fun e => discard (store e)) pool = .error (.overflow n) pool'
  := by
  induction es generalizing pool with
  | nil =>
      rw [unknown, totalWidth] at hfull
      omega
  | cons e es ih =>
      cases hindex : pool.index? e with
      | some i =>
          rw [unknown, if_pos (contains_of_index? hindex)] at hfull
          rw [storeAll_cons_of_ok (store_of_some hindex)]
          apply ih hle hfull
      | none =>
          rw [unknown, if_neg (not_contains_of_index? hindex), totalWidth, ← contains_push] at hfull
          rcases Nat.lt_or_ge 65535 (pool.next + e.width) with hfull' | hfits
          · rw [storeAll_cons_of_error (store_of_full hindex hfull')]
            exact ⟨_, _, rfl⟩
          · rw [storeAll_cons_of_ok (store_of_fits hindex hfits)]
            apply ih hfits
            rw [next_push]
            omega

/-- What a stored entry refers to is stored, directly or not. -/
theorem Sound.mem_of_reflTransGen {e' : PoolEntry} (h : pool.Sound) (hmem : e ∈ pool.indices)
    (hreach : Relation.ReflTransGen PoolEntry.RefersTo e e') :
  e' ∈ pool.indices
  := by
  induction hreach with
  | refl => apply hmem
  | tail _ hstep ih =>
      obtain ⟨i, hi⟩ := h.mem_indices_iff.mp ih
      obtain ⟨j, hj, -⟩ := h.children hi _ hstep
      apply h.mem_indices_iff.mpr ⟨j, hj⟩

/-- A sound pool that has an entry has all that it refers to. -/
theorem Sound.missing_eq_nil (h : pool.Sound) (hmem : e ∈ pool.indices) :
  pool.missing e = []
  := by
  apply List.eq_nil_iff_forall_not_mem.mpr
  intro e' he'
  obtain ⟨hreach, hnew⟩ := mem_missing_iff.mp he'
  apply hnew (h.mem_of_reflTransGen hmem hreach)

/-- To intern an entry is to store all of its closure. -/
theorem Sound.discard_intern (h : pool.Sound) :
  discard (intern e) pool = e.closure.forM (fun e => discard (store e)) pool
  := by
  cases hindex : pool.index? e with
  | some i =>
      obtain ⟨hmem, -⟩ := Std.HashMap.getElem?_eq_some_iff.mp hindex
      have hmissing := h.missing_eq_nil hmem
      rw [missing] at hmissing
      rw [EStateM.discard_eq_ok_iff.mpr ⟨i, intern_of_some hindex⟩, storeAll_of_fits]
      · rw [hmissing]
        rfl
      · rw [hmissing]
        apply h.next_le
  | none =>
      have happend : e.closure.forM (fun e => discard (store e))
          = e.parts.forM (fun e => discard (store e)) >>= fun _ =>
            [e].forM fun e => discard (store e) := List.forM_append
      rw [happend]
      cases hparts : e.parts.forM (fun e => discard (store e)) pool with
      | error err pool₁ =>
          rw [EStateM.bind_of_error hparts, EStateM.discard_eq_error_iff, intern_of_none hindex,
            EStateM.bind_of_error hparts]
      | ok _ pool₁ =>
          have hintern : intern e pool = store e pool₁ := by
            rw [intern_of_none hindex, EStateM.bind_of_ok hparts]
          rw [EStateM.bind_of_ok hparts]
          cases hstore : store e pool₁ with
          | error err pool₂ =>
              rw [storeAll_cons_of_error hstore, EStateM.discard_eq_error_iff, hintern, hstore]
          | ok i pool₂ =>
              rw [storeAll_cons_of_ok hstore]
              apply EStateM.discard_eq_ok_iff.mpr ⟨i, hintern.trans hstore⟩

/-- An entry is turned down exactly if there are not enough indices for all that is missing. -/
theorem Sound.intern_overflows_iff (h : pool.Sound) :
  (∃ n pool', intern e pool = .error (.overflow n) pool')
    ↔ 65535 < pool.next + totalWidth (pool.missing e)
  := by
  have hdiscard (n : Nat) (pool' : ConstantPool) :
      intern e pool = .error (.overflow n) pool'
      ↔ e.closure.forM (fun e => discard (store e)) pool = .error (.overflow n) pool' := by
    rw [← h.discard_intern, EStateM.discard_eq_error_iff]
  simp only [hdiscard]
  constructor
  · rintro ⟨n, pool', herror⟩
    by_contra hfits
    rw [storeAll_of_fits (Nat.not_lt.mp hfits)] at herror
    contradiction
  · intro hfull
    apply storeAll_of_full h.next_le hfull

/-- An entry is given an index if there are six left: it refers to five others at most. -/
theorem Sound.exists_intern (h : pool.Sound) (e : PoolEntry) (hnext : pool.next ≤ 65529) :
  ∃ i pool', intern e pool = .ok i pool'
  := by
  cases hintern : intern e pool with
  | ok i pool' => exact ⟨i, pool', rfl⟩
  | error err pool' =>
      obtain ⟨n, rfl⟩ : ∃ n, err = .overflow n := by
        have hoverflow := (intern_interns e).of_error hintern
        cases err with
        | overflow n => exact ⟨n, rfl⟩
        | _ => contradiction
      have hfull := h.intern_overflows_iff.mp ⟨n, pool', hintern⟩
      have hwidth := totalWidth_missing_le pool e
      omega

theorem internAll_append (es es' : List PoolEntry) :
  internAll (es ++ es') = internAll es >>= fun _ => internAll es'
  := List.forM_append

/-- Entries that are interned in order are stored with their closures, each of them once. -/
theorem Sound.internAll_of_fits (h : pool.Sound) (es : List PoolEntry)
    (hfits : pool.next + totalWidth (unknown pool.contains (es.flatMap PoolEntry.closure))
      ≤ 65535) :
  internAll es pool
    = .ok () ((unknown pool.contains (es.flatMap PoolEntry.closure)).foldl ConstantPool.push pool)
  := by
  rw [← storeAll_of_fits hfits]
  clear hfits
  induction es generalizing pool with
  | nil => rfl
  | cons e es ih =>
      have happend : ((e :: es).flatMap PoolEntry.closure).forM (fun e => discard (store e))
          = e.closure.forM (fun e => discard (store e)) >>= fun _ =>
            (es.flatMap PoolEntry.closure).forM fun e => discard (store e) := List.forM_append
      have hintern := h.discard_intern (e := e)
      have hsound := (intern_extends e pool).sound h
      rw [happend]
      change (discard (intern e) >>= fun _ => internAll es) pool = _
      cases hclosure : e.closure.forM (fun e => discard (store e)) pool with
      | error err pool₁ =>
          rw [EStateM.bind_of_error (hintern.trans hclosure), EStateM.bind_of_error hclosure]
      | ok _ pool₁ =>
          rw [hclosure] at hintern
          rw [← EStateM.state_discard, hintern] at hsound
          rw [EStateM.bind_of_ok hintern, EStateM.bind_of_ok hclosure]
          apply ih hsound

/-! ### Requests -/

/-- What a pool is asked for: the index of an entry, of a text or of the class of a type. -/
inductive Request where
  | entry (e : PoolEntry)
  | text (value : String)
  | classOf (t : Ty)

/-- The entry whose index is asked for. -/
def Request.wanted : Request → PoolEntry
  | .entry e => e
  | .text value => .utf8 value
  | .classOf t => .ofClass t

/-- The pool that is left after a request, whether it could be answered or not. -/
def serve (pool : ConstantPool) (request : Request) : ConstantPool :=
  (intern request.wanted pool).state

/-- The pool that is left after requests to the empty pool. -/
def serveAll (requests : List Request) : ConstantPool :=
  requests.foldl serve empty

theorem foldl_serve_extends (pool : ConstantPool) (requests : List Request) :
  pool.Extends (requests.foldl serve pool)
  := by
  induction requests generalizing pool with
  | nil => apply Extends.refl
  | cons request requests ih => apply (intern_extends request.wanted pool).trans (ih _)

/-- Requests that are all answered leave the pool in which they are interned in order. -/
theorem foldl_serve_of_internAll {pool pool' : ConstantPool} {requests : List Request}
    (h : internAll (requests.map Request.wanted) pool = .ok () pool') :
  requests.foldl serve pool = pool'
  := by
  induction requests generalizing pool with
  | nil =>
      obtain ⟨-, rfl⟩ := EStateM.Result.ok.inj h
      rfl
  | cons request requests ih =>
      obtain ⟨_, pool₁, hfirst, hrest⟩ := EStateM.bind_eq_ok_iff.mp h
      obtain ⟨i, hintern⟩ := EStateM.discard_eq_ok_iff.mp hfirst
      have hserve : serve pool request = pool₁ := by
        rw [serve, hintern]
        rfl
      rw [List.foldl_cons, hserve]
      apply ih hrest

/-- Requests that fit into the empty pool store what they ask for, each entry once. -/
theorem serveAll_of_fits {requests : List Request} {es : List PoolEntry}
    (hes : unknown (fun _ => false)
      ((requests.map Request.wanted).flatMap PoolEntry.closure) = es)
    (hfits : totalWidth es ≤ 65534) :
  serveAll requests = es.foldl push empty
  := by
  have hcontains : empty.contains = fun _ => false := by
    funext e
    simp [contains, empty]
  have hinternAll := sound_empty.internAll_of_fits (requests.map Request.wanted)
  rw [hcontains, hes] at hinternAll
  apply foldl_serve_of_internAll (hinternAll _)
  change 1 + _ ≤ _
  omega

theorem sound_serveAll (requests : List Request) :
  (serveAll requests).Sound
  := (foldl_serve_extends empty requests).sound sound_empty

/-- What is stored has the index that is given for it. -/
theorem index?_of_store (h : store e pool = .ok i pool') :
  pool'.index? e = some i
  := by
  unfold store at h
  split at h
  · next hindex =>
    obtain ⟨rfl, rfl⟩ := EStateM.Result.ok.inj h
    apply hindex
  · split at h
    · contradiction
    · obtain ⟨rfl, rfl⟩ := EStateM.Result.ok.inj h
      rw [index?_push, if_pos rfl]

/-- What is interned has the index that is given for it. -/
theorem index?_of_intern (h : intern e pool = .ok i pool') :
  pool'.index? e = some i
  := by
  cases hindex : pool.index? e with
  | some i' =>
      rw [intern_of_some hindex] at h
      obtain ⟨rfl, rfl⟩ := EStateM.Result.ok.inj h
      apply hindex
  | none =>
      rw [intern_of_none hindex] at h
      obtain ⟨_, _, -, hstore⟩ := EStateM.bind_eq_ok_iff.mp h
      apply index?_of_store hstore

theorem Sound.of_intern (hsound : pool.Sound) (h : intern e pool = .ok i pool') :
  pool'.Sound
  := by
  have hextends := intern_extends e pool
  rw [h] at hextends
  apply hextends.sound hsound

/-- The entry is stored at the index that is answered. -/
theorem Sound.mem_entries_of_intern (hsound : pool.Sound) (h : intern e pool = .ok i pool') :
  (i, e) ∈ pool'.entries
  := (hsound.of_intern h).index?_eq_some_iff.mp (index?_of_intern h)

/-- An entry is found at the index that was given for it, whatever is asked for later. -/
theorem indexOf_of_request (request : Request) (requests more : List Request)
    (h : intern request.wanted (serveAll requests) = .ok i pool') :
  (serveAll (requests ++ request :: more)).freeze.indexOf request.wanted = .ok i
  := by
  have hserve : serve (serveAll requests) request = pool' := by
    rw [serve, h]
    rfl
  have hextends := foldl_serve_extends pool' more
  have hsound := (sound_serveAll requests).of_intern h
  have hmem := (sound_serveAll requests).mem_entries_of_intern h
  rw [indexOf_freeze, serveAll, List.foldl_append, List.foldl_cons, ← serveAll, hserve,
    (hextends.sound hsound).index?_eq_some_iff]
  apply Array.mem_toList_iff.mp (hextends.entries.mem (Array.mem_toList_iff.mpr hmem))

/-- The empty pool has what it is asked for. -/
theorem exists_get?_of_request (request : Request) :
  ∃ i, (serveAll [request]).freeze.get? i = some request.wanted
  := by
  have hsound := sound_serveAll [request]
  simp only [hsound.get?_freeze, ← hsound.mem_indices_iff]
  change request.wanted ∈ (intern request.wanted empty).state.indices
  obtain ⟨i, pool, hintern⟩ :=
    sound_empty.exists_intern request.wanted (Nat.le_of_ble_eq_true rfl)
  rw [hintern]
  apply ((intern_interns _).of_ok hintern).2 _ (List.mem_singleton_self _)

/-- After any requests, answered or not, the pool is sound and has kept what it had. An entry
that it has is given its index and nothing changes; any other entry is turned down exactly if the
indices run out before all that is missing is stored, and is else stored at the index that is
answered. Frozen, the pool has an entry at an index exactly if this is the index of the entry, and
so it has none at zero and none after a wide entry. -/
theorem serveAll_invariant (requests : List Request) :
  (serveAll requests).Sound
    ∧ (∀ more, (serveAll requests).entries.toList <+: (serveAll (requests ++ more)).entries.toList)
    ∧ (∀ i e, (i, e) ∈ (serveAll requests).entries
      → intern e (serveAll requests) = .ok i (serveAll requests))
    ∧ (∀ e, (∃ n pool', intern e (serveAll requests) = .error (.overflow n) pool')
      ↔ 65535 < (serveAll requests).next + totalWidth ((serveAll requests).missing e))
    ∧ (∀ e i pool', intern e (serveAll requests) = .ok i pool' → (i, e) ∈ pool'.entries)
    ∧ (∀ i e, (serveAll requests).freeze.get? i = some e
      ↔ (serveAll requests).freeze.indexOf e = .ok i)
    ∧ (serveAll requests).freeze.get? 0 = none
    ∧ ∀ i e, (i, e) ∈ (serveAll requests).entries → e.width = 2
      → (serveAll requests).freeze.get? (i + 1) = none
  := by
  have hsound := sound_serveAll requests
  refine ⟨hsound, ?_, ?_, ?_, ?_, ?_, ?_, ?_⟩
  · intro more
    rw [serveAll, serveAll, List.foldl_append]
    apply (foldl_serve_extends _ more).entries
  · intro i e hmem
    apply intern_of_some (hsound.index?_eq_some_iff.mpr hmem)
  · intro e
    apply hsound.intern_overflows_iff
  · intro e i pool' hintern
    apply hsound.mem_entries_of_intern hintern
  · intro i e
    rw [hsound.get?_freeze, indexOf_freeze, hsound.index?_eq_some_iff]
  · apply Option.eq_none_iff_forall_not_mem.mpr
    intro e he
    have hbounds := hsound.bounds (hsound.get?_freeze.mp he)
    simp at hbounds
  · intro i e hmem hwide
    apply Option.eq_none_iff_forall_not_mem.mpr
    intro e' he'
    have hbounds := hsound.bounds hmem
    have hnext := hsound.next_le
    have hi : (i + 1).toNat = i.toNat + 1 := by
      rw [UInt16.toNat_add]
      apply Nat.mod_eq_of_lt
      change i.toNat + 1 < 65536
      omega
    obtain ⟨heq, -⟩ := hsound.numbered.unique (Array.mem_toList_iff.mpr hmem)
      (Array.mem_toList_iff.mpr (hsound.get?_freeze.mp he')) (by omega) (by omega)
    rw [heq] at hi
    omega

/-- A long, and a field that has the name of a text asked for before. -/
def ledger : List Request :=
  [.text "sum", .entry (.long 7), .entry (.fieldRef ⟨"Ledger", "sum", "J"⟩)]

theorem serveAll_ledger :
  serveAll ledger = [.utf8 "sum", .long 7, .utf8 "Ledger", .classRef "Ledger", .utf8 "J",
    .nameAndType "sum" "J", .fieldRef ⟨"Ledger", "sum", "J"⟩].foldl push empty
  := serveAll_of_fits (by decide) (by decide)

theorem entries_ledger :
  (serveAll ledger).entries = #[(1, .utf8 "sum"), (2, .long 7), (4, .utf8 "Ledger"),
    (5, .classRef "Ledger"), (6, .utf8 "J"), (7, .nameAndType "sum" "J"),
    (8, .fieldRef ⟨"Ledger", "sum", "J"⟩)]
  := by
  rw [serveAll_ledger]
  rfl

/-- The field is found at the eighth index, nothing is found after the long, and a number that is
asked for next is stored. -/
theorem serveAll_invariant_ledger :
  (serveAll ledger).freeze.get? 8 = some (.fieldRef ⟨"Ledger", "sum", "J"⟩)
    ∧ (serveAll ledger).freeze.get? 3 = none
    ∧ intern (.long 7) (serveAll ledger) = .ok 2 (serveAll ledger)
    ∧ ∃ i pool', intern (.integer 7) (serveAll ledger) = .ok i pool'
      ∧ (i, .integer 7) ∈ pool'.entries
  := by
  obtain ⟨hsound, -, hkept, -, hstored, -, -, hwide⟩ := serveAll_invariant ledger
  have hlong : (2, .long 7) ∈ (serveAll ledger).entries := by
    simp [entries_ledger]
  refine ⟨hsound.get?_freeze.mpr ?_, hwide 2 _ hlong rfl, hkept _ _ hlong, ?_⟩
  · simp [entries_ledger]
  · have hnext : (serveAll ledger).next = 9 := by
      rw [serveAll_ledger]
      rfl
    obtain ⟨i, pool', hintern⟩ := hsound.exists_intern (.integer 7) (by omega)
    exact ⟨i, pool', hintern, hstored _ _ _ hintern⟩

end ConstantPool

end ClassForge
