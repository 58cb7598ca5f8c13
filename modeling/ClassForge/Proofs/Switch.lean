import ClassForge.Instruction.Encode
import Mathlib.Tactic.Common

/-!
# Switches

A switch made from cases in any order has the same cases in the order of their keys, each key
once, and it selects for every key the label that the given cases have for it. If it has fewer
than 2^28 cases, then 32 bits hold its length.
-/

namespace ClassForge

namespace Switch

variable {fallback : Label} {cases : List (Int32 × Label)} {s : Switch}

/-- Cases in order without a repeated key have strictly ascending keys. -/
theorem pairwise_lt_of_repeatedKey? (h : repeatedKey? cases = none)
    (hsorted : cases.Pairwise fun a b => a.1 ≤ b.1) :
  cases.Pairwise fun a b => a.1 < b.1
  := by
  fun_induction repeatedKey? cases with
  | case1 k l l' rest => contradiction
  | case2 k l k' l' rest hne ih =>
      obtain ⟨hle, hsorted⟩ := List.pairwise_cons.mp hsorted
      have hstrict := ih h hsorted
      apply List.pairwise_cons.mpr
      use ?_, hstrict
      have hlt : k < k' := Int32.lt_of_le_of_ne (hle (k', l') List.mem_cons_self) hne
      intro b hb
      obtain rfl | hb := List.mem_cons.mp hb
      · apply hlt
      · apply Int32.lt_trans hlt ((List.pairwise_cons.mp hstrict).1 b hb)
  | case3 cases hcases =>
      match cases, hcases with
      | [], _ => apply List.Pairwise.nil
      | [a], _ => apply List.pairwise_singleton
      | a :: b :: rest, hcases => exact absurd rfl (hcases a.1 a.2 b.1 b.2 rest)

/-- What a switch made from cases consists of. -/
theorem ofCases_eq_ok (h : ofCases fallback cases = .ok s) :
  s.fallback = fallback ∧ s.cases.Perm cases ∧ s.cases.Pairwise (fun a b => a.1 < b.1)
    ∧ s.form = formFor s.cases
  := by
  unfold ofCases at h
  simp only at h
  split at h
  · contradiction
  · next hrepeated =>
    obtain rfl := Except.ok.inj h
    use rfl, List.mergeSort_perm _ _
    constructor
    · apply pairwise_lt_of_repeatedKey? hrepeated
      apply (List.pairwise_mergeSort _ _ cases).imp of_decide_eq_true
      · intro a b c hab hbc
        apply decide_eq_true (Int32.le_trans (of_decide_eq_true hab) (of_decide_eq_true hbc))
      · intro a b
        simpa using Int32.le_total a.1 b.1
    · rfl

/-- A key that is told to be repeated is. -/
theorem not_nodup_of_repeatedKey? {key : Int32} (h : repeatedKey? cases = some key) :
  ¬ (cases.map (·.1)).Nodup
  := by
  fun_induction repeatedKey? cases with
  | case1 k l l' rest => simp
  | case2 k l k' l' rest hne ih =>
      intro hnodup
      apply ih h
      apply (List.nodup_cons.mp hnodup).2
  | case3 => contradiction

/-- Cases make no switch if a key is given twice, and only then. -/
theorem exists_ofCases_eq_error_iff :
  (∃ e, ofCases fallback cases = .error e) ↔ ¬ (cases.map (·.1)).Nodup
  := by
  constructor
  · rintro ⟨e, h⟩
    unfold ofCases at h
    simp only at h
    split at h
    · next hrepeated =>
      rw [← ((List.mergeSort_perm cases _).map _).nodup_iff]
      apply not_nodup_of_repeatedKey? hrepeated
    · contradiction
  · intro hnodup
    cases h : ofCases fallback cases with
    | error e => use e
    | ok s =>
        obtain ⟨-, hperm, hsorted, -⟩ := ofCases_eq_ok h
        absurd hnodup
        apply (hperm.map _).nodup_iff.mp
        apply List.pairwise_map.mpr
        apply hsorted.imp Int32.ne_of_lt

/-- With different keys a key is found exactly if it is among the cases. -/
theorem lookup_eq_some_iff (hkeys : cases.Pairwise fun a b => a.1 ≠ b.1) {key : Int32} {l : Label} :
  cases.lookup key = some l ↔ (key, l) ∈ cases
  := by
  induction cases with
  | nil => simp
  | cons a cases ih =>
      obtain ⟨k, l'⟩ := a
      obtain ⟨hhead, htail⟩ := List.pairwise_cons.mp hkeys
      rw [List.lookup_cons, List.mem_cons]
      by_cases hk : key = k
      · subst hk
        have hnot : (key, l) ∉ cases := fun hmem => hhead (key, l) hmem rfl
        simp [hnot, eq_comm]
      · simp [beq_false_of_ne hk, hk, ih htail]

/-- The label that a key leads to is that of a case or the one for all other keys. -/
theorem getD_lookup_mem (cases : List (Int32 × Label)) (fallback : Label) (key : Int32) :
  (cases.lookup key).getD fallback ∈ fallback :: cases.map (·.2)
  := by
  cases hlookup : cases.lookup key with
  | none => apply List.mem_cons_self
  | some l =>
      apply List.mem_cons_of_mem
      obtain ⟨before, after, heq, -⟩ := List.lookup_eq_some_iff.mp hlookup
      simp [heq]

/-- For every key the switch goes where the given cases say. -/
theorem target_of_ofCases (h : ofCases fallback cases = .ok s) (key : Int32) :
  s.target key = (cases.lookup key).getD fallback
  := by
  obtain ⟨hfallback, hperm, hsorted, -⟩ := ofCases_eq_ok h
  have hkeys : s.cases.Pairwise fun a b => a.1 ≠ b.1 := hsorted.imp Int32.ne_of_lt
  have hkeys' : cases.Pairwise fun a b => a.1 ≠ b.1 :=
    (hperm.pairwise_iff fun h => h.symm).mp hkeys
  have hlookup : s.cases.lookup key = cases.lookup key := by
    ext l
    rw [lookup_eq_some_iff hkeys, lookup_eq_some_iff hkeys', hperm.mem_iff]
  rw [target, hlookup, hfallback]

/-! ### Tables -/

variable {low high key : Int32} {l : Label}

/-- The bounds of a table are the first key and the last one, and the table is not longer than a
lookup. -/
theorem formFor_eq_table (h : formFor cases = .table low high) :
  (∃ l, cases.head? = some (low, l)) ∧ (∃ l, cases.getLast? = some (high, l))
    ∧ 4 + 4 * span low high ≤ 8 * (cases.length : Int)
  := by
  unfold formFor at h
  split at h
  · next hfirst hlast =>
    split at h
    · next hle =>
      obtain ⟨rfl, rfl⟩ := SwitchForm.table.inj h
      exact ⟨⟨_, hfirst⟩, ⟨_, hlast⟩, hle⟩
    · contradiction
  · contradiction

/-- All keys are within the bounds of a table. -/
theorem le_of_formFor (hsorted : cases.Pairwise fun a b => a.1 < b.1)
    (h : formFor cases = .table low high) {c : Int32 × Label} (hc : c ∈ cases) :
  low ≤ c.1 ∧ c.1 ≤ high
  := by
  obtain ⟨⟨first, hfirst⟩, ⟨last, hlast⟩, -⟩ := formFor_eq_table h
  constructor
  · obtain ⟨rest, rfl⟩ := List.head?_eq_some_iff.mp hfirst
    obtain rfl | hc := List.mem_cons.mp hc
    · apply Int32.le_refl
    · apply Int32.le_of_lt ((List.pairwise_cons.mp hsorted).1 c hc)
  · obtain ⟨rest, rfl⟩ := List.getLast?_eq_some_iff.mp hlast
    obtain hc | hc := List.mem_append.mp hc
    · apply Int32.le_of_lt ((List.pairwise_append.mp hsorted).2.2 c hc _ List.mem_cons_self)
    · rw [List.mem_singleton.mp hc]
      apply Int32.le_refl

/-- A key of a table is the number that it stands for. -/
theorem toInt_ofInt_tableKey {i : Nat} (hi : i < (span low high).toNat) :
  (Int32.ofInt (low.toInt + i)).toInt = low.toInt + i
  := by
  unfold span at hi
  have hlow := low.le_toInt
  have hhigh := high.toInt_lt
  apply Int32.toInt_ofInt_of_le
  · omega
  · omega

/-- A key within the bounds of a table stands at its distance from the lowest. -/
theorem getElem?_tableKeys (hlow : low ≤ key) (hhigh : key ≤ high) :
  (Instruction.tableKeys low high)[(key.toInt - low.toInt).toNat]? = some key
  := by
  rw [Int32.le_iff_toInt_le] at hlow hhigh
  have hindex : (key.toInt - low.toInt).toNat < (span low high).toNat := by
    unfold span
    omega
  have hkey : low.toInt + ((key.toInt - low.toInt).toNat : Int) = key.toInt := by omega
  rw [Instruction.tableKeys, List.getElem?_map, List.getElem?_range hindex, Option.map_some, hkey,
    Int32.ofInt_toInt]

theorem mem_tableKeys (hlow : low ≤ key) (hhigh : key ≤ high) :
  key ∈ Instruction.tableKeys low high
  := List.mem_of_getElem? (getElem?_tableKeys hlow hhigh)

theorem target_of_mem (hsorted : s.cases.Pairwise fun a b => a.1 < b.1) (h : (key, l) ∈ s.cases) :
  s.target key = l
  := by
  rw [target, (lookup_eq_some_iff (hsorted.imp Int32.ne_of_lt)).mpr h]
  rfl

/-! ### Lengths -/

/-- The switch is made from cases, fewer than 2^28 of them. -/
def Moderate (s : Switch) : Prop :=
  ∃ fallback cases, cases.length < 268435456 ∧ ofCases fallback cases = .ok s

/-- A switch takes at most eight bytes for a case, in either form, and at most sixteen besides. -/
theorem switchLength_le (h : ofCases fallback cases = .ok s) (offset : Nat) :
  Instruction.switchLength s offset ≤ 16 + 8 * cases.length
  := by
  obtain ⟨-, hperm, -, hform⟩ := ofCases_eq_ok h
  have hpadding : switchPadding offset < 4 := Nat.mod_lt _ (by decide)
  have hlength := hperm.length_eq
  unfold Instruction.switchLength
  cases hkind : s.form with
  | table low high =>
      obtain ⟨-, -, hspan⟩ := formFor_eq_table (hform.symm.trans hkind)
      dsimp only
      omega
  | lookup =>
      dsimp only
      omega

theorem Moderate.switchLength_lt (h : s.Moderate) (offset : Nat) :
  Instruction.switchLength s offset < 2147483660
  := by
  obtain ⟨fallback, cases, hcases, hs⟩ := h
  have hle := switchLength_le hs offset
  omega

end Switch

/-- A switch instruction holds the switch that is made from its cases. -/
theorem Checked.switch_eq_ok {fallback : Label} {cases : List (Int32 × Label)} {i : Instruction}
    (h : Checked.switch fallback cases = .ok i) :
  ∃ s, Switch.ofCases fallback cases = .ok s ∧ .switch s = i
  := by
  cases hs : Switch.ofCases fallback cases with
  | error e =>
      rw [Checked.switch, hs] at h
      contradiction
  | ok s =>
      rw [Checked.switch, hs] at h
      use s, rfl
      apply Except.ok.inj h

/-- The switches of the code are made from cases, each from fewer than 2^28. -/
def SwitchesMade (code : List Instruction) : Prop :=
  ∀ s, .switch s ∈ code → s.Moderate

end ClassForge
