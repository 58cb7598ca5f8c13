import Mathlib.Tactic.Common

/-!
# Runs of deterministic machines

A machine is given by its step: from a state it goes on to another state, or it ends with an
outcome. A run that does not end has no outcome.

Two machines have the same outcomes from related states if every step of the first leads back
to related states, where the second machine may also stand still as long as some rank of the
first machine's state goes down. The rank keeps the first machine from running on for ever
while the second one waits.
-/

namespace ClassForge

namespace Execution

variable {σ τ ο : Type*}

/-- The state after `n` steps, or the outcome if the run has ended by then. -/
def runFor (step : σ → σ ⊕ ο) : Nat → σ → σ ⊕ ο
  | 0, s => .inl s
  | n + 1, s =>
    match step s with
    | .inl s' => runFor step n s'
    | .inr o => .inr o

/-- The run from `s` ends with the outcome `o`. -/
def Halts (step : σ → σ ⊕ ο) (s : σ) (o : ο) : Prop :=
  ∃ n, runFor step n s = .inr o

/-- The run from `s` comes to `s'`. -/
def Reaches (step : σ → σ ⊕ ο) (s s' : σ) : Prop :=
  ∃ n, runFor step n s = .inl s'

/-- The run from `s` comes to `s'` after at least one step. -/
def Advances (step : σ → σ ⊕ ο) (s s' : σ) : Prop :=
  ∃ n, runFor step (n + 1) s = .inl s'

variable {step : σ → σ ⊕ ο} {s s' s'' : σ} {o o' : ο}

theorem runFor_succ_of_step (n : Nat) (h : step s = .inl s') :
  runFor step (n + 1) s = runFor step n s'
  := by
  rw [runFor, h]

theorem runFor_succ_of_halt (n : Nat) (h : step s = .inr o) :
  runFor step (n + 1) s = .inr o
  := by
  rw [runFor, h]

theorem runFor_one (s : σ) :
  runFor step 1 s = step s
  := by
  rw [runFor]
  cases step s with
  | inl s' => rfl
  | inr o => rfl

/-- A run of `m + n` steps is a run of `m` steps followed by one of `n`. -/
theorem runFor_add (m n : Nat) (h : runFor step m s = .inl s') :
  runFor step (m + n) s = runFor step n s'
  := by
  induction m generalizing s with
  | zero =>
      obtain rfl := Sum.inl.inj h
      rw [Nat.zero_add]
  | succ m ih =>
      cases hstep : step s with
      | inl t =>
          rw [runFor_succ_of_step m hstep] at h
          rw [Nat.add_right_comm, runFor_succ_of_step (m + n) hstep]
          apply ih h
      | inr o =>
          rw [runFor_succ_of_halt m hstep] at h
          contradiction

/-- What a run has ended with does not change by running on. -/
theorem runFor_add_of_halt (m n : Nat) (h : runFor step m s = .inr o) :
  runFor step (m + n) s = .inr o
  := by
  induction m generalizing s with
  | zero => contradiction
  | succ m ih =>
      rw [Nat.add_right_comm]
      cases hstep : step s with
      | inl t =>
          rw [runFor_succ_of_step m hstep] at h
          rw [runFor_succ_of_step (m + n) hstep]
          apply ih h
      | inr o' =>
          rw [runFor_succ_of_halt m hstep] at h
          rw [runFor_succ_of_halt (m + n) hstep, h]

/-- A run ends with one outcome only. -/
theorem Halts.unique (h : Halts step s o) (h' : Halts step s o') :
  o = o'
  := by
  obtain ⟨m, hm⟩ := h
  obtain ⟨n, hn⟩ := h'
  have hmn := runFor_add_of_halt m n hm
  have hnm := runFor_add_of_halt n m hn
  rw [Nat.add_comm, hmn] at hnm
  apply Sum.inr.inj hnm

theorem Halts.of_step (h : step s = .inr o) :
  Halts step s o
  := by
  use 1
  apply runFor_succ_of_halt 0 h

theorem Reaches.refl (s : σ) :
  Reaches step s s
  := by
  use 0
  rfl

theorem Reaches.trans (h : Reaches step s s') (h' : Reaches step s' s'') :
  Reaches step s s''
  := by
  obtain ⟨m, hm⟩ := h
  obtain ⟨n, hn⟩ := h'
  use m + n
  rw [runFor_add m n hm, hn]

theorem Advances.of_step (h : step s = .inl s') :
  Advances step s s'
  := by
  use 0
  rw [runFor_succ_of_step 0 h]
  rfl

theorem Advances.of_runFor {n : Nat} (hn : 0 < n) (h : runFor step n s = .inl s') :
  Advances step s s'
  := by
  use n - 1
  rwa [Nat.sub_add_cancel hn]

theorem Advances.reaches (h : Advances step s s') :
  Reaches step s s'
  := by
  obtain ⟨n, hn⟩ := h
  use n + 1

theorem Reaches.of_step (h : step s = .inl s') :
  Reaches step s s'
  := (Advances.of_step h).reaches

/-- A run that comes somewhere has stood still or made a step. -/
theorem Reaches.eq_or_advances (h : Reaches step s s') :
  s = s' ∨ Advances step s s'
  := by
  obtain ⟨n, hn⟩ := h
  cases n with
  | zero =>
      left
      apply Sum.inl.inj hn
  | succ n =>
      right
      use n

/-- A run ends as the rest of it does from any state on the way. -/
theorem Reaches.halts_iff (h : Reaches step s s') :
  Halts step s o ↔ Halts step s' o
  := by
  obtain ⟨m, hm⟩ := h
  constructor
  · rintro ⟨n, hn⟩
    use n
    rw [← runFor_add m n hm, Nat.add_comm]
    apply runFor_add_of_halt n m hn
  · rintro ⟨n, hn⟩
    use m + n
    rw [runFor_add m n hm, hn]

theorem Reaches.halts (h : Reaches step s s') (h' : Halts step s' o) :
  Halts step s o
  := h.halts_iff.mpr h'

/-- After at least one step there are fewer steps left to the end. -/
theorem Advances.runFor_lt {n : Nat} (h : Advances step s s') (h' : runFor step n s = .inr o) :
  ∃ k < n, runFor step k s' = .inr o
  := by
  obtain ⟨m, hm⟩ := h
  have hle : m + 1 < n := by
    by_contra hlt
    obtain ⟨k, hk⟩ := Nat.exists_eq_add_of_le (Nat.le_of_not_lt hlt)
    have hend := runFor_add_of_halt n k h'
    rw [← hk, hm] at hend
    contradiction
  obtain ⟨k, rfl⟩ := Nat.exists_eq_add_of_lt hle
  use k + 1
  constructor
  · omega
  · rw [← runFor_add (m + 1) (k + 1) hm]
    apply h'

/-! ### Simulation -/

/-- How far two machines have to go from related states: both end with the same outcome, or
the first makes a step at least to related states, and so does the second unless it stands
still while the rank of the first goes down. -/
def Keeps (step : σ → σ ⊕ ο) (step' : τ → τ ⊕ ο) (R : σ → τ → Prop) (rank : σ → Nat)
    (s : σ) (t : τ) : Prop :=
  (∃ o, Halts step s o ∧ Halts step' t o)
    ∨ ∃ s' t', Advances step s s' ∧ (Advances step' t t' ∨ t = t' ∧ rank s' < rank s) ∧ R s' t'

variable {step' : τ → τ ⊕ ο} {R : σ → τ → Prop} {rank : σ → Nat} {t : τ}

/-- What the first machine ends with, the second one ends with too. -/
theorem halts_of_keeps (hkeeps : ∀ s t, R s t → Keeps step step' R rank s t) (n : Nat)
    (hR : R s t) (h : runFor step n s = .inr o) :
  Halts step' t o
  := by
  induction n using Nat.strongRecOn generalizing s t with
  | ind n ih =>
      obtain ⟨o', hs, ht⟩ | ⟨s', t', hs, ht, hR'⟩ := hkeeps s t hR
      · obtain rfl := Halts.unique ⟨n, h⟩ hs
        apply ht
      · obtain ⟨k, hk, hrun⟩ := hs.runFor_lt h
        have hhalts := ih k hk hR' hrun
        obtain hadv | ⟨rfl, -⟩ := ht
        · apply hadv.reaches.halts hhalts
        · apply hhalts

/-- What the second machine ends with, the first one ends with too. The induction is on the steps
that the second machine has left and then on the rank, since the second machine may stand still. -/
theorem halts_of_keeps' (hkeeps : ∀ s t, R s t → Keeps step step' R rank s t) (n : Nat)
    (hR : R s t) (h : runFor step' n t = .inr o) :
  Halts step s o
  := by
  induction n using Nat.strongRecOn generalizing s t with
  | ind n ih =>
      induction hrank : rank s using Nat.strongRecOn generalizing s with
      | ind k ihk =>
          obtain ⟨o', hs, ht⟩ | ⟨s', t', hs, ht, hR'⟩ := hkeeps s t hR
          · obtain rfl := Halts.unique ⟨n, h⟩ ht
            apply hs
          · apply hs.reaches.halts
            obtain hadv | ⟨rfl, hlt⟩ := ht
            · obtain ⟨j, hj, hrun⟩ := hadv.runFor_lt h
              apply ih j hj hR' hrun
            · rw [hrank] at hlt
              apply ihk (rank s') hlt hR' rfl

/-- Machines that keep up with each other from related states on have the same outcomes. -/
theorem halts_iff_of_keeps (hkeeps : ∀ s t, R s t → Keeps step step' R rank s t) (hR : R s t) :
  Halts step s o ↔ Halts step' t o
  := by
  constructor
  · rintro ⟨n, hn⟩
    apply halts_of_keeps hkeeps n hR hn
  · rintro ⟨n, hn⟩
    apply halts_of_keeps' hkeeps n hR hn

end Execution

end ClassForge
