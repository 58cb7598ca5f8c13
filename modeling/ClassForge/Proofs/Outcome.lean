import ClassForge.Event
import Mathlib.Data.List.Forall2
import Mathlib.Tactic.Common

/-!
# Outcomes

What is done in several steps comes to a result if each step does, and to an error if one of
the steps does and all before it come to a result. Steps may change a state that the next one
starts from. The events that are noted on the way make no difference.
-/

section

variable {ε ε' α β : Type}

@[grind =]
theorem Except.pure_eq_ok (a : α) :
  (Pure.pure a : Except ε α) = .ok a
  := rfl

@[grind =]
theorem Except.bind_eq_ok_iff {x : Except ε α} {f : α → Except ε β} {b : β} :
  x >>= f = .ok b ↔ ∃ a, x = .ok a ∧ f a = .ok b
  := by
  cases x with
  | error e => simp [bind, Except.bind]
  | ok a => simp [bind, Except.bind]

theorem Except.bind_eq_error_iff {x : Except ε α} {f : α → Except ε β} {e : ε} :
  x >>= f = .error e ↔ x = .error e ∨ ∃ a, x = .ok a ∧ f a = .error e
  := by
  cases x with
  | error e => simp [bind, Except.bind]
  | ok a => simp [bind, Except.bind]

theorem Except.exists_bind_eq_ok {x : Except ε α} {f : α → Except ε β} {a : α} (hx : x = .ok a)
    (hf : ∃ b, f a = .ok b) :
  ∃ b, x >>= f = .ok b
  := by
  obtain ⟨b, hb⟩ := hf
  use b
  apply Except.bind_eq_ok_iff.mpr ⟨a, hx, hb⟩

theorem Except.mapError_eq_ok_iff {x : Except ε α} {g : ε → ε'} {a : α} :
  x.mapError g = .ok a ↔ x = .ok a
  := by
  cases x <;> simp [Except.mapError]

theorem Except.mapError_eq_error_iff {x : Except ε α} {g : ε → ε'} {e : ε'} :
  x.mapError g = .error e ↔ ∃ e', x = .error e' ∧ g e' = e
  := by
  cases x <;> simp [Except.mapError]

/-- A step for each element comes to results if each of them does. -/
theorem Except.mapM_eq_ok_iff {f : α → Except ε β} {as : List α} {bs : List β} :
  as.mapM f = .ok bs ↔ List.Forall₂ (fun a b => f a = .ok b) as bs
  := by
  induction as generalizing bs with
  | nil =>
      rw [List.mapM_nil, List.forall₂_nil_left_iff]
      constructor
      · intro h
        apply (Except.ok.inj h).symm
      · rintro rfl
        rfl
  | cons a as ih =>
      rw [List.mapM_cons, List.forall₂_cons_left_iff]
      simp only [Except.bind_eq_ok_iff, ih]
      constructor
      · rintro ⟨b, hb, bs', hbs, heq⟩
        use b, bs', hb, hbs, (Except.ok.inj heq).symm
      · rintro ⟨b, bs', hb, hbs, rfl⟩
        use b, hb, bs', hbs
        rfl

/-- All elements have results if each of them has one. -/
theorem Except.exists_mapM_eq_ok {f : α → Except ε β} {as : List α}
    (h : ∀ a ∈ as, ∃ b, f a = .ok b) :
  ∃ bs, as.mapM f = .ok bs
  := by
  induction as with
  | nil =>
      use []
      rfl
  | cons a as ih =>
      obtain ⟨b, hb⟩ := h a List.mem_cons_self
      obtain ⟨bs, hbs⟩ := ih fun a' ha' => h a' (List.mem_cons_of_mem a ha')
      rw [List.mapM_cons]
      apply Except.exists_bind_eq_ok hb
      exact Except.exists_bind_eq_ok hbs ⟨_, rfl⟩

/-- An element has a partner at the same place. -/
theorem List.Forall₂.exists_getElem? {R : α → β → Prop} {as : List α} {bs : List β}
    (h : List.Forall₂ R as bs) {k : Nat} {a : α} (hk : as[k]? = some a) :
  ∃ b, bs[k]? = some b ∧ R a b
  := by
  induction h generalizing k with
  | nil => contradiction
  | @cons a' b as bs hab _ ih =>
      cases k with
      | zero =>
          obtain rfl := Option.some.inj hk
          use b, rfl
      | succ k => apply ih hk

/-- An element on the right has a partner on the left. -/
theorem List.Forall₂.exists_of_mem_right {R : α → β → Prop} {as : List α} {bs : List β}
    (h : List.Forall₂ R as bs) {b : β} (hb : b ∈ bs) :
  ∃ a ∈ as, R a b
  := by
  induction h with
  | nil => contradiction
  | @cons a b' as bs hab _ ih =>
      obtain rfl | hb := List.mem_cons.mp hb
      · use a, List.mem_cons_self
      · obtain ⟨a', ha', h⟩ := ih hb
        use a', List.mem_cons_of_mem a ha'

theorem List.Forall₂.exists_of_mem_left {R : α → β → Prop} {as : List α} {bs : List β}
    (h : List.Forall₂ R as bs) {a : α} (ha : a ∈ as) :
  ∃ b ∈ bs, R a b
  := by
  have hflip : List.Forall₂ (fun b a => R a b) bs as := List.Forall₂.flip h
  apply hflip.exists_of_mem_right ha

/-- What is related through elements in between. -/
theorem List.Forall₂.comp_of_mem {γ : Type} {R : α → β → Prop} {S : β → γ → Prop}
    {T : α → γ → Prop} {as : List α} {bs : List β} {cs : List γ} (hR : List.Forall₂ R as bs)
    (hS : List.Forall₂ S bs cs) (hT : ∀ a ∈ as, ∀ b c, R a b → S b c → T a c) :
  List.Forall₂ T as cs
  := by
  induction hR generalizing cs with
  | nil =>
      cases hS
      exact .nil
  | @cons a b as bs hab _ ih =>
      cases hS with
      | cons hbc hcs =>
          apply List.Forall₂.cons (hT a List.mem_cons_self b _ hab hbc)
          apply ih hcs fun a' ha' => hT a' (List.mem_cons_of_mem a ha')

end

section

variable {σ ε α β : Type} {s s' : σ}

theorem EStateM.bind_eq_ok_iff {x : EStateM ε σ α} {f : α → EStateM ε σ β} {b : β} :
  (x >>= f) s = .ok b s' ↔ ∃ a s₁, x s = .ok a s₁ ∧ f a s₁ = .ok b s'
  := by
  change EStateM.bind x f s = _ ↔ _
  unfold EStateM.bind
  cases x s <;> simp

theorem EStateM.bind_eq_error_iff {x : EStateM ε σ α} {f : α → EStateM ε σ β} {e : ε} :
  (x >>= f) s = .error e s'
    ↔ x s = .error e s' ∨ ∃ a s₁, x s = .ok a s₁ ∧ f a s₁ = .error e s'
  := by
  change EStateM.bind x f s = _ ↔ _
  unfold EStateM.bind
  cases x s <;> simp

theorem EStateM.discard_eq_ok_iff {x : EStateM ε σ α} :
  discard x s = .ok () s' ↔ ∃ a, x s = .ok a s'
  := by
  change EStateM.map _ x s = _ ↔ _
  unfold EStateM.map
  cases x s <;> simp

theorem EStateM.discard_eq_error_iff {x : EStateM ε σ α} {e : ε} :
  discard x s = .error e s' ↔ x s = .error e s'
  := by
  change EStateM.map _ x s = _ ↔ _
  unfold EStateM.map
  cases x s <;> simp

/-- The state that is left, whether there is a result or an error. -/
def EStateM.Result.state : EStateM.Result ε σ α → σ
  | .ok _ s => s
  | .error _ s => s

theorem EStateM.bind_of_ok {x : EStateM ε σ α} {f : α → EStateM ε σ β} {a : α}
    (h : x s = .ok a s') :
  (x >>= f) s = f a s'
  := by
  change EStateM.bind x f s = _
  rw [EStateM.bind, h]

theorem EStateM.bind_of_error {x : EStateM ε σ α} {f : α → EStateM ε σ β} {e : ε}
    (h : x s = .error e s') :
  (x >>= f) s = .error e s'
  := by
  change EStateM.bind x f s = _
  rw [EStateM.bind, h]

theorem EStateM.state_discard (x : EStateM ε σ α) (s : σ) :
  (discard x s).state = (x s).state
  := by
  change (EStateM.map _ x s).state = _
  unfold EStateM.map
  cases x s <;> rfl

theorem EStateM.state_adaptExcept {ε' : Type} (g : ε → ε') (x : EStateM ε σ α) (s : σ) :
  (EStateM.adaptExcept g x s).state = (x s).state
  := by
  unfold EStateM.adaptExcept
  cases x s <;> rfl

/-- What leads to related states step by step does so as a whole. -/
theorem EStateM.state_bind_of_trans (R : σ → σ → Prop)
    (htrans : ∀ {s₁ s₂ s₃}, R s₁ s₂ → R s₂ s₃ → R s₁ s₃)
    {x : EStateM ε σ α} {f : α → EStateM ε σ β} (hx : R s (x s).state)
    (hf : ∀ a s', x s = .ok a s' → R s' (f a s').state) :
  R s ((x >>= f) s).state
  := by
  cases h : x s with
  | ok a s' =>
      rw [h] at hx
      rw [EStateM.bind_of_ok h]
      apply htrans hx (hf a s' h)
  | error e s' =>
      rw [h] at hx
      rw [EStateM.bind_of_error h]
      apply hx

/-- What a step keeps is kept by steps for all elements. -/
theorem EStateM.state_forM (R : σ → σ → Prop) (hrefl : ∀ s, R s s)
    (htrans : ∀ {s₁ s₂ s₃}, R s₁ s₂ → R s₂ s₃ → R s₁ s₃) {f : α → EStateM ε σ PUnit} {as : List α}
    (hf : ∀ a s, R s (f a s).state) :
  R s (as.forM f s).state
  := by
  induction as generalizing s with
  | nil => apply hrefl
  | cons a as ih =>
      apply EStateM.state_bind_of_trans R htrans (hf a s)
      intro _ s' _
      apply ih

end

namespace ClassForge

namespace Traced

variable {ε ε' α β : Type}

@[simp]
theorem outcome_pure (a : α) :
  (Pure.pure a : Traced ε α).outcome = .ok a
  := rfl

@[simp]
theorem outcome_note (e : Event) :
  (note e : Traced ε Unit).outcome = .ok ()
  := rfl

@[simp]
theorem outcome_lift (x : Except ε α) :
  (liftM x : Traced ε α).outcome = x
  := rfl

@[simp]
theorem outcome_bind (x : Traced ε α) (f : α → Traced ε β) :
  (x >>= f).outcome = x.outcome >>= fun a => (f a).outcome
  := by
  change (bind x f).outcome = _
  rw [bind]
  cases x.outcome <;> rfl

/-- A step for each element, without regard to events. -/
theorem outcome_mapM (f : α → Traced ε β) (as : List α) :
  (as.mapM f).outcome = as.mapM fun a => (f a).outcome
  := by
  have hloop (done : List β) : (List.mapM.loop f as done).outcome
      = List.mapM.loop (fun a => (f a).outcome) as done := by
    induction as generalizing done with
    | nil => rfl
    | cons a as ih =>
        rw [List.mapM.loop, outcome_bind, List.mapM.loop]
        congr 1
        funext b
        apply ih
  apply hloop []

@[simp]
theorem outcome_mapError (g : ε → ε') (x : Traced ε α) :
  (x.mapError g).outcome = x.outcome.mapError g
  := rfl

end Traced

end ClassForge
