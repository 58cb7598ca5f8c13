import ClassForge.Error
import ClassForge.Proofs.Outcome

/-!
# Errors that are to be expected

Whether a class can be compiled depends on what is in it: something may not be supported, an
instruction may not exist, or something may be too large for the format. Other errors can only
come of the compiler itself, if it refers to an entry or a label that is not there, or if
it finds another size than it has laid out.
-/

namespace ClassForge

variable {ε ε' α β : Type}

/-- Only errors that satisfy `P` come of it. -/
structure FailsOnly (P : ε → Prop) (x : Except ε α) : Prop where
  of_error : ∀ {e}, x = .error e → P e

namespace FailsOnly

variable {P : ε → Prop}

theorem ok (a : α) :
  FailsOnly P (.ok a)
  := ⟨fun h => nomatch h⟩

theorem error {e : ε} (h : P e) :
  FailsOnly P (.error e : Except ε α)
  := ⟨fun heq => Except.error.inj heq ▸ h⟩

theorem of_eq_ok {x : Except ε α} {a : α} (h : x = .ok a) :
  FailsOnly P x
  := h ▸ ok a

theorem imp {P' : ε → Prop} {x : Except ε α} (h : FailsOnly P x) (himp : ∀ e, P e → P' e) :
  FailsOnly P' x
  := ⟨fun heq => himp _ (h.of_error heq)⟩

/-- What cannot fail at all succeeds. -/
theorem exists_ok {x : Except ε α} (h : FailsOnly P x) (hfalse : ∀ e, ¬ P e) :
  ∃ a, x = .ok a
  := by
  cases hx : x with
  | error e => exact absurd (h.of_error hx) (hfalse e)
  | ok a => use a

/-- One thing after another fails only for what one of them fails for. -/
theorem bind {x : Except ε α} {f : α → Except ε β} (hx : FailsOnly P x)
    (hf : ∀ a, x = .ok a → FailsOnly P (f a)) :
  FailsOnly P (x >>= f)
  := by
  constructor
  intro e h
  obtain h | ⟨a, ha, h⟩ := Except.bind_eq_error_iff.mp h
  · apply hx.of_error h
  · apply (hf a ha).of_error h

theorem mapError {x : Except ε' α} {g : ε' → ε} (h : FailsOnly (fun e => P (g e)) x) :
  FailsOnly P (x.mapError g)
  := by
  constructor
  intro e he
  obtain ⟨e', he', rfl⟩ := Except.mapError_eq_error_iff.mp he
  apply h.of_error he'

/-- A list fails only for one of its elements. -/
theorem mapM {f : α → Except ε β} {as : List α} (h : ∀ a ∈ as, FailsOnly P (f a)) :
  FailsOnly P (as.mapM f)
  := by
  induction as with
  | nil => apply ok
  | cons a as ih =>
      rw [List.mapM_cons]
      apply (h a List.mem_cons_self).bind
      intro b _
      apply (ih fun a' ha' => h a' (List.mem_cons_of_mem a ha')).bind
      intro bs _
      apply ok

/-- The same for steps that note events. -/
theorem outcome_mapM {f : α → Traced ε β} {as : List α} (h : ∀ a ∈ as, FailsOnly P (f a).outcome) :
  FailsOnly P (as.mapM f).outcome
  := by
  rw [Traced.outcome_mapM]
  apply mapM h

end FailsOnly

/-! ### Kinds of errors -/

/-- Whether the constant pool has become too large, or a text in it. -/
def PoolError.isForeseen : PoolError → Bool
  | .overflow _ | .utf8TooLong _ => true
  | .missing _ => false

/-- Whether the constant pool has become too large. -/
def PoolError.isOverflow : PoolError → Bool
  | .overflow _ => true
  | .utf8TooLong _ | .missing _ => false

/-- Whether a distance, a call or the code is too large. -/
def EncodeError.isForeseen : EncodeError → Bool
  | .branchOutOfRange .. | .branchGrew .. | .tooManyArguments _ | .codeTooLong _ => true
  | .unresolvedLabel _ | .duplicateLabel _ | .sizeMismatch .. | .pool _ => false

/-- Whether it is the class that is at fault. -/
def Unsupported.isForeseen : Unsupported → Bool
  | .handlerIndex _ => false
  | _ => true

/-- Whether the error can be expected of a class. -/
def CompileError.isForeseen : CompileError → Bool
  | .unsupported reason => reason.isForeseen
  | .instruction .. => true
  | .encode _ _ source => source.isForeseen
  | .pool source => source.isForeseen
  | .inMethod .. | .inClass .. => false

/-- The error can be expected of a class, wherever in it. -/
abbrev CompileError.Foreseen (e : CompileError) : Prop :=
  e.root.isForeseen = true

/-- The constant pool has become too large, wherever in the class. -/
def CompileError.Overflow (e : CompileError) : Prop :=
  ∃ source, e.root = .pool source ∧ source.isOverflow = true

theorem CompileError.Overflow.foreseen {e : CompileError} (h : e.Overflow) :
  e.Foreseen
  := by
  obtain ⟨source, hroot, hoverflow⟩ := h
  rw [Foreseen, hroot]
  cases source with
  | overflow _ => rfl
  | utf8TooLong _ | missing _ => contradiction

end ClassForge
