import ClassForge.Proofs.Source.Typing

/-!
# Slots of locals

The locals of a method have slots of their own that do not overlap. What is stored in the
slots of one local does not change what is loaded from those of another, so that slots which
hold the values of all locals do so after an assignment too. When a method starts, the
receiver and the arguments stand one after another from the first slot on, which is where the
receiver and the parameters have their slots.
-/

namespace ClassForge

open Machine

variable {A : Type}

/-! ### Locals in slots -/

/-- The declaration of a local that has a slot. -/
def LocalSlot.declaration (l : LocalSlot) : Local :=
  ⟨l.name, l.type⟩

/-- The scope has slots for what the context declares. -/
structure Scope.Fits (scope : Scope) (ctx : Context) : Prop where
  self : scope.self = ctx.self
  result : scope.method.result = ctx.result
  locals : scope.locals.slots.map LocalSlot.declaration = ctx.locals

/-- The slots hold the receiver and the values of the locals. -/
structure Machine.Frame.Holds (frame : Frame A) (scope : Scope) (env : Env A) : Prop where
  self : scope.method.isStatic = false → frame.load? 0 .reference = some (.ref env.self)
  var : ∀ l ∈ scope.locals.slots, ∀ kind, l.type.kind? = some kind →
    frame.load? l.slot.toNat kind = env.vars l.name

variable {scope : Scope} {ctx : Context} {env : Env A} {frame : Frame A}

theorem Locals.find_eq_ok {locals : Locals} {name : String} {l : LocalSlot} :
  locals.find name = .ok l ↔ locals.slots.find? (·.name = name) = some l
  := by
  unfold Locals.find
  cases locals.slots.find? (·.name = name) <;> simp

theorem Scope.Fits.typeOf? (hfits : scope.Fits ctx) (name : String) :
  ctx.typeOf? name = (scope.locals.slots.find? (·.name = name)).map LocalSlot.type
  := by
  rw [Context.typeOf?, ← hfits.locals, List.find?_map, Option.map_map]
  rfl

/-- The values that slots hold are of the kinds of their types. -/
theorem Machine.Frame.Holds.respects (hholds : frame.Holds scope env) (hfits : scope.Fits ctx) :
  env.Respects ctx
  := by
  intro name type kind v htype hkind hv
  rw [hfits.typeOf?] at htype
  obtain ⟨l, hfind, rfl⟩ := Option.map_eq_some_iff.mp htype
  obtain rfl : l.name = name := by simpa using List.find?_some hfind
  have hload := hholds.var l (List.mem_of_find?_eq_some hfind) kind hkind
  rw [hv] at hload
  apply kind_of_load? hload

/-! ### Layout -/

/-- The locals have different names, and their slots start at `first` and do not overlap. -/
structure Locals.Laid (first : Nat) (locals : Locals) : Prop where
  first_le : first ≤ locals.next
  next_le : locals.next ≤ 65535
  first_le_slot : ∀ l ∈ locals.slots, first ≤ l.slot.toNat
  apart : locals.slots.Pairwise fun l l' =>
    l.name ≠ l'.name ∧ l.slot.toNat + l.type.slots ≤ l'.slot.toNat
  below : ∀ l ∈ locals.slots, l.slot.toNat + l.type.slots ≤ locals.next
  slots_pos : ∀ l ∈ locals.slots, 0 < l.type.slots

/-- Only `void` takes no slots. -/
theorem Ty.slots_pos {t : Ty} (h : t.isVoid = false) :
  0 < t.slots
  := by
  cases t with
  | primitive p =>
      cases p with
      | void => contradiction
      | _ => decide
  | _ => exact Nat.one_pos

/-- What a local that is added changes: it gets the first free slot, its name is new, and the slots
do not run out. -/
theorem Locals.add_eq_ok {locals locals' : Locals} {l : Local} (h : locals.add l = .ok locals') :
  ∃ slot : UInt16, slot.toNat = locals.next ∧ (∀ l' ∈ locals.slots, l'.name ≠ l.name)
    ∧ 0 < l.type.slots ∧ locals.next + l.type.slots ≤ 65535
    ∧ ⟨locals.slots ++ [⟨l.name, l.type, slot⟩], locals.next + l.type.slots⟩ = locals'
  := by
  unfold Locals.add at h
  split at h
  · contradiction
  · next hname =>
    split at h
    · contradiction
    · next hvoid =>
      split at h
      · contradiction
      · next hnext =>
        have hlt : locals.next < UInt16.size := Nat.lt_succ_of_le (by omega)
        use UInt16.ofNat locals.next, UInt16.toNat_ofNat_of_lt hlt, by simpa using hname,
          Ty.slots_pos (Bool.eq_false_iff.mpr hvoid), Nat.le_of_not_lt hnext
        apply Except.ok.inj h

/-- Locals are added one after another. -/
theorem Locals.addAll_cons {locals locals' : Locals} {l : Local} {ls : List Local}
    (h : locals.addAll (l :: ls) = .ok locals') :
  ∃ locals₁, locals.add l = .ok locals₁ ∧ locals₁.addAll ls = .ok locals'
  := by
  rw [Locals.addAll, List.foldlM_cons] at h
  cases hl : locals.add l with
  | error e =>
      rw [hl] at h
      contradiction
  | ok locals₁ =>
      rw [hl] at h
      use locals₁, rfl, h

/-- Before any local, the slots start after the receiver. -/
theorem Locals.laid_start (isStatic : Bool) :
  (Locals.start isStatic).Laid (if isStatic then 0 else 1)
  := by
  constructor
  · apply Nat.le_refl
  · cases isStatic <;> decide
  · apply List.forall_mem_nil
  · apply List.Pairwise.nil
  · apply List.forall_mem_nil
  · apply List.forall_mem_nil

/-- A local that is added comes right after those before it. -/
theorem Locals.Laid.add {first : Nat} {locals locals' : Locals} {l : Local}
    (hlaid : locals.Laid first) (h : locals.add l = .ok locals') :
  locals'.Laid first
  := by
  obtain ⟨slot, hslot, hname, hpos, hnext, rfl⟩ := Locals.add_eq_ok h
  constructor
  · apply Nat.le_add_right_of_le hlaid.first_le
  · apply hnext
  · intro l' hl'
    obtain hl' | hl' := List.mem_append.mp hl'
    · apply hlaid.first_le_slot l' hl'
    · obtain rfl := List.mem_singleton.mp hl'
      rw [hslot]
      apply hlaid.first_le
  · apply List.pairwise_append.mpr
    use hlaid.apart, List.pairwise_singleton _ _
    intro l' hl' l'' hl''
    obtain rfl := List.mem_singleton.mp hl''
    use hname l' hl'
    rw [hslot]
    apply hlaid.below l' hl'
  · intro l' hl'
    obtain hl' | hl' := List.mem_append.mp hl'
    · apply Nat.le_add_right_of_le (hlaid.below l' hl')
    · obtain rfl := List.mem_singleton.mp hl'
      apply Nat.le_of_eq
      rw [hslot]
  · intro l' hl'
    obtain hl' | hl' := List.mem_append.mp hl'
    · apply hlaid.slots_pos l' hl'
    · obtain rfl := List.mem_singleton.mp hl'
      apply hpos

/-- Locals that are added come one after the other. -/
theorem Locals.Laid.addAll {first : Nat} {locals locals' : Locals} {ls : List Local}
    (hlaid : locals.Laid first) (h : locals.addAll ls = .ok locals') :
  locals'.Laid first
  := by
  induction ls generalizing locals with
  | nil =>
      obtain rfl := Except.ok.inj h
      apply hlaid
  | cons l ls ih =>
      obtain ⟨locals₁, hl, hls⟩ := Locals.addAll_cons h
      apply ih (hlaid.add hl) hls

/-- The slots of the locals follow one another up to `stop`. -/
inductive LocalSlot.Consecutive (stop : Nat) : Nat → List LocalSlot → Prop
  | nil : Consecutive stop stop []
  | cons {first : Nat} {l : LocalSlot} {ls : List LocalSlot} (hslot : l.slot.toNat = first)
      (h : Consecutive stop (first + l.type.slots) ls) :
      Consecutive stop first (l :: ls)

theorem LocalSlot.Consecutive.stop_eq {first stop : Nat} {ls : List LocalSlot}
    (h : Consecutive stop first ls) :
  stop = first + slotsOf (ls.map LocalSlot.type)
  := by
  induction h with
  | nil => rfl
  | cons _ _ ih => rw [ih, Nat.add_assoc, List.map_cons, slotsOf, slotsOf, List.foldr_cons]

/-- Added locals have the slots after those that are taken, in their order. -/
theorem Locals.addAll_eq_ok {locals locals' : Locals} {ls : List Local}
    (h : locals.addAll ls = .ok locals') :
  ∃ added, locals'.slots = locals.slots ++ added ∧ added.map LocalSlot.declaration = ls
    ∧ LocalSlot.Consecutive locals'.next locals.next added
  := by
  induction ls generalizing locals with
  | nil =>
      obtain rfl := Except.ok.inj h
      use [], (List.append_nil _).symm, rfl
      apply LocalSlot.Consecutive.nil
  | cons l ls ih =>
      obtain ⟨locals₁, hl, hls⟩ := Locals.addAll_cons h
      obtain ⟨slot, hslot, -, -, -, rfl⟩ := Locals.add_eq_ok hl
      obtain ⟨added, hslots, hdeclared, hconsecutive⟩ := ih hls
      use ⟨l.name, l.type, slot⟩ :: added
      refine ⟨?_, ?_, .cons hslot hconsecutive⟩
      · rw [hslots, List.append_assoc]
        rfl
      · rw [List.map_cons, hdeclared]
        rfl

/-! ### Assignment -/

theorem Machine.Value.slots_pos (v : Value A) :
  0 < v.slots
  := by
  cases v <;> simp [Value.slots, Value.kind, Kind.slots]

theorem Machine.store_of_apart (frame : Frame A) {slot slot' : Nat} {v : Value A}
    (h : slot' < slot ∨ slot + v.slots ≤ slot') :
  frame.store slot v slot' = frame slot'
  := by
  have hpos := v.slots_pos
  rw [Frame.store, if_neg (by omega), if_neg (by omega)]

/-- What is stored in some slots does not change what is loaded from others. -/
theorem Machine.load?_store_of_apart (frame : Frame A) {slot slot' : Nat} {v : Value A}
    {kind : Kind} (h : slot + v.slots ≤ slot' ∨ slot' + kind.slots ≤ slot) :
  (frame.store slot v).load? slot' kind = frame.load? slot' kind
  := by
  have hpos : 0 < kind.slots := by cases kind <;> decide
  have hslot : frame.store slot v slot' = frame slot' := store_of_apart frame (by omega)
  have hnext : kind.slots = 2 → frame.store slot v (slot' + 1) = frame (slot' + 1) := by
    intro hwide
    apply store_of_apart frame
    omega
  unfold Frame.load?
  rw [hslot]
  cases frame slot' with
  | none => rfl
  | some v' =>
      by_cases hwide : kind.slots = 2
      · simp only [hnext hwide]
      · simp only [hwide, false_implies]

theorem Env.vars_set_self (env : Env A) (name : String) (v : Value A) :
  (env.set name v).vars name = some v
  := if_pos rfl

theorem Env.vars_set_of_ne (env : Env A) {name name' : String} (h : name' ≠ name) (v : Value A) :
  (env.set name v).vars name' = env.vars name'
  := if_neg h

/-- Two locals are the same or have different names and slots apart from each other. -/
theorem Locals.Laid.eq_or_apart {first : Nat} {locals : Locals} (hlaid : locals.Laid first)
    {l l' : LocalSlot} (hl : l ∈ locals.slots) (hl' : l' ∈ locals.slots) :
  l' = l ∨ l'.name ≠ l.name ∧ (l.slot.toNat + l.type.slots ≤ l'.slot.toNat
    ∨ l'.slot.toNat + l'.type.slots ≤ l.slot.toNat)
  := by
  have hpairs : ∀ x ∈ locals.slots, ∀ y ∈ locals.slots, y = x ∨ y.name ≠ x.name
      ∧ (x.slot.toNat + x.type.slots ≤ y.slot.toNat
        ∨ y.slot.toNat + y.type.slots ≤ x.slot.toNat) := by
    apply List.Pairwise.forall_of_forall_of_flip
    · intro x _
      left
      rfl
    · apply hlaid.apart.imp
      intro x y h
      apply Or.inr ⟨h.1.symm, Or.inl h.2⟩
    · apply hlaid.apart.imp
      intro x y h
      apply Or.inr ⟨h.1, Or.inr h.2⟩
  apply hpairs l hl l' hl'

/-- After an assignment the slots hold the new values. -/
theorem Machine.Frame.Holds.assign (hholds : frame.Holds scope env)
    (hlaid : scope.locals.Laid (if scope.method.isStatic then 0 else 1)) {name : String}
    {l : LocalSlot} {v : Value A} (hl : scope.locals.find name = .ok l)
    (hkind : l.type.kind? = some v.kind) :
  (frame.store l.slot.toNat v).Holds scope (env.set name v)
  := by
  have hfind := Locals.find_eq_ok.mp hl
  have hmem := List.mem_of_find?_eq_some hfind
  obtain rfl : l.name = name := by simpa using List.find?_some hfind
  constructor
  · intro hstatic
    have hfirst := hlaid.first_le_slot l hmem
    rw [hstatic, if_neg Bool.false_ne_true] at hfirst
    rw [load?_store_of_apart frame (Or.inr hfirst)]
    apply hholds.self hstatic
  · intro l' hmem' kind hkind'
    obtain rfl | ⟨hname, hapart⟩ := hlaid.eq_or_apart hmem hmem'
    · obtain rfl := Option.some.inj (hkind.symm.trans hkind')
      rw [load?_store, Env.vars_set_self]
    · rw [Ty.slots_of_kind? hkind, Ty.slots_of_kind? hkind'] at hapart
      rw [load?_store_of_apart frame hapart, Env.vars_set_of_ne env hname]
      apply hholds.var l' hmem' kind hkind'

/-! ### The start of a method -/

/-- The slots with values put one after another from `slot` on. -/
def Machine.Frame.place (frame : Frame A) (slot : Nat) : List (Value A) → Frame A
  | [] => frame
  | v :: vs => (frame.store slot v).place (slot + v.slots) vs

/-- The slots when a method starts, with the receiver and the arguments in order. -/
def Method.entryFrame (m : Method) (receiver : Option A) (args : List (Value A)) : Frame A :=
  Frame.place (fun _ => none) 0 ((if m.isStatic then [] else [.ref receiver]) ++ args)

/-- The arguments are of the kinds of the parameters. -/
def Method.Takes (m : Method) (args : List (Value A)) : Prop :=
  List.Forall₂ (fun l v => l.type.kind? = some v.kind) m.params args

/-- The slots hold the values of the locals so far, and nothing is held by other slots nor
bound to other names. -/
structure Scope.Entered (scope : Scope) (env : Env A) (frame : Frame A) : Prop where
  laid : scope.locals.Laid (if scope.method.isStatic then 0 else 1)
  holds : frame.Holds scope env
  free : ∀ n, scope.locals.next ≤ n → frame n = none
  unnamed : ∀ name, (∀ l ∈ scope.locals.slots, l.name ≠ name) → env.vars name = none

namespace Scope.Entered

/-- A method is entered with its receiver in the first slot, if it has one. -/
theorem start (self : Ty) (m : Method) (receiver : Option A) :
  Entered ⟨self, m, .start m.isStatic⟩ ⟨receiver, fun _ => none⟩
    (Frame.place (fun _ => none) 0 (if m.isStatic then [] else [.ref receiver]))
  := by
  constructor
  · apply Locals.laid_start
  · constructor
    · intro hstatic
      change m.isStatic = false at hstatic
      rw [hstatic]
      apply load?_store
    · intro l hl
      contradiction
  · intro n hn
    change (if m.isStatic then 0 else 1) ≤ n at hn
    cases hstatic : m.isStatic with
    | true => rfl
    | false =>
        rw [hstatic] at hn
        apply store_of_apart
        right
        apply hn
  · intro name _
    rfl

variable {self : Ty} {m : Method} {locals locals' : Locals}

/-- One more local, without a value. -/
theorem add (h : Entered ⟨self, m, locals⟩ env frame) {l : Local}
    (hadd : locals.add l = .ok locals') :
  Entered ⟨self, m, locals'⟩ env frame
  := by
  have hlaid := h.laid.add hadd
  obtain ⟨slot, hslot, hname, -, -, rfl⟩ := Locals.add_eq_ok hadd
  constructor
  · apply hlaid
  · constructor
    · apply h.holds.self
    · intro l' hl' kind hkind
      obtain hl' | hl' := List.mem_append.mp hl'
      · apply h.holds.var l' hl' kind hkind
      · obtain rfl := List.mem_singleton.mp hl'
        rw [h.unnamed l.name hname, Frame.load?, hslot, h.free _ (Nat.le_refl _)]
  · intro n hn
    apply h.free n (Nat.le_of_add_right_le hn)
  · intro name hnames
    apply h.unnamed name
    intro l' hl'
    apply hnames l' (List.mem_append_left _ hl')

/-- One more local, with a value in the slots after those that are taken. -/
theorem addValue (h : Entered ⟨self, m, locals⟩ env frame) {l : Local} {v : Value A}
    (hadd : locals.add l = .ok locals') (hkind : l.type.kind? = some v.kind) :
  Entered ⟨self, m, locals'⟩ (env.set l.name v) (frame.store locals.next v)
    ∧ locals'.next = locals.next + v.slots
  := by
  have hentered := h.add hadd
  obtain ⟨slot, hslot, hname, -, -, rfl⟩ := Locals.add_eq_ok hadd
  have hslots : l.type.slots = v.slots := Ty.slots_of_kind? hkind
  have hfind : (locals.slots ++ [LocalSlot.mk l.name l.type slot]).find? (·.name = l.name)
      = some ⟨l.name, l.type, slot⟩ := by
    have hnone : locals.slots.find? (·.name = l.name) = none := by simpa using hname
    rw [List.find?_append, hnone]
    simp
  rw [hslots] at hentered ⊢
  constructor
  · constructor
    · apply hentered.laid
    · have hholds := hentered.holds.assign hentered.laid (Locals.find_eq_ok.mpr hfind) hkind
      rw [hslot] at hholds
      apply hholds
    · intro n hn
      rw [store_of_apart frame (Or.inr hn)]
      apply hentered.free n hn
    · intro name hnames
      rw [Env.vars_set_of_ne]
      · apply hentered.unnamed name hnames
      · apply (hnames ⟨l.name, l.type, slot⟩ (List.mem_append_right _ List.mem_cons_self)).symm
  · rfl

/-- Locals without values do not matter on entry. -/
theorem addAll {ls : List Local} (h : Entered ⟨self, m, locals⟩ env frame)
    (hadd : locals.addAll ls = .ok locals') :
  Entered ⟨self, m, locals'⟩ env frame
  := by
  induction ls generalizing locals with
  | nil =>
      obtain rfl := Except.ok.inj hadd
      apply h
  | cons l ls ih =>
      obtain ⟨locals₁, hl, hls⟩ := Locals.addAll_cons hadd
      apply ih (h.add hl) hls

/-- Parameters are bound to the values in their slots. -/
theorem addValues {ls : List Local} {vs : List (Value A)}
    (h : Entered ⟨self, m, locals⟩ env frame) (hadd : locals.addAll ls = .ok locals')
    (hkinds : List.Forall₂ (fun l v => l.type.kind? = some v.kind) ls vs) :
  Entered ⟨self, m, locals'⟩ (env.bind ls vs) (frame.place locals.next vs)
  := by
  induction hkinds generalizing locals env frame with
  | nil =>
      obtain rfl := Except.ok.inj hadd
      apply h
  | cons hkind _ ih =>
      obtain ⟨locals₁, hl, hls⟩ := Locals.addAll_cons hadd
      obtain ⟨hentered, hnext⟩ := h.addValue hl hkind
      have hrest := ih hentered hls
      rw [hnext] at hrest
      apply hrest

end Scope.Entered

theorem Locals.declarations_addAll {locals locals' : Locals} {ls : List Local}
    (h : locals.addAll ls = .ok locals') :
  locals'.slots.map LocalSlot.declaration = locals.slots.map LocalSlot.declaration ++ ls
  := by
  obtain ⟨added, hslots, hdeclared, -⟩ := Locals.addAll_eq_ok h
  rw [hslots, List.map_append, hdeclared]

/-- The locals of a method are its parameters and then those of its body. -/
theorem Locals.ofMethod_eq_ok {m : Method} {body : Body} {locals : Locals}
    (h : Locals.ofMethod m body = .ok locals) :
  ∃ params, (Locals.start m.isStatic).addAll m.params = .ok params
    ∧ params.addAll body.locals = .ok locals
  := by
  cases hparams : (Locals.start m.isStatic).addAll m.params with
  | error e =>
      rw [Locals.ofMethod, hparams] at h
      contradiction
  | ok params =>
      rw [Locals.ofMethod, hparams] at h
      use params, rfl, h

theorem Locals.laid_ofMethod {m : Method} {body : Body} {locals : Locals}
    (h : Locals.ofMethod m body = .ok locals) :
  locals.Laid (if m.isStatic then 0 else 1)
  := by
  obtain ⟨params, hparams, hlocals⟩ := Locals.ofMethod_eq_ok h
  apply ((Locals.laid_start m.isStatic).addAll hparams).addAll hlocals

/-- The locals of a method are those that its context declares. -/
theorem Scope.fits_ofMethod (self : Ty) {m : Method} {body : Body} {locals : Locals}
    (h : Locals.ofMethod m body = .ok locals) :
  Scope.Fits ⟨self, m, locals⟩ (.ofMethod self m body)
  := by
  obtain ⟨params, hparams, hlocals⟩ := Locals.ofMethod_eq_ok h
  constructor
  · rfl
  · rfl
  · rw [Locals.declarations_addAll hlocals, Locals.declarations_addAll hparams]
    rfl

/-- When a method starts, its slots hold the receiver and the arguments. -/
theorem Scope.entered_ofMethod (self : Ty) {m : Method} {body : Body} {locals : Locals}
    (h : Locals.ofMethod m body = .ok locals) (receiver : Option A) {args : List (Value A)}
    (hargs : m.Takes args) :
  Scope.Entered ⟨self, m, locals⟩ ((Env.mk receiver fun _ => none).bind m.params args)
    (m.entryFrame receiver args)
  := by
  obtain ⟨params, hparams, hlocals⟩ := Locals.ofMethod_eq_ok h
  have hentry : m.entryFrame receiver args
      = (Frame.place (fun _ => none) 0 (if m.isStatic then [] else [.ref receiver])).place
          (Locals.start m.isStatic).next args := by
    unfold Method.entryFrame
    cases m.isStatic <;> rfl
  rw [hentry]
  apply Scope.Entered.addAll _ hlocals
  apply (Scope.Entered.start self m receiver).addValues hparams hargs

end ClassForge
