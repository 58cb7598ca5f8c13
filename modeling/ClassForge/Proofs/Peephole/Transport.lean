import ClassForge.Proofs.Peephole.Preservation
import ClassForge.Proofs.Peephole.Settling
import Mathlib.Data.List.Forall2

/-!
# Handlers move with the code

A pass divides the code into blocks, one after the other: an instruction that stays, or a window
that is replaced. Handlers start and end between blocks only, and a pass moves both places of a
handler to where the same blocks meet in the rewritten code. So a handler protects an
instruction that stays, and a label in particular, exactly if it did so before.
-/

namespace ClassForge

namespace Peephole

open Machine

/-! ### Blocks -/

/-- A part of the code as a pass deals with it. -/
inductive Block where
  /-- An instruction that stays. -/
  | kept (i : Instruction)
  /-- A window that is replaced. -/
  | replaced {window replacement : List Instruction} (h : Replaces window replacement)

namespace Block

/-- The instructions of the block before the pass. -/
def before : Block → List Instruction
  | kept i => [i]
  | @replaced window _ _ => window

/-- The instructions of the block after the pass. -/
def after : Block → List Instruction
  | kept i => [i]
  | @replaced _ replacement _ => replacement

theorem length_before_pos (b : Block) :
  0 < b.before.length
  := by
  cases b with
  | kept i => apply Nat.one_pos
  | replaced h => apply List.length_pos_iff.mpr h.ne_nil

/-- What a pass does at a place, where the given code stands: it uses the first rule that
applies, unless one of the edges lies strictly within the window. -/
def Follows (edges : List Nat) (place : Nat) (code : List Instruction) : Block → Prop
  | kept _ => ∀ r, step? code = some r → ∃ x ∈ edges, place < x ∧ x < place + r.length
  | @replaced window replacement _ =>
    (∃ r, step? code = some r ∧ r.length = window.length ∧ r.replacement = replacement)
      ∧ ∀ x ∈ edges, ¬ (place < x ∧ x < place + window.length)

/-- No edge lies strictly within a block. -/
theorem Follows.outside {edges : List Nat} {place x : Nat} {code : List Instruction} {b : Block}
    (h : b.Follows edges place code) (hx : x ∈ edges) :
  x ≤ place ∨ place + b.before.length ≤ x
  := by
  cases b with
  | kept i =>
      have hlength : (kept i).before.length = 1 := rfl
      omega
  | @replaced window replacement hreplaces =>
      have hfree := h.2 x hx
      have hlength : (replaced hreplaces).before.length = window.length := rfl
      omega

end Block

/-- Where handlers start and end. -/
def edges (handlers : List Handler) : List Nat :=
  handlers.flatMap fun h => [h.start, h.stop]

theorem start_mem_edges {handlers : List Handler} {h : Handler} (hmem : h ∈ handlers) :
  h.start ∈ edges handlers
  := List.mem_flatMap.mpr ⟨h, hmem, List.mem_cons_self⟩

theorem stop_mem_edges {handlers : List Handler} {h : Handler} (hmem : h ∈ handlers) :
  h.stop ∈ edges handlers
  := List.mem_flatMap.mpr ⟨h, hmem, List.mem_cons_of_mem _ List.mem_cons_self⟩

/-- A window is crossed exactly if an edge of a handler is strictly within it. -/
theorem anyStraddles_iff {handlers : List Handler} {start stop : Nat} :
  anyStraddles handlers start stop = true ↔ ∃ x ∈ edges handlers, start < x ∧ x < stop
  := by
  rw [anyStraddles_eq_true]
  constructor
  · rintro ⟨h, hmem, hstart | hstop⟩
    · use h.start, start_mem_edges hmem
    · use h.stop, stop_mem_edges hmem
  · rintro ⟨x, hx, hbetween⟩
    obtain ⟨h, hmem, hx⟩ := List.mem_flatMap.mp hx
    use h, hmem
    obtain rfl | rfl : x = h.start ∨ x = h.stop := by simpa using hx
    · left
      apply hbetween
    · right
      apply hbetween

theorem edges_shiftAll (handlers : List Handler) (stop removed added : Nat) :
  edges (shiftAll handlers stop removed added)
    = (edges handlers).map (shiftPlace stop removed added)
  := by
  simp [edges, shiftAll, Handler.shift, List.flatMap_map, List.map_flatMap]

/-- The blocks that a pass divides the code from a place on into. -/
inductive Divides (edges : List Nat) : Nat → List Instruction → List Block → Prop
  | nil {place : Nat} : Divides edges place [] []
  | cons {place : Nat} {b : Block} {rest : List Instruction} {blocks : List Block}
      (hb : b.Follows edges place (b.before ++ rest))
      (hrest : Divides edges (place + b.before.length) rest blocks) :
      Divides edges place (b.before ++ rest) (b :: blocks)

theorem between_shiftPlace_iff {start removed x : Nat}
    (hx : x ≤ start ∨ start + removed ≤ x) (added n length : Nat) :
  (start + added + n < shiftPlace (start + removed) removed added x
      ∧ shiftPlace (start + removed) removed added x < start + added + n + length)
    ↔ start + removed + n < x ∧ x < start + removed + n + length
  := by
  unfold shiftPlace
  split <;> omega

/-- A pass divides what follows a window in the same way, whether the window has been replaced
or not. -/
theorem Divides.of_shift {edges : List Nat} {start removed added n : Nat} {rest : List Instruction}
    {blocks : List Block} (hedges : ∀ x ∈ edges, x ≤ start ∨ start + removed ≤ x)
    (h : Divides (edges.map (shiftPlace (start + removed) removed added)) (start + added + n) rest
      blocks) :
  Divides edges (start + removed + n) rest blocks
  := by
  generalize hplace : start + added + n = place at h
  induction h generalizing n with
  | nil => apply Divides.nil
  | @cons place b rest blocks hb _ ih =>
      subst hplace
      constructor
      · have hbetween {x : Nat} (hx : x ∈ edges) (length : Nat) :=
          between_shiftPlace_iff (hedges x hx) added n length
        cases b with
        | kept i =>
            intro r hr
            obtain ⟨_, hmem, hlt⟩ := hb r hr
            obtain ⟨x, hx, rfl⟩ := List.mem_map.mp hmem
            exact ⟨x, hx, (hbetween hx r.length).mp hlt⟩
        | replaced hreplaces =>
            use hb.1
            intro x hx hlt
            apply hb.2 _ (List.mem_map_of_mem hx) ((hbetween hx _).mpr hlt)
      · rw [Nat.add_assoc]
        apply ih
        rw [Nat.add_assoc _ n]

theorem Divides.flatMap_before {edges : List Nat} {place : Nat} {code : List Instruction}
    {blocks : List Block} (h : Divides edges place code blocks) :
  blocks.flatMap Block.before = code
  := by
  induction h with
  | nil => rfl
  | cons _ _ ih => rw [List.flatMap_cons, ih]

/-! ### Places -/

/-- Where blocks start before or after the pass, and where the last one ends. -/
def boundary (part : Block → List Instruction) (blocks : List Block) (k : Nat) : Nat :=
  ((blocks.take k).flatMap part).length

section

variable {part : Block → List Instruction} {b : Block} {blocks : List Block}

@[simp]
theorem boundary_zero (part : Block → List Instruction) (blocks : List Block) :
  boundary part blocks 0 = 0
  := rfl

@[simp]
theorem boundary_cons_succ (part : Block → List Instruction) (b : Block) (blocks : List Block)
    (k : Nat) :
  boundary part (b :: blocks) (k + 1) = (part b).length + boundary part blocks k
  := by
  rw [boundary, boundary, List.take_succ_cons, List.flatMap_cons, List.length_append]

/-- A block that is not empty lies before exactly those that come after it. -/
theorem boundary_le_iff {j k : Nat} (hk : blocks[k]? = some b) (hpos : 0 < (part b).length) :
  boundary part blocks j ≤ boundary part blocks k ↔ j ≤ k
  := by
  induction blocks generalizing j k with
  | nil => contradiction
  | cons b' blocks ih =>
      cases j with
      | zero => simp
      | succ j =>
          cases k with
          | zero =>
              obtain rfl := Option.some.inj hk
              simp only [boundary_cons_succ, boundary_zero]
              omega
          | succ k =>
              have hiff := @ih j k hk
              simp only [boundary_cons_succ]
              omega

/-- Where a block follows what a pass does, in the code that it divides. -/
theorem Divides.follows {edges : List Nat} {place k : Nat} {code : List Instruction}
    (h : Divides edges place code blocks) (hk : blocks[k]? = some b) :
  b.Follows edges (place + boundary Block.before blocks k)
    (code.drop (boundary Block.before blocks k))
  := by
  induction h generalizing k with
  | nil => contradiction
  | @cons place b' rest blocks hb _ ih =>
      cases k with
      | zero =>
          obtain rfl := Option.some.inj hk
          apply hb
      | succ k =>
          have hrest := ih hk
          rwa [boundary_cons_succ, ← Nat.add_assoc, ← List.drop_drop, List.drop_left]

end

/-- Where a place moves to when the blocks are rewritten. -/
def moveAlong : List Block → Nat → Nat
  | [], place => place
  | b :: blocks, place =>
    if place < b.before.length then place
    else b.after.length + moveAlong blocks (place - b.before.length)

theorem moveAlong_zero (blocks : List Block) :
  moveAlong blocks 0 = 0
  := by
  cases blocks with
  | nil => rfl
  | cons b blocks => rw [moveAlong, if_pos b.length_before_pos]

theorem moveAlong_add (b : Block) (blocks : List Block) (place : Nat) :
  moveAlong (b :: blocks) (b.before.length + place) = b.after.length + moveAlong blocks place
  := by
  rw [moveAlong, if_neg (by omega), Nat.add_sub_cancel_left]

/-- An edge within the code lies where blocks meet, and moves to where they meet. -/
theorem Divides.exists_boundary {edges : List Nat} {place x : Nat} {code : List Instruction}
    {blocks : List Block} (h : Divides edges place code blocks) (hx : x ∈ edges)
    (hle : place ≤ x) (hle' : x ≤ place + code.length) :
  ∃ k ≤ blocks.length, x = place + boundary Block.before blocks k
    ∧ moveAlong blocks (x - place) = boundary Block.after blocks k
  := by
  induction h with
  | nil =>
      obtain rfl := Nat.le_antisymm hle hle'
      use 0, Nat.le_refl 0, rfl
      rw [Nat.sub_self]
      rfl
  | @cons place b rest blocks hb _ ih =>
      obtain hx | hx := hb.outside hx
      · obtain rfl := Nat.le_antisymm hle hx
        use 0, Nat.zero_le _, rfl
        rw [Nat.sub_self]
        apply moveAlong_zero
      · rw [List.length_append, ← Nat.add_assoc] at hle'
        obtain ⟨k, hk, heq, hmove⟩ := ih hx hle'
        use k + 1, Nat.succ_le_succ hk
        rw [boundary_cons_succ, boundary_cons_succ, ← hmove, ← Nat.add_assoc]
        use heq
        rw [← moveAlong_add]
        congr 1
        omega

/-! ### One pass -/

/-- The handler with its places moved. -/
def relocate (f : Nat → Nat) (h : Handler) : Handler :=
  { h with start := f h.start, stop := f h.stop }

/-- Where a place moves to when the blocks from `index` on are rewritten. -/
def moveFrom (index : Nat) (blocks : List Block) (place : Nat) : Nat :=
  if place < index then place else index + moveAlong blocks (place - index)

theorem moveFrom_zero (blocks : List Block) :
  moveFrom 0 blocks = moveAlong blocks
  := by
  funext place
  rw [moveFrom, if_neg (Nat.not_lt_zero place), Nat.zero_add, Nat.sub_zero]

/-- Moving a place along a block and then along the others. A place at the block stays, also if
nothing is left of the block. -/
theorem moveFrom_shiftPlace {b : Block} {index x : Nat} (blocks : List Block)
    (hx : x ≤ index ∨ index + b.before.length ≤ x) :
  moveFrom (index + b.after.length) blocks
      (shiftPlace (index + b.before.length) b.before.length b.after.length x)
    = moveFrom index (b :: blocks) x
  := by
  have hpos := b.length_before_pos
  obtain hx | hx := hx
  · rw [shiftPlace, if_neg (by omega)]
    obtain rfl | hlt := Nat.eq_or_lt_of_le hx
    · simp only [moveFrom, Nat.lt_irrefl, if_false, Nat.sub_self, moveAlong_zero, Nat.add_zero]
      split
      · rfl
      · rw [show x - (x + b.after.length) = 0 by omega, moveAlong_zero]
        omega
    · rw [moveFrom, moveFrom, if_pos (by omega), if_pos hlt]
  · obtain ⟨n, rfl⟩ := Nat.exists_eq_add_of_le hx
    rw [shiftPlace, if_pos (by omega), moveFrom, moveFrom, if_neg (by omega), if_neg (by omega),
      show index + b.before.length + n - index = b.before.length + n by omega, moveAlong_add,
      ← Nat.add_assoc]
    congr 2
    omega

/-- Handlers that are shifted along a block and then moved along the others are moved along all. -/
theorem relocate_shift {b : Block} {handlers : List Handler} {index : Nat} (blocks : List Block)
    (hedges : ∀ x ∈ edges handlers, x ≤ index ∨ index + b.before.length ≤ x) :
  (shiftAll handlers (index + b.before.length) b.before.length b.after.length).map
      (relocate (moveFrom (index + b.after.length) blocks))
    = handlers.map (relocate (moveFrom index (b :: blocks)))
  := by
  rw [shiftAll, List.map_map]
  apply List.map_congr_left
  intro h hmem
  simp only [Function.comp_apply, relocate, Handler.shift,
    moveFrom_shiftPlace blocks (hedges _ (start_mem_edges hmem)),
    moveFrom_shiftPlace blocks (hedges _ (stop_mem_edges hmem))]

/-- The pass has rewritten the code from `index` on, block by block. -/
def RewritesBlocks (done : List Instruction) (index : Nat) (handlers : List Handler)
    (rest : List Instruction) (p : Pass) : Prop :=
  ∃ blocks, Divides (edges handlers) index rest blocks
    ∧ p.instructions = done.reverse ++ blocks.flatMap Block.after
    ∧ p.handlers = handlers.map (relocate (moveFrom index blocks))

section

variable {p : Pass} {done rest : List Instruction} {index : Nat} {handlers : List Handler}

/-- What rewrites the rest in blocks rewrites a block and the rest. -/
theorem RewritesBlocks.cons (b : Block) (hb : b.Follows (edges handlers) index (b.before ++ rest))
    (h : RewritesBlocks (b.after.reverse ++ done) (index + b.after.length)
      (shiftAll handlers (index + b.before.length) b.before.length b.after.length) rest p) :
  RewritesBlocks done index handlers (b.before ++ rest) p
  := by
  obtain ⟨blocks, hdivides, hinstructions, hhandlers⟩ := h
  have hedges : ∀ x ∈ edges handlers, x ≤ index ∨ index + b.before.length ≤ x :=
    fun x hx => hb.outside hx
  rw [edges_shiftAll] at hdivides
  use b :: blocks
  constructor
  · apply Divides.cons hb
    apply Divides.of_shift (n := 0) hedges hdivides
  · rw [hinstructions, hhandlers, relocate_shift blocks hedges]
    simp

/-- A block that keeps its length shifts nothing. -/
theorem shiftAll_self (handlers : List Handler) {stop removed : Nat} (hle : removed ≤ stop) :
  shiftAll handlers stop removed removed = handlers
  := by
  have hplace (x : Nat) : shiftPlace stop removed removed x = x := by
    unfold shiftPlace
    split <;> omega
  have hshift : Handler.shift stop removed removed = id := by
    funext h
    simp only [Handler.shift, hplace, id]
  rw [shiftAll, hshift, List.map_id]

/-- An instruction at which no rule may be applied is kept. -/
theorem RewritesBlocks.kept {i : Instruction}
    (hbarred : ∀ r, step? (i :: rest) = some r →
      anyStraddles handlers index (index + r.length) = true)
    (h : RewritesBlocks (i :: done) (index + 1) handlers rest p) :
  RewritesBlocks done index handlers (i :: rest) p
  := by
  have hb : (Block.kept i).Follows (edges handlers) index (i :: rest) :=
    fun r hr => anyStraddles_iff.mp (hbarred r hr)
  have hself := shiftAll_self handlers (Nat.le_add_left 1 index)
  exact RewritesBlocks.cons (.kept i) hb (hself.symm ▸ h)

/-- A scan rewrites the rest of the code block by block. -/
theorem scan_rewritesBlocks (done : List Instruction) (index : Nat) (handlers : List Handler)
    (applied : List (Rule × Nat)) (rest : List Instruction) :
  RewritesBlocks done index handlers rest (scan done index handlers applied rest)
  := by
  fun_induction scan done index handlers applied rest with
  | case1 done index handlers applied =>
      use [], .nil, by simp
      have hplace (x : Nat) : moveFrom index [] x = x := by
        rw [moveFrom, moveAlong]
        split <;> omega
      have hmove : relocate (moveFrom index []) = id := by
        funext h
        simp only [relocate, hplace, id]
      rw [hmove, List.map_id]
  | case2 done index handlers applied i tail hnone ih =>
      apply ih.kept
      intro r hr
      rw [hnone] at hr
      contradiction
  | case3 done index handlers applied i tail r hsome hstraddles ih =>
      apply ih.kept
      intro r' hr'
      obtain rfl := Option.some.inj (hsome.symm.trans hr')
      apply hstraddles
  | case4 done index handlers applied i tail r hsome hstraddles ih =>
      obtain ⟨window, hcode, hlength, hreplaces⟩ := exists_window_of_step? hsome
      generalize tail.drop (r.length - 1) = rest at hcode ih ⊢
      rw [hcode] at hsome ⊢
      rw [hlength] at ih hstraddles ⊢
      have hb : (Block.replaced hreplaces).Follows (edges handlers) index (window ++ rest) := by
        use ⟨r, hsome, hlength, rfl⟩
        intro x hx hlt
        apply hstraddles (anyStraddles_iff.mpr ⟨x, hx, hlt⟩)
      exact RewritesBlocks.cons (.replaced hreplaces) hb ih

end

/-- The handler has moved with the blocks: each of its places from where some blocks meet to
where the same ones meet after the pass. -/
structure MovesAlong (blocks : List Block) (h h' : Handler) : Prop where
  target : h'.target = h.target
  catchType : h'.catchType = h.catchType
  start : ∃ k ≤ blocks.length, h.start = boundary Block.before blocks k
    ∧ h'.start = boundary Block.after blocks k
  stop : ∃ k ≤ blocks.length, h.stop = boundary Block.before blocks k
    ∧ h'.stop = boundary Block.after blocks k

/-- A handler that has moved with the blocks protects an instruction that stays exactly if it
did so before. -/
theorem MovesAlong.covers_eq {blocks : List Block} {h h' : Handler}
    (hmoves : MovesAlong blocks h h') {k : Nat} {i : Instruction}
    (hk : blocks[k]? = some (.kept i)) :
  covers (boundary Block.after blocks k) h' = covers (boundary Block.before blocks k) h
  := by
  have hle (j : Nat) : boundary Block.after blocks j ≤ boundary Block.after blocks k
      ↔ boundary Block.before blocks j ≤ boundary Block.before blocks k := by
    have hafter : 0 < (Block.kept i).after.length := Nat.one_pos
    rw [boundary_le_iff hk hafter, boundary_le_iff hk (Block.length_before_pos _)]
  obtain ⟨a, -, hstart, hstart'⟩ := hmoves.start
  obtain ⟨b, -, hstop, hstop'⟩ := hmoves.stop
  have hle' := hle b
  rw [← not_iff_not, Nat.not_le, Nat.not_le] at hle'
  rw [covers, covers, hstart, hstart', hstop, hstop', decide_eq_decide.mpr (hle a),
    decide_eq_decide.mpr hle']

/-- A label in what blocks make up is one that stays, if no other part has labels. -/
theorem exists_kept_of_label {part : Block → List Instruction}
    (hpart : ∀ b, ∀ i ∈ part b, i.isLabel = true → b = .kept i)
    (hkept : ∀ i, part (.kept i) = [i]) {blocks : List Block} {place : Nat} {l : Label}
    (h : (blocks.flatMap part)[place]? = some (.label l)) :
  ∃ k, blocks[k]? = some (.kept (.label l)) ∧ boundary part blocks k = place
  := by
  induction blocks generalizing place with
  | nil => contradiction
  | cons b blocks ih =>
      rw [List.flatMap_cons, List.getElem?_append] at h
      split at h
      · next hlt =>
        obtain rfl := hpart b _ (List.mem_of_getElem? h) rfl
        rw [hkept, List.length_singleton, Nat.lt_one_iff] at hlt
        use 0, rfl, hlt.symm
      · next hge =>
        obtain ⟨k, hk, hboundary⟩ := ih h
        use k + 1, hk
        rw [boundary_cons_succ, hboundary]
        omega

/-- A label in front of a rewrite is a block of its own. -/
theorem Block.eq_kept_of_mem_before {b : Block} {i : Instruction} (hi : i ∈ b.before)
    (hlabel : i.isLabel = true) :
  b = .kept i
  := by
  cases b with
  | kept j => rw [List.mem_singleton.mp hi]
  | replaced h =>
      rw [h.isLabel_window i hi] at hlabel
      contradiction

/-- A label after a rewrite is a block of its own. -/
theorem Block.eq_kept_of_mem_after {b : Block} {i : Instruction} (hi : i ∈ b.after)
    (hlabel : i.isLabel = true) :
  b = .kept i
  := by
  cases b with
  | kept j => rw [List.mem_singleton.mp hi]
  | replaced h =>
      rw [h.isLabel_replacement i hi] at hlabel
      contradiction

/-- The code has been rewritten block by block and its handlers have moved with the blocks. -/
structure Transports (code code' : MethodCode) (blocks : List Block) : Prop where
  before : blocks.flatMap Block.before = code.instructions
  after : blocks.flatMap Block.after = code'.instructions
  /-- A window is replaced exactly where the first rule that applies replaces it and no handler
  starts or ends strictly within it. -/
  follows : ∀ {k : Nat} {b : Block}, blocks[k]? = some b → b.Follows (edges code.handlers)
    (boundary Block.before blocks k) (code.instructions.drop (boundary Block.before blocks k))
  handlers : List.Forall₂ (MovesAlong blocks) code.handlers code'.handlers
  /-- What stays is protected by the same handlers. -/
  covered : ∀ {k : Nat} {i}, blocks[k]? = some (.kept i) → List.Forall₂ (fun h h' =>
    covers (boundary Block.after blocks k) h' = covers (boundary Block.before blocks k) h)
    code.handlers code'.handlers
  /-- Every label stays. -/
  labels : ∀ {place : Nat} {l}, code.instructions[place]? = some (.label l) →
    ∃ k, blocks[k]? = some (.kept (.label l)) ∧ boundary Block.before blocks k = place
  /-- There are no labels but those that stay. -/
  labels_after : ∀ {place : Nat} {l}, code'.instructions[place]? = some (.label l) →
    ∃ k, blocks[k]? = some (.kept (.label l)) ∧ boundary Block.after blocks k = place

/-- A pass rewrites code block by block and moves its handlers along. -/
theorem exists_transports_rewritten {code : MethodCode}
    (hbounds : ∀ h ∈ code.handlers,
      h.start ≤ code.instructions.length ∧ h.stop ≤ code.instructions.length) :
  ∃ blocks, Transports code (rewritten code) blocks
  := by
  obtain ⟨blocks, hdivides, hinstructions, hhandlers⟩ :=
    scan_rewritesBlocks [] 0 code.handlers [] code.instructions
  rw [moveFrom_zero] at hhandlers
  have hmoves : List.Forall₂ (MovesAlong blocks) code.handlers (rewritten code).handlers := by
    have hedge {x : Nat} (hx : x ∈ edges code.handlers) (hle : x ≤ code.instructions.length) :
        ∃ k ≤ blocks.length, x = boundary Block.before blocks k
          ∧ moveAlong blocks x = boundary Block.after blocks k := by
      have hboundary := hdivides.exists_boundary hx (Nat.zero_le x) (by omega)
      simpa only [Nat.zero_add, Nat.sub_zero] using hboundary
    have heq : (rewritten code).handlers = code.handlers.map (relocate (moveAlong blocks)) :=
      hhandlers
    rw [heq, List.forall₂_map_right_iff, List.forall₂_same]
    intro h hmem
    obtain ⟨hstart, hstop⟩ := hbounds h hmem
    exact ⟨rfl, rfl, hedge (start_mem_edges hmem) hstart, hedge (stop_mem_edges hmem) hstop⟩
  have hbefore := hdivides.flatMap_before
  have hafter : blocks.flatMap Block.after = (rewritten code).instructions := hinstructions.symm
  use blocks
  refine ⟨hbefore, hafter, ?_, hmoves, ?_, ?_, ?_⟩
  · intro k b hk
    have hfollows := hdivides.follows hk
    rwa [Nat.zero_add] at hfollows
  · intro k i hk
    apply hmoves.imp
    intro h h' hmoves
    apply hmoves.covers_eq hk
  · intro place l hl
    rw [← hbefore] at hl
    apply exists_kept_of_label (fun b i => Block.eq_kept_of_mem_before) (fun i => rfl) hl
  · intro place l hl
    rw [← hafter] at hl
    apply exists_kept_of_label (fun b i => Block.eq_kept_of_mem_after) (fun i => rfl) hl

/-! ### All passes -/

/-- The labels in code that starts at a place, in order, each with what there is at its place. -/
def labelsFrom {α : Type} (f : Nat → α) : List Instruction → Nat → List (Label × α)
  | [], _ => []
  | .label l :: rest, place => (l, f place) :: labelsFrom f rest (place + 1)
  | _ :: rest, place => labelsFrom f rest (place + 1)

section

variable {α : Type} {f g : Nat → α}

theorem labelsFrom_cons (f : Nat → α) (i : Instruction) (rest : List Instruction) (place : Nat) :
  labelsFrom f (i :: rest) place = labelsFrom f [i] place ++ labelsFrom f rest (place + 1)
  := by
  cases i <;> rfl

theorem labelsFrom_append (f : Nat → α) (code rest : List Instruction) (place : Nat) :
  labelsFrom f (code ++ rest) place
    = labelsFrom f code place ++ labelsFrom f rest (place + code.length)
  := by
  induction code generalizing place with
  | nil => rfl
  | cons i code ih =>
      rw [List.cons_append, labelsFrom_cons, labelsFrom_cons f i code, ih, List.append_assoc,
        List.length_cons, Nat.add_assoc, Nat.add_comm 1]

/-- Code without labels has no labels at any place. -/
theorem labelsFrom_eq_nil {code : List Instruction} (h : ∀ i ∈ code, i.isLabel = false)
    (f : Nat → α) (place : Nat) :
  labelsFrom f code place = []
  := by
  induction code generalizing place with
  | nil => rfl
  | cons i code ih =>
      obtain ⟨hi, hcode⟩ := List.forall_mem_cons.mp h
      rw [labelsFrom_cons, ih hcode]
      cases i with
      | label l => contradiction
      | _ => rfl

/-- Labels keep what there is at their places, if the two agree within the code. -/
theorem labelsFrom_congr {code : List Instruction} {place place' : Nat}
    (h : ∀ n < code.length, f (place + n) = g (place' + n)) :
  labelsFrom f code place = labelsFrom g code place'
  := by
  induction code generalizing place place' with
  | nil => rfl
  | cons i code ih =>
      have hrest : labelsFrom f code (place + 1) = labelsFrom g code (place' + 1) := by
        apply ih
        intro n hn
        rw [Nat.add_assoc, Nat.add_assoc, Nat.add_comm 1]
        apply h (n + 1) (Nat.succ_lt_succ hn)
      have hfirst : f place = g place' := h 0 (Nat.zero_lt_succ _)
      rw [labelsFrom_cons, labelsFrom_cons g, hrest]
      cases i with
      | label l => rw [labelsFrom, labelsFrom, hfirst, labelsFrom, labelsFrom]
      | _ => rfl

end

/-- The labels in the code in order, each with which of the handlers protect it. -/
def labelCover (code : MethodCode) : List (Label × List Bool) :=
  labelsFrom (fun place => code.handlers.map (covers place)) code.instructions 0

/-- Where exceptions go and which of them, for each handler in order. -/
def routes (code : MethodCode) : List (Label × Option Ty) :=
  code.handlers.map fun h => (h.target, h.catchType)

theorem Site.routes_target (p : Site) :
  routes p.target = routes p.source
  := by
  rw [routes, target, shiftAll, List.map_map]
  rfl

/-- Labels keep what there is at their places, if it is the same at corresponding ones: windows and
their replacements have no labels. -/
theorem Site.labelsFrom_target {α : Type} {f g : Nat → α} (p : Site)
    (h : ∀ place, place < p.start ∨ p.stop ≤ place → f (p.moved place) = g place) :
  labelsFrom f p.target.instructions 0 = labelsFrom g p.source.instructions 0
  := by
  have hparts (f : Nat → α) {part : List Instruction} (hpart : ∀ i ∈ part, i.isLabel = false) :
      labelsFrom f (p.before ++ part ++ p.after) 0
        = labelsFrom f p.before 0 ++ labelsFrom f p.after (p.start + part.length) := by
    rw [labelsFrom_append, labelsFrom_append, labelsFrom_eq_nil hpart, List.append_nil,
      List.length_append, Nat.zero_add]
    rfl
  rw [target, source, hparts f p.replaces.isLabel_replacement, hparts g p.replaces.isLabel_window]
  congr 1
  · apply labelsFrom_congr
    intro n hn
    have hn' : n < p.start := hn
    have heq := h n (.inl hn')
    rwa [moved_of_lt (Nat.lt_trans hn' p.start_lt_stop), ← Nat.zero_add n] at heq
  · apply labelsFrom_congr
    intro n _
    have heq := h (p.stop + n) (.inr (Nat.le_add_right _ _))
    rwa [moved_add] at heq

/-- One step of rewriting keeps the labels and the handlers that protect each of them. -/
theorem Site.labelCover_target (p : Site) :
  labelCover p.target = labelCover p.source
  := by
  apply p.labelsFrom_target
  intro place hplace
  rw [target, shiftAll, List.map_map]
  apply List.map_congr_left
  intro h hmem
  apply covers_moved hmem (hplace.imp_right .inl)

/-- A pass moves handlers with the code: it rewrites the code block by block, and handlers
go from where blocks meet to where the same ones meet. After all passes the labels stand in
their order, and each handler protects those that it did before. -/
theorem handlers_transported (code : MethodCode)
    (hbounds : ∀ h ∈ code.handlers,
      h.start ≤ code.instructions.length ∧ h.stop ≤ code.instructions.length) :
  (∃ blocks, Transports code (rewritten code) blocks)
    ∧ routes (optimize code) = routes code ∧ labelCover (optimize code) = labelCover code
  := by
  use exists_transports_rewritten hbounds
  constructor
  · apply optimize_preserves (fun code' => routes code' = routes code) _ code rfl
    rintro _ _ ⟨p, rfl, rfl⟩ h
    rw [p.routes_target, h]
  · apply optimize_preserves (fun code' => labelCover code' = labelCover code) _ code rfl
    rintro _ _ ⟨p, rfl, rfl⟩ h
    rw [p.labelCover_target, h]

/-- A loop body behind a value that is dropped. Of its handlers one protects the increment, one
ends before it starts, and one starts within the increment. -/
def fenced : MethodCode :=
  ⟨[.int 1, .pop 1, .label ⟨"start"⟩, .load 0 .int, .int 1, .arith .add .int, .store 0 .int,
      .label ⟨"end"⟩, .goto ⟨"start"⟩, .label ⟨"catch"⟩, .throw],
    [⟨2, 7, ⟨"catch"⟩, none⟩, ⟨7, 2, ⟨"catch"⟩, none⟩, ⟨4, 8, ⟨"catch"⟩, none⟩], 1⟩

/-- In the loop body the labels stay protected as they were. -/
theorem fenced_transported :
  (∀ h ∈ fenced.handlers,
      h.start ≤ fenced.instructions.length ∧ h.stop ≤ fenced.instructions.length)
    ∧ (∃ blocks, Transports fenced (rewritten fenced) blocks)
    ∧ routes (optimize fenced) = [(⟨"catch"⟩, none), (⟨"catch"⟩, none), (⟨"catch"⟩, none)]
    ∧ labelCover (optimize fenced) = [(⟨"start"⟩, [true, false, false]),
      (⟨"end"⟩, [false, false, true]), (⟨"catch"⟩, [false, false, false])]
  := by
  have hbounds : ∀ h ∈ fenced.handlers,
      h.start ≤ fenced.instructions.length ∧ h.stop ≤ fenced.instructions.length := by
    simp [fenced]
  obtain ⟨hblocks, hroutes, hcover⟩ := handlers_transported fenced hbounds
  exact ⟨hbounds, hblocks, hroutes, hcover⟩

end Peephole

end ClassForge
